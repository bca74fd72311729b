import Lox.Proofs.Formed.Layers
import Lox.Proofs.Grammar.Scripts
import Lox.Proofs.Proper.Orderly
import Lox.Proofs.Run.Capped
import Lox.Proofs.Run.Sessions

/-!
# Runs of parsed trees

What a parse gives is formed at all its nodes, also where there were syntax errors, and functions
carry these trees from one run to the next. So in a machine that nothing but parsed trees were run
on, the errors that an evaluator has for trees of other shapes are never met
(`parsed_runs_regular`). Nothing is asked of the distances: names may be resolved or not, and the
table may hold anything.
-/

namespace Lox

/-- The statement came out of a parse of some tokens, with whatever errors. -/
def Stmt.Parsed (s : Stmt) : Prop :=
  ∃ tokens nextSite, s ∈ (Program.parse tokens nextSite).tree

/-- The expression came out of a parse of some tokens, with whatever errors. -/
def Expr.Parsed (e : Expr) : Prop :=
  ∃ tokens nextSite, e ∈ (Expr.parse tokens nextSite).tree

theorem Stmt.Parsed.formed {s : Stmt} (h : s.Parsed) : s.Formed := by
  obtain ⟨tokens, nextSite, hs⟩ := h
  exact Stmt.formedAll_iff.mp (Program.parse_formed tokens nextSite) s hs

theorem Expr.Parsed.formed {e : Expr} (h : e.Parsed) : e.Formed := by
  obtain ⟨tokens, nextSite, he⟩ := h
  exact Expr.parse_formed tokens nextSite e he

namespace Eval

/-! ## Programs and expressions -/

/-- Only statements and expressions that came out of parses were run. Between two of them the table
of distances, the input, the output and the host may be replaced by any others. -/
inductive Run.OfParses : Run → Prop where
  | start (input : Input) (output : Output) (host : Host) :
      OfParses (Chronicle.start input output host).run
  | between {r : Run} (h : r.OfParses) (table : Table) (input : Input) (output : Output)
      (host : Host) : OfParses { r with machine := { r.machine with table, input, output, host } }
  | program {r : Run} (h : r.OfParses) (fuel : Nat) {ss : List Stmt} (hss : ∀ s ∈ ss, s.Parsed) :
      OfParses (endOf (traceProgram fuel ss r))
  | expression {r : Run} (h : r.OfParses) (fuel : Nat) {e : Expr} (he : e.Parsed) :
      OfParses (endOf (traceExpression fuel e r))

variable {r : Run}

theorem traceProgram_formed (fuel : Nat) {ss : List Stmt} (hr : r.Formed)
    (hss : ∀ s ∈ ss, s.Formed) :
    formation.Outcome r (fun _ _ => True) (traceProgram fuel ss r) := by
  induction ss generalizing r with
  | nil => exact ⟨hr, trivial⟩
  | cons s ss ih =>
    have hs : formation.Outcome r (fun a _ => (Task.statement s).GivesFormed a)
        ((Task.statement s).trace fuel .top r) :=
      formation_run fuel hr (hss s List.mem_cons_self)
    refine Contract.Outcome.bind hs fun _ r₁ hr₁ _ => ?_
    exact .of_kept formation_lawful hr₁ (ih hr₁ fun s' hs' => hss s' (List.mem_cons_of_mem _ hs'))

theorem traceExpression_formed (fuel : Nat) {e : Expr} (hr : r.Formed) (he : e.Formed) :
    formation.Outcome r (fun _ _ => True) (traceExpression fuel e r) := by
  have hvalue : formation.Outcome r (fun a _ => (Task.expression e).GivesFormed a)
      ((Task.expression e).trace fuel .top r) :=
    formation_run fuel hr he
  refine Contract.Outcome.bind hvalue fun v r₁ hr₁ _ => ⟨?_, trivial⟩
  exact Run.Formed.logged hr₁ (by rintro _ _ _ ⟨⟩) hr₁.store rfl

theorem start_formed (input : Input) (output : Output) (host : Host) :
    (Chronicle.start input output host).run.Formed := by
  have hbare := Machine.start_bare input output host
  refine ⟨⟨fun frame name b hb => ?_, fun o name v hv => ?_⟩, fun _ h => nomatch h⟩
  · obtain ⟨n, serial, rfl⟩ := hbare.binding frame name b hb
    trivial
  · cases (hbare.field o name).symm.trans hv

/-- Wherever nothing but parsed trees were run, all functions were declared in formed ones. -/
theorem Run.OfParses.formed (h : r.OfParses) : r.Formed := by
  induction h with
  | start input output host => exact start_formed input output host
  | between h table input output host ih => exact ⟨ih.store, ih.log⟩
  | program h fuel hss ih =>
    have hrun := traceProgram_formed fuel ih fun s hs => (hss s hs).formed
    exact hrun.ends (fun _ hr => hr) fun _ hr => hr
  | expression h fuel he ih =>
    exact (traceExpression_formed fuel ih he.formed).ends (fun _ hr => hr) fun _ hr => hr

/-! ## Errors -/

/-- A step of a task stopped with the error, as one of that task may. -/
def Run.Explains (r : Run) (e : RuntimeError) : Prop :=
  ∃ ev ∈ r.history.log, ∃ task ∈ ev.around.tasks.head?,
    (∃ mark m, ev.occurrence = .step mark (some (.fault e)) m) ∧ task.MayStopWith (.fault e)

/-- An error that ends a computation on a machine is explained by its history, if that is formed. -/
theorem explained_of_formed {α : Type} {x : Traced α} {y : Exec α} {e : RuntimeError} {m : Machine}
    (herases : Erases x y) (hexplained : Explained x) (hformed : (endOf (x r)).Formed)
    (h : y r.machine = .error (.fault e) m) :
    ∃ r', x r = .error (.fault e) r' ∧ r'.machine = m ∧ r'.Explains e := by
  have hr := herases r
  have he := hexplained r
  cases hx : x r with
  | ok a r' =>
    rw [hx] at hr
    cases hr.symm.trans h
  | error halt r' =>
    rw [hx] at hr he hformed
    cases hr.symm.trans h
    obtain ⟨ev, hev, mark, m, hstep⟩ := he e rfl
    obtain ⟨task, htask, hmay⟩ := hformed.log ev hev mark _ m hstep
    exact ⟨r', rfl, rfl, ev, hev, task, htask, ⟨mark, m, hstep⟩, hmay⟩

/-- **Parsed trees never meet the checks for trees of other shapes.** All trees that parsing gives
are formed at all their nodes, whatever the tokens and the errors are. Where only such trees were
run, no step was ever stopped by an operator that is none of its node or by a target of `input` that
is no variable, and an error about a superclass always named the superclass. So it is with the
errors that a program or an expression run next may end with. -/
theorem parsed_runs_regular :
    (∀ tokens nextSite, Stmt.FormedAll (Program.parse tokens nextSite).tree ∧
      ∀ e ∈ (Expr.parse tokens nextSite).tree, e.Formed) ∧
    ∀ r : Run, r.OfParses → (∀ ev ∈ r.history.log, ev.Regular) ∧
      (∀ fuel ss, (∀ s ∈ ss, Stmt.Parsed s) →
        ∀ e m, interpret fuel ss r.machine = .error (.fault e) m →
          ∃ r', traceProgram fuel ss r = .error (.fault e) r' ∧ r'.machine = m ∧ r'.Explains e) ∧
      ∀ fuel tree, Expr.Parsed tree →
        ∀ e m, interpretExpression fuel tree r.machine = .error (.fault e) m →
          ∃ r', traceExpression fuel tree r = .error (.fault e) r' ∧ r'.machine = m ∧
            r'.Explains e := by
  refine ⟨fun tokens nextSite => ⟨Program.parse_formed tokens nextSite,
    Expr.parse_formed tokens nextSite⟩, fun r hr => ⟨hr.formed.log, fun fuel ss hss e m => ?_,
    fun fuel tree htree e m => ?_⟩⟩
  · exact explained_of_formed (Chronicle.traceProgram_erases fuel ss)
      (traceProgram_explained fuel ss) (hr.program fuel hss).formed
  · exact explained_of_formed (Chronicle.traceExpression_erases fuel tree)
      (traceExpression_explained fuel tree) (hr.expression fuel htree).formed

/-- A class is run although a syntax error comes after it, and its superclass is no class. -/
theorem parsed_runs_regular_recovered :
    let parsed := Program.parse (scanTokens "var b; class A < b \x7b\x7d print (1;") 0
    let r := (Chronicle.start ⟨[]⟩ {} ⟨fun _ => 0, fun _ => 0, 0, 0⟩).run
    let e : RuntimeError := ⟨⟨.identifier, "b", 1⟩, .superclassNotClass⟩
    parsed.errors.length = 1 ∧
      ∃ r', traceProgram 9 parsed.tree r = .error (.fault e) r' ∧ r'.Explains e := by
  intro parsed r e
  have hstops : (match interpret 9 parsed.tree r.machine with
      | .error halt _ => some halt
      | .ok _ _ => none) = some (.fault e) := by
    decide +kernel
  cases hrun : interpret 9 parsed.tree r.machine with
  | ok a m =>
    rw [hrun] at hstops
    cases hstops
  | error halt m =>
    rw [hrun] at hstops
    cases hstops
    have hparsed : ∀ s ∈ parsed.tree, s.Parsed := fun s hs => ⟨_, _, hs⟩
    obtain ⟨r', htrace, _, hexplains⟩ :=
      (parsed_runs_regular.2 r (.start _ _ _)).2.1 9 parsed.tree hparsed e m hrun
    exact ⟨by decide +kernel, r', htrace, hexplains⟩

end Eval

end Lox
