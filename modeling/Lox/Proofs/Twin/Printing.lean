import Lox.Proofs.Grammar.Ending
import Lox.Proofs.Run.Capped
import Lox.Proofs.Scope.Shifted
import Lox.Proofs.Twin.Splitting

/-!
# Evaluating and printing

An expression can be evaluated as a text of its own, or printed by a statement of a program. Both do
the same (`Session.evaluate_as_print`), by way of two entries to each stage: scanning joins the
lines of the statement, parsing finds the same expression in front of the semicolon as in front of
the end, resolving looks at nothing around it, and running the statement writes the value that is
written behind the evaluation. A sink that never fails is asked for, since a statement that cannot
print stops with an error, while the value of a text is left out in silence.
-/

namespace Lox

open Grammar

/-- The text of a statement that prints an expression, the expression on lines of its own. -/
def printing (source : String) : String :=
  "print" ++ "\n" ++ (source ++ "\n" ++ ";")

/-! ## Parsing -/

section Parsing

variable {source : String} {n : Site} {e : Expr}

/-- The statement's tokens: those of the expression are one line later. -/
theorem scan_printing (hscan : scanErrors source = []) :
    scanErrors (printing source) = [] ∧ ∃ ts stop line,
      scanTokens source = ts ++ [.endOf stop] ∧ (∀ t ∈ ts, t.isEnd = false) ∧
      scanTokens (printing source) =
        ⟨.keyword .printKw, "print", 1⟩ ::
          (ts.map (Token.later 1) ++ [⟨.mark .semicolon, ";", line⟩]) ++ [.endOf line] := by
  have hkeyword : scanErrors "print" = [] := by decide +kernel
  have hkeywordTokens : scanTokens "print" = [⟨.keyword .printKw, "print", 1⟩] ++ [.endOf 1] := by
    decide +kernel
  have hsemicolon : scanErrors ";" = [] := by decide +kernel
  have hsemicolonTokens : scanTokens ";" = [⟨.mark .semicolon, ";", 1⟩, .endOf 1] := by
    decide +kernel
  obtain ⟨ts, htokens, hopen, hboth, hclean⟩ := scan_joined hscan ";"
  obtain ⟨front, hfront, -, hwhole, hwholeClean⟩ := scan_joined hkeyword (source ++ "\n" ++ ";")
  obtain ⟨rfl, -⟩ := List.append_inj' (hkeywordTokens.symm.trans hfront) rfl
  refine ⟨hwholeClean (hclean hsemicolon), ts, _, 1 + (Scan.newlines source.toList + 1) + 1,
    htokens, hopen, ?_⟩
  rw [hboth, hsemicolonTokens, List.map_append] at hwhole
  rw [List.cons_append, List.append_assoc]
  exact hwhole

/-- The statement is parsed as the expression is. -/
theorem parse_printing (hscan : scanErrors source = [])
    (htree : (Expr.parse (scanTokens source) n).tree = some e)
    (herrors : (Expr.parse (scanTokens source) n).errors = []) :
    ∃ keyword, Program.parse (scanTokens (printing source)) n =
      ⟨[.print keyword (e.shifted ⟨1, id⟩)], [], (Expr.parse (scanTokens source) n).nextSite⟩ := by
  obtain ⟨-, ts, stop, line, htokens, hopen, hprinting⟩ := scan_printing hscan
  rw [htokens] at htree herrors ⊢
  rw [hprinting]
  exact ⟨_, parse_print rfl rfl hopen rfl rfl htree herrors⟩

end Parsing

/-! ## Running -/

namespace Eval

variable {fuel : Nat} {m m' : Machine}

/-- Whatever a task writes stands behind what was written before, in the same sink. -/
theorem Task.run_extends {t : Task} {result : t.Result} (h : t.run fuel m = .ok result m') :
    m.output.Extends m'.output := by
  let r : Run := ⟨m, ⟨⟨fun _ => none, fun _ => [], []⟩, []⟩⟩
  have hcapping : Capping 0 (t.trace fuel .top) := Task.trace_capping fuel t .top
  have hgoes := hcapping.goes r
  have herases := Task.trace_erases fuel t .top r
  generalize t.trace fuel .top r = ended at hgoes herases
  cases ended with
  | ok result' r' =>
    cases h.symm.trans herases
    exact hgoes.output
  | error e r' => cases h.symm.trans herases

/-- With a sink that never fails, printing the value of an expression is evaluating it and writing
the value. -/
theorem ended_print (fuel : Nat) (keyword : Token) (e : Expr) (hwriter : m.output.limit = none)
    (n : Site) :
    Session.ended n (interpret (fuel + 1) [.print keyword e] m) =
      Session.ended n (interpretExpression fuel e m) := by
  have hinterpret : interpret (fuel + 1) [.print keyword e] m =
      (evaluate fuel e >>= fun value => print keyword value >>= fun _ => pure ()) m := by
    show (execute (fuel + 1) _ >>= fun _ => pure ()) m = _
    unfold execute
    simp only [bind_assoc, pure_bind]
  rw [hinterpret]
  show Session.ended n (EStateM.bind (evaluate fuel e) _ m) =
    Session.ended n (EStateM.bind (evaluate fuel e) _ m)
  unfold EStateM.bind
  cases hvalue : evaluate fuel e m with
  | error e m' => cases e <;> rfl
  | ok value m' =>
    have hlimit : m'.output.limit = none :=
      (Task.run_extends (t := .expression e) hvalue).limit.trans hwriter
    have hprint := print_eq keyword value m'
    rw [if_pos (Output.writeLine_fits hlimit value.text)] at hprint
    show Session.ended n (EStateM.bind (print keyword value) _ m') = _
    unfold EStateM.bind
    rw [hprint]
    rfl

end Eval

namespace Session

variable {s : Session} {source : String} {e : Expr}

/-- A text that is parsed as an expression is resolved and evaluated as the expression is. -/
theorem evaluate_eq (fuel : Nat) (hscan : scanErrors source = [])
    (htree : (Expr.parse (scanTokens source) s.nextSite).tree = some e)
    (herrors : (Expr.parse (scanTokens source) s.nextSite).errors = []) :
    s.evaluate fuel source =
      runResolved (.ofExpr e) (Eval.interpretExpression fuel e)
        { s with nextSite := (Expr.parse (scanTokens source) s.nextSite).nextSite } := by
  unfold evaluate scanned evaluateTokens
  rw [hscan]
  dsimp only
  rw [htree, herrors]

/-- The statement is resolved as the expression is on a later line, and run by itself. -/
theorem run_printing_eq (fuel : Nat) (hscan : scanErrors source = [])
    (htree : (Expr.parse (scanTokens source) s.nextSite).tree = some e)
    (herrors : (Expr.parse (scanTokens source) s.nextSite).errors = []) :
    ∃ keyword, s.run fuel (printing source) =
      runResolved (.ofExpr (e.shifted ⟨1, id⟩))
        (Eval.interpret fuel [.print keyword (e.shifted ⟨1, id⟩)])
        { s with nextSite := (Expr.parse (scanTokens source) s.nextSite).nextSite } := by
  obtain ⟨keyword, hparse⟩ := parse_printing hscan htree herrors
  refine ⟨keyword, ?_⟩
  rw [run_eq (scan_printing hscan).1]
  unfold runTokens
  rw [hparse]
  rfl

/-- What resolving rejects is not run. -/
theorem runResolved_rejected {α : Type} {resolution : Resolution} {x : Exec α}
    (herrors : resolution.errors ≠ []) :
    s.runResolved resolution x = some (resolution.errors.map .scope, s) := by
  unfold runResolved
  split
  next h => exact absurd h herrors
  next => rfl

/-- In a whole session, an expression that resolving accepts is evaluated as the statement that
prints it is run. -/
theorem Whole.evaluate_printing (hs : s.Whole) (hwriter : s.machine.output.limit = none)
    (fuel : Nat) (keyword : Token) (herrors : (Resolution.ofExpr e).errors = []) :
    SameEnd 1 (s.runResolved (.ofExpr e) (Eval.interpretExpression fuel e))
      (s.runResolved (.ofExpr (e.shifted ⟨1, id⟩))
        (Eval.interpret (fuel + 1) [.print keyword (e.shifted ⟨1, id⟩)])) := by
  obtain ⟨l, htwin, hcurrent⟩ := hs
  have hshifted := Resolution.ofExpr_shifted 1 e
  have herrors' : (Resolution.ofExpr (e.shifted ⟨1, id⟩)).errors = [] := by
    rw [hshifted, herrors]
    rfl
  let v : Variation := .moved 1 (s.machine.learn (Resolution.ofExpr e).table).table
  have hwithin : s.plain.Within v := ⟨rfl, rfl, .inl rfl, fun _ _ hi => ⟨hi.1, trivial⟩⟩
  have hstart : (s.machine.learn (Resolution.ofExpr e).table).Twin v l
      (s.machine.learn (Resolution.ofExpr e).table) := by
    refine htwin.learn hwithin (fun _ _ _ => rfl) ?_
    rintro i i' ⟨rfl, -⟩
    rfl
  have halike := Expr.alike_later (v := v) (Variation.lined_moves ..) [] e fun _ _ =>
    ⟨rfl, trivial⟩
  have hend := interpretExpression_twin fuel halike l (List.prefix_refl _) _ _ hstart hcurrent
  have hprint := Eval.ended_print (m := s.machine.learn (Resolution.ofExpr e).table) fuel keyword
    (e.shifted ⟨1, id⟩) hwriter s.nextSite
  rw [runResolved_eq herrors, runResolved_eq herrors', hshifted, hprint]
  exact ⟨_, l, _, ended_twin hend s.nextSite⟩

/-- Evaluating an expression and printing it are the same. In any session that writes to a sink
that never fails, a text that scanning and parsing accept as an expression is either rejected by
resolving both alone and as the statement that prints it, with the same errors, or it is run in both
ways: then both write and read the same, bind the same globals to the same values, and end in the
same success or runtime error. Only lines differ, since the statement puts the expression behind its
keyword, on a line of its own; and running the statement takes one call more. -/
theorem evaluate_as_print {ρ : Type} [Reporter ρ] (input : Input) (output : Output) (host : Host)
    {history : Nat} {steps : List Step} {r r' : ρ} {s : Session} {source : String} {e : Expr}
    (hreached : Step.takeAll history steps (start input output host) r = some (s, r'))
    (hwriter : s.machine.output.limit = none) (hscan : scanErrors source = [])
    (htree : (Expr.parse (scanTokens source) s.nextSite).tree = some e)
    (herrors : (Expr.parse (scanTokens source) s.nextSite).errors = []) (fuel : Nat) :
    let errors := (Resolution.ofExpr e).errors
    let evaluated := s.evaluate fuel source
    let printed := s.run (fuel + 1) (printing source)
    (errors = [] → SameEnd 1 evaluated printed) ∧
      (errors ≠ [] → ∃ after, evaluated = some (errors.map .scope, after) ∧
        printed = some ((errors.map (ScopeError.later 1)).map .scope, after)) := by
  intro errors evaluated printed
  have hs := Whole.takeAll (start_whole input output host) hreached
  obtain ⟨keyword, hprinted⟩ := run_printing_eq (fuel + 1) hscan htree herrors
  have hle := (Expr.parse_drawn (scanTokens source) s.nextSite).1
  rw [show evaluated = _ from evaluate_eq fuel hscan htree herrors,
    show printed = _ from hprinted]
  refine ⟨(hs.later hle).evaluate_printing hwriter fuel keyword, fun hne =>
    ⟨_, runResolved_rejected hne, (runResolved_rejected ?_).trans ?_⟩⟩
  · rw [Resolution.ofExpr_shifted]
    exact fun hnone => hne (List.map_eq_nil_iff.mp hnone)
  · rw [Resolution.ofExpr_shifted]

/-- A function literal with a body of several lines is called by a function that prints; and another
one, which resolving rejects. -/
theorem evaluate_as_print_function_literal :
    let steps := [Step.run "val k = 1; fun f(g) \x7b print k; return g(2); \x7d"]
    let accepted := "f(fun (n) \x7b\n  return n + k;\n\x7d)"
    let rejected := "fun () \x7b\n  return this;\n\x7d"
    ∃ s j, Step.takeAll 20 steps (start ⟨[]⟩ {} ⟨fun _ => 0, fun _ => 0, 0, 0⟩)
        Journal.empty = some (s, j) ∧
      s.machine.output.limit = none ∧
      SameEnd 1 (s.evaluate 20 accepted) (s.run 21 (printing accepted)) ∧
      ∃ errors after, errors ≠ [] ∧ s.evaluate 20 rejected = some (errors.map .scope, after) ∧
        s.run 21 (printing rejected) =
          some ((errors.map (ScopeError.later 1)).map .scope, after) := by
  intro steps accepted rejected
  let reached := Step.takeAll 20 steps (start ⟨[]⟩ {} ⟨fun _ => 0, fun _ => 0, 0, 0⟩) Journal.empty
  let parsed (s : Session) (source : String) := Expr.parse (scanTokens source) s.nextSite
  have hruns : reached.any (fun (s, _) => s.machine.output.limit.isNone &&
      (parsed s accepted).errors.isEmpty && (parsed s rejected).errors.isEmpty &&
      ((parsed s accepted).tree.any fun e => (Resolution.ofExpr e).errors.isEmpty) &&
      (parsed s rejected).tree.any fun e => !(Resolution.ofExpr e).errors.isEmpty) = true := by
    decide +kernel
  obtain ⟨⟨s, j⟩, hreached, hs⟩ := (Option.any_eq_true _ _).mp hruns
  simp only [Bool.and_eq_true, List.isEmpty_iff, Option.isNone_iff_eq_none,
    Option.any_eq_true, Bool.not_eq_true'] at hs
  obtain ⟨⟨⟨⟨hwriter, hclean⟩, hclean'⟩, e, htree, haccepted⟩, e', htree', hrejected⟩ := hs
  have hprinted := evaluate_as_print ⟨[]⟩ {} ⟨fun _ => 0, fun _ => 0, 0, 0⟩ hreached hwriter
    (by decide +kernel) htree hclean 20
  have hprinted' := evaluate_as_print ⟨[]⟩ {} ⟨fun _ => 0, fun _ => 0, 0, 0⟩ hreached hwriter
    (by decide +kernel) htree' hclean' 20
  have hne : (Resolution.ofExpr e').errors ≠ [] := List.isEmpty_eq_false_iff.mp hrejected
  obtain ⟨after, hevaluated, hrun⟩ := hprinted'.2 hne
  exact ⟨s, j, hreached, hwriter, hprinted.1 haccepted, _, after, hne, hevaluated, hrun⟩

end Session

end Lox
