import Lox.Proofs.Grammar.Completeness
import Lox.Proofs.Grammar.Roundtrip
import Lox.Proofs.Token.Respelled
import Lox.Proofs.Twin.Renaming
import Lox.Proofs.Twin.Resited
import Lox.Proofs.Twin.Splitting

/-!
# Local names do not matter

A program may be written with another name for the variables of a local scope, wherever its
declarations and the references bound to them stand, if the name does not occur in it otherwise. It
is accepted again, every reference has the distance that it had, and the program runs as before: it
reads and writes the same and ends the same way (`Session.renaming_stable`).
-/

namespace Lox

open Grammar

/-! ## Texts of programs -/

/-- The program that a text is, with its references numbered from zero. -/
def programOf (source : String) : List Stmt :=
  (Program.parse (scanTokens source) 0).tree

/-- The distances of the references of a text. -/
def distancesOf (source : String) : Table :=
  (Resolution.ofProgram (programOf source)).table

/-- The text is one of the program: no error is met in it before resolving, and it is parsed as the
program up to sites. -/
structure IsTextOf (source : String) (program : List Stmt) : Prop where
  scanned : scanErrors source = []
  parsed : (Program.parse (scanTokens source) 0).errors = []
  tree : Stmt.unsitedAll (programOf source) = Stmt.unsitedAll program

/-- A text whose tokens are those that are written for a program is one of the program. -/
theorem IsTextOf.of_tokens {source : String} {program : List Stmt} (w : Spelling)
    (hscan : scanErrors source = []) (hcanonical : Stmt.canonicalAll program = true)
    (htokens : beforeEnd (scanTokens source) = Stmt.tokensAll w program) :
    IsTextOf source program := by
  have hderives := Stmt.derives_tokensAll w program hcanonical
  rw [← htokens] at hderives
  obtain ⟨hparsed, htree⟩ := parse_complete hderives 0
  exact ⟨hscan, hparsed, htree⟩

/-- No error keeps the text from being run. -/
structure Runnable (source : String) : Prop where
  scanned : scanErrors source = []
  parsed : (Program.parse (scanTokens source) 0).errors = []
  resolved : (Resolution.ofProgram (programOf source)).errors = []

/-- Both texts have as many references, and in their order these have the same distances. -/
def SameDistances (source source' : String) : Prop :=
  List.Forall₂ (fun i i' => (distancesOf source')[i']? = (distancesOf source)[i]?)
    (sitesOf (Stmt.referencesAll (programOf source)))
    (sitesOf (Stmt.referencesAll (programOf source')))

/-! ## Runs that end alike -/

namespace Session

/-- A new session runs a text by its tree. -/
theorem start_run_eq {source : String} (h : Runnable source) (input : Input) (output : Output)
    (host : Host) (fuel : Nat) : (start input output host).run fuel source =
      ended (Program.parse (scanTokens source) 0).nextSite
        (Eval.interpret fuel (programOf source)
          ((start input output host).machine.learn (distancesOf source))) :=
  (run_eq h.scanned _).trans (runTokens_eq h.parsed h.resolved)

/-- The sessions read and wrote the same, and asked the host as often for the same. -/
structure SameWorld (s s' : Session) : Prop where
  input : s'.machine.input = s.machine.input
  output : s'.machine.output = s.machine.output
  host : s'.machine.host = s.machine.host

/-- Both texts are run to their end, both stop with the same runtime error at the same token, which
may be a renamed one, or both run out of fuel. -/
inductive EndsAlike (r : Renaming) : Outcome → Outcome → Prop where
  | done {s s' : Session} (hworld : s.SameWorld s') : EndsAlike r (some ([], s)) (some ([], s'))
  | failed {e e' : RuntimeError} {s s' : Session} (hworld : s.SameWorld s')
      (hcause : e'.cause = e.cause) (htoken : r.Turns e.token e'.token) :
      EndsAlike r (some ([.runtime e], s)) (some ([.runtime e'], s'))
  | outOfFuel : EndsAlike r none none

variable {v : Variation} {r : Renaming}

theorem turns_of_twin (hchange : v.change = some (r.old, r.new)) (hlines : v.lines = 0)
    {e e' : RuntimeError} (h : e.Twin v e') : r.Turns e.token e'.token := by
  obtain ⟨marked, hkeeps⟩ := h.token
  have htoken : e'.token = e.token.renamed (v.name marked e.token.lexeme) := by
    rcases hkeeps with heq | heq
    · exact heq
    · rw [hlines] at heq
      exact heq
  rw [htoken]
  unfold Variation.name
  rw [hchange]
  dsimp only
  split
  next h => exact .inr ⟨of_decide_eq_true (Bool.and_eq_true_iff.mp h).2, rfl⟩
  next => exact .inl rfl

theorem ended_alike (hchange : v.change = some (r.old, r.new)) (hlines : v.lines = 0) {l : Layout}
    {frame : FrameId} {α : Type} {R : Layout → α → α → Prop}
    {result result' : EStateM.Result Halt Machine α} (h : EndTwin v l frame R result result')
    (n n' : Site) : EndsAlike r (ended n result) (ended n' result') := by
  have hworld {l : Layout} {m m' : Machine} (hm : m.Twin v l m') :
      SameWorld ⟨m, n⟩ ⟨m', n'⟩ := ⟨hm.input, hm.output, hm.host⟩
  rcases h.cases with ⟨a, m, a', m', rfl, rfl, l', -, hm, -⟩ |
    ⟨e, m, e', m', rfl, rfl, l', -, hm, -, he⟩ | ⟨m, m', rfl, rfl⟩
  · exact .done (hworld hm)
  · exact .failed (hworld hm) he.cause (turns_of_twin hchange hlines he)
  · exact .outOfFuel

end Session

/-! ## The program with another name -/

theorem Scan.Lexeme.not_reserved {name : String} (h : Scan.Lexeme .identifier name.toList) :
    ∀ word ∈ ["this", "super"], word ≠ name := by
  have hreserved : ∀ k : Keyword, k.spelling ≠ name := by
    intro k hk
    generalize htext : name.toList = text at h
    cases h with
    | identifier _ _ hreserved => exact hreserved k (hk ▸ htext)
  intro word hword
  rcases List.mem_cons.mp hword with rfl | hword
  · exact hreserved .thisKw
  · rw [List.mem_singleton.mp hword]
    exact hreserved .superKw

/-- What the renaming changes. -/
def Renaming.variation (r : Renaming) (hold : Scan.Lexeme .identifier r.old.toList)
    (hnew : Scan.Lexeme .identifier r.new.toList) : Variation where
  change := some (r.old, r.new)
  lines := 0
  table := r.table
  known i i' := i = i'
  paired := by
    rintro i _ j _ rfl rfl
    exact Iff.rfl
  spared := by
    intro names hnames word hword
    cases hnames
    exact ⟨hold.not_reserved word hword, hnew.not_reserved word hword⟩

section Renamed

variable {source : String} {r : Renaming} (hvalid : Runnable source)
  (hold : Scan.Lexeme .identifier r.old.toList) (hnew : Scan.Lexeme .identifier r.new.toList)

include hvalid hold hnew

/-- The new name can be written into the text. -/
theorem exists_renamed : ∃ source', Respelled r source source' ∧
    IsTextOf source' (Stmt.renamedAll r 0 [] (programOf source)) := by
  obtain ⟨ts, htokens, hopen⟩ := scanTokens_end hvalid.scanned
  have hbefore : beforeEnd (scanTokens source) = ts := by
    rw [htokens]
    exact beforeEnd_stop hopen rfl
  have hderives := program_derives hvalid.parsed
  rw [hbefore] at hderives
  obtain ⟨ts', hturns, hrenamed⟩ := hderives.renamed (r := r) 0 []
  have hall : List.Forall₂ r.Turns (scanTokens source)
      (ts' ++ [.endOf (1 + Scan.newlines source.toList)]) := by
    rw [htokens]
    exact List.rel_append hturns (r.turns_refl _)
  obtain ⟨source', hrespelled, htokens', herrors⟩ := scan_respelled hold hnew hall
  rw [← beforeEnd_stop hrenamed.inner (rfl : (Token.endOf _).isEnd = true), ← htokens'] at hrenamed
  obtain ⟨hparsed, htree⟩ := parse_complete hrenamed 0
  exact ⟨source', hrespelled, herrors.trans hvalid.scanned, hparsed, htree⟩

variable (hfresh : ∀ t ∈ scanTokens source, t.lexeme ≠ r.new)

include hfresh

/-- Every text of the renamed program is the text in another writing, up to sites. -/
theorem alike_text {source' : String}
    (htext : IsTextOf source' (Stmt.renamedAll r 0 [] (programOf source))) :
    ∃ f hf, Alike ((r.variation hold hnew).resited f hf) [] (.statements (programOf source))
      (.statements (programOf source')) := by
  have hderives := program_derives hvalid.parsed
  have hsub : ∀ t ∈ beforeEnd (scanTokens source), t ∈ scanTokens source := fun t ht =>
    (List.takeWhile_prefix _).mem ht
  have hv : (r.variation hold hnew).Renames r := ⟨rfl, rfl, fun _ => rfl⟩
  have halike := hderives.alike_renamed hv
    (fun t ht => ⟨scanTokens_spelled (hsub t ht), hfresh t (hsub t ht)⟩) 0 []
    (fun hmark => by cases hmark)
  have hsites : sitesOf (Stmt.referencesAll (programOf source)) =
      sitesOf (Stmt.referencesAll (Stmt.renamedAll r 0 [] (programOf source))) :=
    List.forall₂_eq_eq_eq ▸ halike.sites
  exact halike.of_unsited (hsites ▸ (Program.parse_drawn _ _).nodup)
    (Program.parse_drawn _ _).nodup htext.tree

end Renamed

section Runs

variable {v : Variation} {r : Renaming} {source source' : String}

/-- Resolving finds the same for a text in another writing. -/
theorem resolves_alike (hvalid : Runnable source) (htable : v.table = distancesOf source)
    (halike : Alike v [] (.statements (programOf source)) (.statements (programOf source'))) :
    (Resolution.ofProgram (programOf source')).errors = [] ∧
      ∀ i i', v.known i i' → (distancesOf source')[i']? = (distancesOf source)[i]? := by
  refine halike.resolution ?_
  rw [htable]
  exact .of_parse (fun t ht => scanTokens_spelled ht) hvalid.parsed hvalid.resolved

/-- Two accepted texts with trees alike run alike in a new session. -/
theorem runs_alike (hvalid : Runnable source) (hvalid' : Runnable source')
    (htable : v.table = distancesOf source) (hchange : v.change = some (r.old, r.new))
    (hlines : v.lines = 0)
    (halike : Alike v [] (.statements (programOf source)) (.statements (programOf source')))
    (input : Input) (output : Output) (host : Host) (fuel : Nat) :
    Session.EndsAlike r ((Session.start input output host).run fuel source)
      ((Session.start input output host).run fuel source') := by
  let s := Session.start input output host
  have hdistances := (resolves_alike hvalid htable halike).2
  have hstart : Machine.Twin v [[]] (s.machine.learn (distancesOf source))
      (s.machine.learn (distancesOf source')) :=
    Machine.start_twin input output host (fun i i' _ => by rw [htable])
      (fun i i' hi => by rw [htable, hdistances i i' hi])
  have hend := interpret_twin fuel halike [[]] (List.prefix_refl _) _ _ hstart rfl
  rw [Session.start_run_eq hvalid, Session.start_run_eq hvalid']
  exact Session.ended_alike hchange hlines hend _ _

end Runs

/-- Local names do not matter. In a program without errors before running, let some local scopes be
chosen by their numbers. The blocks and the bodies of functions and methods are numbered in reading
order, but in a class the methods come first, then the class methods, the getters and the setters.
Let a new name be given to what the chosen scopes introduce under an old name by `var`, by `val` or
as a parameter: in all those declarations and in the references bound to them, and nowhere else. If
the new name does not occur in the program, it can be written into the text in their places, and
every text of the renamed program is accepted again. Each of its references has the distance of the
one that it was, and in a new session it writes and reads the same and ends the same way: in
success, or in a runtime error at the same token, which is the new name at most where it was the old
one. -/
theorem Session.renaming_stable {source old new : String} (chosen : Nat → Bool)
    (hvalid : Runnable source) (hold : Scan.Lexeme .identifier old.toList)
    (hnew : Scan.Lexeme .identifier new.toList)
    (hfresh : ∀ t ∈ scanTokens source, t.lexeme ≠ new) :
    let r : Renaming := ⟨old, new, distancesOf source, chosen⟩
    let renamed := Stmt.renamedAll r 0 [] (programOf source)
    (∃ source', Respelled r source source' ∧ IsTextOf source' renamed) ∧
      ∀ source', IsTextOf source' renamed → Runnable source' ∧ SameDistances source source' ∧
        ∀ (input : Input) (output : Output) (host : Host) (fuel : Nat),
          EndsAlike r ((start input output host).run fuel source)
            ((start input output host).run fuel source') := by
  intro r renamed
  refine ⟨exists_renamed hvalid hold hnew, fun source' htext => ?_⟩
  obtain ⟨f, hf, halike⟩ := alike_text hvalid hold hnew hfresh htext
  obtain ⟨herrors, hdistances⟩ := resolves_alike hvalid rfl halike
  have hvalid' : Runnable source' := ⟨htext.scanned, htext.parsed, herrors⟩
  exact ⟨hvalid', halike.sites.imp hdistances, runs_alike hvalid hvalid' rfl rfl rfl halike⟩

/-- A constant that a parameter and a later variable of the same name hide, and that a runtime error
names. -/
theorem Session.renaming_stable_hidden :
    let source :=
      "\x7b val a = nil; fun f(a) \x7b return a; \x7d \x7b print a; var a = f; \x7d a = true; \x7d"
    let source' :=
      "\x7b val b = nil; fun f(a) \x7b return a; \x7d \x7b print b; var a = f; \x7d b = true; \x7d"
    let r : Renaming := ⟨"a", "b", distancesOf source, (· == 0)⟩
    let s := start ⟨[]⟩ {} ⟨fun _ => 0, fun _ => 0, 0, 0⟩
    Runnable source ∧ (∀ t ∈ scanTokens source, t.lexeme ≠ "b") ∧
      IsTextOf source' (Stmt.renamedAll r 0 [] (programOf source)) ∧
      Runnable source' ∧ SameDistances source source' ∧ (s.run 10 source).isSome = true ∧
        EndsAlike r (s.run 10 source) (s.run 10 source') := by
  intro source source' r s
  have hvalid : Runnable source := ⟨by decide +kernel, by decide +kernel, by decide +kernel⟩
  have hfresh : ∀ t ∈ scanTokens source, t.lexeme ≠ "b" := by decide +kernel
  have htext : IsTextOf source' (Stmt.renamedAll r 0 [] (programOf source)) :=
    .of_tokens (.plain 1) (by decide +kernel) (by decide +kernel) (by decide +kernel)
  have hold : Scan.Lexeme .identifier "a".toList :=
    .identifier (by decide) (fun _ h => by cases h) fun k => by cases k <;> decide
  have hnew : Scan.Lexeme .identifier "b".toList :=
    .identifier (by decide) (fun _ h => by cases h) fun k => by cases k <;> decide
  obtain ⟨hvalid', hdistances, hends⟩ :=
    (renaming_stable (· == 0) hvalid hold hnew hfresh).2 source' htext
  exact ⟨hvalid, hfresh, htext, hvalid', hdistances, by decide +kernel, hends _ _ _ _⟩

end Lox
