import Lox.Proofs.Lowered.Evaluation
import Lox.Proofs.Lowered.Phrases
import Lox.Proofs.Session.Renaming
import Lox.Proofs.Token.Layout

/-!
# A `for` is its `while`

Any `for` of a program to which no `continue` belongs can be written as a `while` in a block, with
the increment behind the body in a block of its own. The program is accepted again and runs as
before (`Session.for_is_while`). That the block is one more scope around the body is no matter:
nothing is bound in it, and resolving counts it.
-/

namespace Lox

open Grammar Scan

/-! ## Texts with given tokens -/

/-- Up to lines, these are the tokens of the text, which is scanned without errors. -/
structure HasTokens (source : String) (ts : List Token) : Prop where
  scanned : scanErrors source = []
  tokens : List.Forall₂ Token.Same ts (beforeEnd (scanTokens source))

theorem Token.same_of_face {ts us : List Token} (h : us.map Token.face = ts.map Token.face) :
    List.Forall₂ Token.Same ts us := by
  induction ts generalizing us with
  | nil =>
    rw [List.map_eq_nil_iff.mp h]
    exact .nil
  | cons t ts ih =>
    obtain ⟨u, us, rfl, hface, hus⟩ := List.map_eq_cons_iff.mp h
    have hparts := Prod.ext_iff.mp hface
    exact .cons (.of_eq hparts.1 hparts.2) (ih hus)

/-- Any lexemes can be laid out in a text. -/
theorem exists_laid : ∀ ts : List Token, ∃ text, Laid ts text
  | [] => ⟨[], .nil⟩
  | [t] => ⟨_, .last t⟩
  | t :: u :: ts => by
    obtain ⟨text, htext⟩ := exists_laid (u :: ts)
    exact ⟨_, .next (.mk (c := ' ') (by decide) .nil) htext⟩

theorem exists_hasTokens {ts : List Token} (h : ∀ t ∈ ts, Lexeme t.kind t.lexeme.toList) :
    ∃ source, HasTokens source ts := by
  obtain ⟨text, hlaid⟩ := exists_laid ts
  have hitems := hlaid.items h 1
  rw [← String.toList_ofList (l := text)] at hitems
  obtain ⟨herrors, us, line, htokens, hfaces⟩ := hitems
  have hscan : scanTokens (String.ofList text) = us ++ [.endOf line] := htokens
  obtain ⟨us', hend, hopen⟩ := scanTokens_end herrors
  obtain ⟨rfl, -⟩ := List.append_inj' (hscan.symm.trans hend) rfl
  refine ⟨String.ofList text, herrors, ?_⟩
  rw [hscan, beforeEnd_stop hopen rfl]
  exact Token.same_of_face hfaces

namespace Grammar.ForLoop

variable {loop : ForLoop} {t : Token}

/-- What is not in the loop is a mark or a keyword. -/
theorem mem_asWhile (h : t ∈ loop.asWhile) : t ∈ loop.tokens ∨
    (∃ m, t = loop.spelling.mark m) ∨ ∃ k, t = loop.spelling.keyword k := by
  have hcondition : t ∈ loop.whileCondition →
      t ∈ loop.condition ∨ t = loop.spelling.keyword .trueKw := by
    unfold whileCondition
    split <;> simp_all
  have hincrement : t ∈ loop.whileIncrement →
      t ∈ loop.increment ∨ t = loop.spelling.mark .semicolon := by
    unfold whileIncrement
    split <;> simp_all
  have hloop : t ∈ loop.whileLoop → t ∈ loop.tokens ∨
      (∃ m, t = loop.spelling.mark m) ∨ ∃ k, t = loop.spelling.keyword k := by
    unfold whileLoop tokens
    simp only [List.mem_cons, List.mem_append]
    grind
  unfold asWhile at h
  split at h
  next => exact hloop h
  next =>
    simp only [List.mem_cons, List.mem_append] at h
    have hstart : t ∈ loop.start → t ∈ loop.tokens := by
      unfold tokens
      simp only [List.mem_cons, List.mem_append]
      grind
    grind

/-- The tokens of the `while` can be written in a text. -/
theorem lexeme_asWhile (h : ∀ t ∈ loop.tokens, Lexeme t.kind t.lexeme.toList)
    (ht : t ∈ loop.asWhile) : Lexeme t.kind t.lexeme.toList := by
  rcases mem_asWhile ht with ht | ⟨m, rfl⟩ | ⟨k, rfl⟩
  · exact h t ht
  · exact .mark m
  · exact .keyword k

end Grammar.ForLoop

/-! ## The text with the loop written out -/

section Text

variable {source source' : String} {before after : List Token} {loop : ForLoop} {body : Stmt}

/-- There is a text with the loop written out. -/
theorem exists_asWhile (hscan : scanErrors source = [])
    (htokens : beforeEnd (scanTokens source) = before ++ (loop.tokens ++ after)) :
    ∃ source', HasTokens source' (before ++ (loop.asWhile ++ after)) := by
  obtain ⟨ts, line, hend, hfilter, hlexemes⟩ := scanTokens_lexemes source
  have hts : ts = before ++ (loop.tokens ++ after) := by
    obtain ⟨us, hus, hopen⟩ := scanTokens_end hscan
    obtain ⟨rfl, -⟩ := List.append_inj' (hend.symm.trans hus) rfl
    rw [← htokens, hend, beforeEnd_stop hopen rfl]
  rw [hts] at hlexemes
  simp only [List.mem_append] at hlexemes
  refine exists_hasTokens fun t ht => ?_
  rcases List.mem_append.mp ht with ht | ht
  · exact hlexemes t (.inl ht)
  · rcases List.mem_append.mp ht with ht | ht
    · exact ForLoop.lexeme_asWhile (fun t ht => hlexemes t (.inr (.inl ht))) ht
    · exact hlexemes t (.inr (.inr ht))

/-- Every such text is parsed as the program with the loop written out. -/
theorem lowers_text (hvalid : Runnable source)
    (htokens : beforeEnd (scanTokens source) = before ++ (loop.tokens ++ after))
    (hloop : loop.Stands body after) (hcontinues : body.continues = false)
    (hsource' : HasTokens source' (before ++ (loop.asWhile ++ after))) :
    (Program.parse (scanTokens source') 0).errors = [] ∧
      Lowers .any [] (.statements (programOf source)) (.statements (programOf source')) := by
  have hwritten : Written (beforeEnd (scanTokens source)) (beforeEnd (scanTokens source')) := by
    obtain ⟨bs, _, hrow, hbefore, hmore⟩ := List.forall₂_append_left hsource'.tokens
    obtain ⟨ws, as, rfl, hws, hafter⟩ := List.forall₂_append_left hmore
    rw [htokens, hrow]
    exact .append_same hbefore (.loop hloop hcontinues hws (.of_same hafter))
  obtain ⟨ss, hss, hlowers⟩ := (program_derives hvalid.parsed).written hwritten
  obtain ⟨hparsed, htree⟩ := parse_complete hss 0
  refine ⟨hparsed, ?_⟩
  -- the text numbers its references in another order
  have hsites : sitesOf (Stmt.referencesAll ss) =
    sitesOf (Stmt.referencesAll (programOf source)) := hlowers.sites
  obtain ⟨hlength, hmoved⟩ := Stmt.resited htree
  obtain ⟨f, -, hmap⟩ := exists_moved (hsites ▸ (Program.parse_drawn (scanTokens source) 0).nodup)
    (Program.parse_drawn (scanTokens source') 0).nodup (by simpa [sitesOf] using hlength)
  have hmovedTree : programOf source' = Stmt.shiftedAll ⟨0, f⟩ ss := hmoved f hmap
  rw [hmovedTree]
  exact hlowers.moved f

/-- The text with its loop written out is accepted by resolving, and each reference in it finds what
it found before. -/
theorem resolves_text (hvalid : Runnable source)
    (hlowers : Lowers .any [] (.statements (programOf source)) (.statements (programOf source'))) :
    (Resolution.ofProgram (programOf source')).errors = [] ∧
      Lowers (.found (distancesOf source) (distancesOf source')) []
        (.statements (programOf source)) (.statements (programOf source')) := by
  have htidy : Stmt.TidyAll (programOf source) := (program_derives hvalid.parsed).tidy fun t ht =>
    scanTokens_spelled ((List.takeWhile_prefix _).mem ht)
  exact hlowers.resolution htidy (Program.parse_drawn _ _).nodup (Program.parse_drawn _ _).nodup
    hvalid.resolved

end Text

/-! ## New sessions -/

theorem Links.found_congr {T T' U U' : Table} (h : ∀ i : Site, U[i]? = T[i]?)
    (h' : ∀ i : Site, U'[i]? = T'[i]?) : Links.found U U' = Links.found T T' := by
  unfold Links.found
  simp only [h, h']

/-- A store with nothing but native functions in one frame holds the same as itself. -/
theorem Store.Bare.lowered {s : Store} (h : s.Bare) (k : Links) : s.Lowered k [(0, [])] s := by
  have honly {frame first : FrameId} {shape : Shape}
      (hframe : ([(0, [])] : FrameMap)[frame]? = some (first, shape)) :
      frame = 0 ∧ first = 0 ∧ shape = [] := by
    cases frame with
    | zero =>
      cases hframe
      exact ⟨rfl, rfl, rfl⟩
    | succ frame => cases hframe
  refine ⟨h.size, fun frame first shape hframe => ?_, fun frame first shape hframe => ?_,
    fun frame other first shape shape' hframe hother _ _ => ?_,
    fun frame first shape hframe _ name => ?_, rfl, fun o o' _ name => ?_, rfl⟩
  · obtain ⟨-, rfl, -⟩ := honly hframe
    exact h.size ▸ Nat.one_pos
  · obtain ⟨rfl, rfl, rfl⟩ := honly hframe
    exact .top (h.parent 0) (h.parent 0)
  · rw [(honly hframe).1, (honly hother).1]
  · obtain ⟨rfl, rfl, -⟩ := honly hframe
    cases hbinding : s.binding? 0 name with
    | none => exact .none
    | some b =>
      obtain ⟨n, serial, rfl⟩ := h.binding 0 name b hbinding
      exact .some ⟨.native n serial, rfl⟩
  · rw [h.field, h.field]
    exact .none

/-- A machine on which nothing was run holds the same as itself. -/
theorem Machine.start_lowered (input : Input) (output : Output) (host : Host) (T T' : Table)
    (followed : Followed) :
    let m := Machine.start input output host
    Machine.Lowered ⟨(m.learn T).table, (m.learn T').table, followed⟩ [(0, [])] (m.learn T)
      (m.learn T') :=
  ⟨(Machine.start_bare input output host).lowered _, rfl, rfl, rfl, rfl, rfl, rfl⟩

namespace Session

/-- Both texts are run to their end, or both stop with the same runtime error at the same token, up
to its line. They read and wrote the same, and asked the host as often for the same. -/
inductive EndsSame : Outcome → Outcome → Prop where
  | done {s s' : Session} (hworld : s.SameWorld s') : EndsSame (some ([], s)) (some ([], s'))
  | failed {e e' : RuntimeError} {s s' : Session} (hworld : s.SameWorld s') (he : e.Same e') :
      EndsSame (some ([.runtime e], s)) (some ([.runtime e'], s'))

/-- In a new session the second text is run as the first one is. Where the first one ends, the
second one ends in the same way with three times the fuel or more, and where the second one ends,
the first one does with no less fuel. -/
structure RunsSame (source source' : String) : Prop where
  first (input : Input) (output : Output) (host : Host) (fuel : Nat) :
    (start input output host).run fuel source ≠ none → ∀ fuel', 3 * fuel ≤ fuel' →
      EndsSame ((start input output host).run fuel source)
        ((start input output host).run fuel' source')
  second (input : Input) (output : Output) (host : Host) (fuel' : Nat) :
    (start input output host).run fuel' source' ≠ none → ∀ fuel, fuel' ≤ fuel →
      EndsSame ((start input output host).run fuel source)
        ((start input output host).run fuel' source')

/-- Runs that end alike, unless the one that is followed runs out of fuel, give texts that do. -/
theorem ended_same {r : Runs} {w : FrameMap} {current current' : FrameId} {α : Type}
    {R : FrameMap → α → α → Prop} {result result' : EStateM.Result Halt Machine α}
    (h : EndLowered r w current current' R result result') (n n' : Site)
    (hfirst : r.followed = .first → ended n result ≠ none)
    (hsecond : r.followed = .second → ended n' result' ≠ none) :
    EndsSame (ended n result) (ended n' result') := by
  cases h with
  | ok w' _ hm => exact .done ⟨hm.input, hm.output, hm.host⟩
  | fault w' _ hm _ _ he => exact .failed ⟨hm.input, hm.output, hm.host⟩ he
  | first hr => exact absurd rfl (hfirst hr)
  | second hr => exact absurd rfl (hsecond hr)

section Runs

variable {source source' : String} (hvalid : Runnable source) (hvalid' : Runnable source')
  (hlowers : Lowers (.found (distancesOf source) (distancesOf source')) []
    (.statements (programOf source)) (.statements (programOf source')))

include hvalid hvalid' hlowers

/-- The texts end alike if the one that is followed ends. -/
theorem ends_lowered (input : Input) (output : Output) (host : Host) (followed : Followed)
    {fuel fuel' : Nat}
    (hcovered : ∀ table table', Runs.Covered ⟨table, table', followed⟩ fuel fuel')
    (hfirst : followed = .first → (start input output host).run fuel source ≠ none)
    (hsecond : followed = .second → (start input output host).run fuel' source' ≠ none) :
    EndsSame ((start input output host).run fuel source)
      ((start input output host).run fuel' source') := by
  let m := Machine.start input output host
  let r : Runs := ⟨(m.learn (distancesOf source)).table, (m.learn (distancesOf source')).table,
    followed⟩
  have hlearned (T : Table) (i : Site) : (m.learn T).table[i]? = T[i]? := by
    rw [Machine.learn_table]
    exact (congrArg _ Std.TreeMap.getElem?_emptyc).trans Option.or_none
  have hlinks : r.links = .found (distancesOf source) (distancesOf source') :=
    Links.found_congr (hlearned _) (hlearned _)
  have hstart := Machine.start_lowered input output host (distancesOf source) (distancesOf source')
    followed
  have hend := interpret_lowered (hcovered _ _) (hlinks.symm ▸ hlowers) _ (List.prefix_refl _) _ _
    hstart rfl
  rw [start_run_eq hvalid, start_run_eq hvalid'] at *
  exact ended_same hend _ _ hfirst hsecond

theorem runs_same : RunsSame source source' where
  first input output host _ hends _ hfuel :=
    ends_lowered hvalid hvalid' hlowers input output host .first (fun _ _ => hfuel)
      (fun _ => hends) nofun
  second input output host _ hends _ hfuel :=
    ends_lowered hvalid hvalid' hlowers input output host .second (fun _ _ => hfuel) nofun
      (fun _ => hends)

end Runs

/-- A `for` is its `while`. Let a program have no errors before it is run, let a `for` stand in its
tokens, and let no `continue` in the body belong to it. In the place of the `for`, write a block of
its first clause and a `while` that has its condition and a block of its body and its increment. If
there is no first clause, leave out the block around the `while`; if there is no condition, write
`true`; if there is no increment, leave it out. This can be written as a text, and every such text
is accepted again. In a new session it reads and writes the same as the program and ends the same
way: in success, or in the same runtime error at the same token, up to its line. -/
theorem for_is_while {source : String} {before after : List Token} {loop : ForLoop} {body : Stmt}
    (hvalid : Runnable source)
    (htokens : beforeEnd (scanTokens source) = before ++ (loop.tokens ++ after))
    (hloop : loop.Stands body after) (hcontinues : body.continues = false) :
    let written := before ++ (loop.asWhile ++ after)
    (∃ source', HasTokens source' written) ∧
      ∀ source', HasTokens source' written → Runnable source' ∧ RunsSame source source' := by
  intro written
  refine ⟨exists_asWhile hvalid.scanned htokens, fun source' hsource' => ?_⟩
  obtain ⟨hparsed, hlowers⟩ := lowers_text hvalid htokens hloop hcontinues hsource'
  obtain ⟨hresolved, hfound⟩ := resolves_text hvalid hlowers
  have hvalid' : Runnable source' := ⟨hsource'.scanned, hparsed, hresolved⟩
  exact ⟨hvalid', runs_same hvalid hvalid' hfound⟩

/-- Functions that are made in two rounds share the loop variable, and the loop is left by
`break`. -/
theorem for_is_while_shared_variable :
    let source := "var g; for (var i = nil; ; i = true) \x7b fun f() \x7b return i; \x7d g = f; " ++
      "if (i) break; \x7d print g();"
    let source' := "var g; \x7b var i = nil; while (true) \x7b \x7b fun f() \x7b return i; \x7d " ++
      "g = f; if (i) break; \x7d i = true; \x7d \x7d print g();"
    let s := start ⟨[]⟩ {} ⟨fun _ => 0, fun _ => 0, 0, 0⟩
    Runnable source ∧ Runnable source' ∧ RunsSame source source' ∧
      (s.run 20 source).isSome = true ∧ EndsSame (s.run 20 source) (s.run 60 source') := by
  intro source source' s
  let w : Spelling := .plain 1
  let name (text : String) : Token := ⟨.identifier, text, 1⟩
  -- the body is given as a tree, since writing a tree out is known to derive it
  let body : Stmt := .block [
    .functionDecl ⟨some (name "f"), name "f", [],
      [.returnValue (w.keyword .returnKw) (some (.variable 0 (name "i")))]⟩,
    .expression (.assign 0 (name "g") (.variable 0 (name "f"))),
    .conditional (.variable 0 (name "i")) (.breakLoop (w.keyword .breakKw)) none]
  let loop : ForLoop := {
    keyword := w.keyword .forKw
    opening := w.mark .leftParen
    start := (Stmt.var (name "i") (some (.literal .nil))).tokens w
    condition := []
    separator := w.mark .semicolon
    increment := (Expr.assign 0 (name "i") (.literal .true)).tokens w
    closing := w.mark .rightParen
    body := body.tokens w }
  let before := (Stmt.var (name "g") none).tokens w
  let after := (Stmt.print (w.keyword .printKw)
    (.call (.variable 0 (name "g")) (w.mark .rightParen) [])).tokens w
  have hvalid : Runnable source := ⟨by decide +kernel, by decide +kernel, by decide +kernel⟩
  have htokens : beforeEnd (scanTokens source) = before ++ (loop.tokens ++ after) := by
    decide +kernel
  -- the parts of the loop are phrases, so `for` may be written as `while` in its place
  have hbody : Derives (.statement false body) (body.tokens w) :=
    (Stmt.derives_tokens w body (by decide +kernel)).statement rfl
  have hstart : Derives (.varDecl (.var (name "i") (some (.literal .nil)))) loop.start :=
    .varDeclValue rfl rfl rfl (Expr.derives_tokens w .comma (.literal .nil) rfl) rfl
  have hincrement : Derives (.expression .comma (.assign 0 (name "i") (.literal .true)))
      loop.increment := Expr.derives_tokens w .comma _ rfl
  have hloop : loop.Stands body after := ⟨rfl, rfl, ⟨_, .startVar hstart⟩, ⟨none, .absent⟩, rfl,
    ⟨_, .present hincrement⟩, rfl, false, hbody, nofun⟩
  have hsource' : HasTokens source' (before ++ (loop.asWhile ++ after)) :=
    ⟨by decide +kernel, Token.same_of_face (by decide +kernel)⟩
  obtain ⟨hvalid', hruns⟩ := (for_is_while hvalid htokens hloop rfl).2 source' hsource'
  have hends : (s.run 20 source).isSome = true := by decide +kernel
  exact ⟨hvalid, hvalid', hruns, hends,
    hruns.first _ _ _ 20 (Option.isSome_iff_ne_none.mp hends) 60 (Nat.le_refl _)⟩

end Session

end Lox
