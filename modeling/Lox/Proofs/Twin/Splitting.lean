import Lox.Proofs.Grammar.Append
import Lox.Proofs.Grammar.Completeness
import Lox.Proofs.Token.Joined
import Lox.Proofs.Twin.Sessions

/-!
# A program run in two texts

Running one text and then another is the same as running both as one text, the second on the lines
behind the first, but for the lines that tokens of the second one stand on. Each stage has its share
in it: scanning cuts the texts apart at the line end between them, parsing ends a statement at the
end of the first, resolving comes out of the first one's statements with no scope open, so that the
tables of both unite, and running goes from one statement to the next with nothing but the session.
-/

namespace Lox

open Grammar

/-! ## Parsing -/

/-- The second of two texts stands so many lines behind the first. -/
def linesAfter (first : String) : Nat :=
  Scan.newlines first.toList + 1

section Parsing

variable {first second : String} {n : Site}

/-- A text that is parsed without errors does not begin with `else`. -/
theorem scanTokens_else (hsecond : scanErrors second = [])
    (herrors : (Program.parse (scanTokens second) n).errors = []) :
    (scanTokens second).head?.any (Token.isKeyword .elseKw) = false := by
  obtain ⟨ts, htokens, hopen⟩ := scanTokens_end hsecond
  have hderives := program_derives herrors
  rw [htokens, beforeEnd_stop hopen rfl] at hderives
  rw [htokens]
  exact hderives.declarations_else rfl

/-- Two texts are parsed as one as they are one after the other. -/
theorem parse_both (hfirst : scanErrors first = []) (hsecond : scanErrors second = [])
    (herrors : (Program.parse (scanTokens first) n).errors = [])
    (herrors' : (Program.parse (scanTokens second)
      (Program.parse (scanTokens first) n).nextSite).errors = []) :
    let one := Program.parse (scanTokens first) n
    let two := Program.parse (scanTokens second) one.nextSite
    Program.parse (scanTokens (first ++ "\n" ++ second)) n =
      ⟨one.tree ++ Stmt.shiftedAll ⟨linesAfter first, id⟩ two.tree, [], two.nextSite⟩ := by
  intro one two
  obtain ⟨ts, htokens, hopen, hboth, -⟩ := scan_joined hfirst second
  have hjoined := parse_joined (linesAfter first) n n one.nextSite
    (rfl : (Token.endOf (1 + Scan.newlines first.toList)).isEnd = true)
    (scanTokens_else hsecond herrors') hopen (.inl (by rw [← htokens]; exact herrors))
    (by rw [← htokens, herrors]; exact fun e he => nomatch he) (.inr (exists_end hsecond))
  -- nothing in the first text moves, and what the second draws is numbered on from there
  rw [hboth]
  dsimp only at hjoined
  rw [← htokens] at hjoined
  change _ = (⟨Stmt.shiftedAll _ one.tree ++ Stmt.shiftedAll _ two.tree,
    one.errors ++ two.errors.map _, _⟩ : Parsed (List Stmt)) at hjoined
  rw [show one.errors = [] from herrors, show two.errors = [] from herrors',
    renumber_self] at hjoined
  rw [show Scan.newlines first.toList + 1 = linesAfter first from rfl, hjoined]
  rw [Stmt.shiftedAll_same]
  show (⟨one.tree ++
      Stmt.shiftedAll ⟨linesAfter first, renumber one.nextSite one.nextSite⟩ two.tree,
    [], renumber one.nextSite one.nextSite two.nextSite⟩ : Parsed (List Stmt)) = _
  rw [renumber_self]
  rfl

/-- The tokens of a text on later lines are parsed as those of the text. -/
theorem parse_later (hsecond : scanErrors second = [])
    (herrors : (Program.parse (scanTokens second) n).errors = []) (lines : Nat) :
    Program.parse ((scanTokens second).map (Token.later lines)) n =
      ⟨Stmt.shiftedAll ⟨lines, id⟩ (Program.parse (scanTokens second) n).tree, [],
        (Program.parse (scanTokens second) n).nextSite⟩ := by
  have hnone : Program.parse [Token.endOf 0] n = ⟨[], [], n⟩ := rfl
  -- a text on later lines is a text behind an empty one
  have hjoined := parse_joined lines n n n (rfl : (Token.endOf 0).isEnd = true)
    (scanTokens_else hsecond herrors) (fun t (ht : t ∈ []) => nomatch ht) (.inl rfl)
    (fun e he => nomatch he) (.inr (exists_end hsecond))
  dsimp only [List.nil_append] at hjoined
  rw [hnone, herrors] at hjoined
  dsimp only at hjoined
  rw [renumber_self] at hjoined
  rw [hjoined]
  show (⟨Stmt.shiftedAll ⟨lines, renumber n n⟩ _, [], renumber n n _⟩ : Parsed (List Stmt)) = _
  rw [renumber_self]
  rfl

end Parsing

/-! ## Resolving -/

theorem Stmt.walkAll_append (ss tt : List Stmt) (w : Walk) :
    Stmt.walkAll (ss ++ tt) w = Stmt.walkAll tt (Stmt.walkAll ss w) := by
  induction ss generalizing w with
  | nil => rfl
  | cons s ss ih => exact ih _

/-- Statements on later lines behind others are resolved as they are alone, and the tables unite. -/
theorem Resolution.append (lines : Nat) {ss tt : List Stmt}
    (hss : (Resolution.ofProgram ss).errors = [])
    (htt : Accepted (Resolution.ofProgram tt).table (.statements tt))
    (hsites : ∀ i ∈ sitesOf (Stmt.referencesAll tt), i ∉ sitesOf (Stmt.referencesAll ss)) :
    (Resolution.ofProgram (ss ++ Stmt.shiftedAll ⟨lines, id⟩ tt)).errors = [] ∧
      ∀ i : Site, (Resolution.ofProgram (ss ++ Stmt.shiftedAll ⟨lines, id⟩ tt)).table[i]? =
        ((Resolution.ofProgram tt).table[i]?).or (Resolution.ofProgram ss).table[i]? := by
  let v : Variation := .lined lines (Resolution.ofProgram tt).table
    (· ∈ sitesOf (Stmt.referencesAll tt))
  have halike : Alike v [] (.statements tt) (.statements (Stmt.shiftedAll ⟨lines, id⟩ tt)) :=
    Stmt.alikeAll_later (Variation.lined_moves ..) [] tt fun _ hr =>
      ⟨rfl, List.mem_map_of_mem hr⟩
  -- no scope is open behind the first statements
  have hfirst := Stmt.walkAll_along ss .start
  have hscopes : (Stmt.walkAll ss .start).scopes = [] := List.length_eq_zero_iff.mp hfirst.length
  have hbefore : ∀ i ∈ sitesOf (Stmt.referencesAll tt), (Stmt.walkAll ss .start).table[i]? = none :=
    fun i hi => (hfirst.table i (hsites i hi)).trans Std.TreeMap.getElem?_emptyc
  have hstart : Walk.Twin v [] .start (Stmt.walkAll ss .start) := by
    refine ⟨by rw [hscopes]; exact .nil, ?_, congrArg List.length hss, hfirst.context⟩
    rintro i i' ⟨rfl, hi⟩
    rw [hbefore i' hi]
    exact Std.TreeMap.getElem?_emptyc.symm
  have hend := halike.walks htt .start _ [] .root hstart
  have hsame : sitesOf (Stmt.referencesAll tt) =
      sitesOf (Stmt.referencesAll (Stmt.shiftedAll ⟨lines, id⟩ tt)) :=
    List.forall₂_eq_eq_eq ▸ halike.sites.imp fun _ _ hi => hi.1.symm
  unfold Resolution.ofProgram at *
  rw [Stmt.walkAll_append]
  dsimp only at *
  refine ⟨List.eq_nil_of_length_eq_zero (hend.errors.trans (congrArg List.length htt.errors)),
    fun i => ?_⟩
  by_cases hi : i ∈ sitesOf (Stmt.referencesAll tt)
  · rw [hend.table i i ⟨rfl, hi⟩, hbefore i hi, Option.or_none]
  · have hthrough := (Stmt.walkAll_along (Stmt.shiftedAll ⟨lines, id⟩ tt)
      (Stmt.walkAll ss .start)).table i
    rw [show (Stmt.referencesAll (Stmt.shiftedAll ⟨lines, id⟩ tt)).map Reference.site = _ from
      hsame.symm] at hthrough
    rw [hthrough hi, show (Stmt.walkAll tt .start).table[i]? = none from
      Part.walk_table (.statements tt) hi, Option.none_or]

/-- Two texts are resolved as one as they are one after the other, and the second text as well on
later lines. -/
theorem resolve_both {first second : String} {n : Site} (lines : Nat)
    (hfirst : (Resolution.ofProgram (Program.parse (scanTokens first) n).tree).errors = [])
    (hparse : (Program.parse (scanTokens second)
      (Program.parse (scanTokens first) n).nextSite).errors = [])
    (hsecond : (Resolution.ofProgram (Program.parse (scanTokens second)
      (Program.parse (scanTokens first) n).nextSite).tree).errors = []) :
    let one := Program.parse (scanTokens first) n
    let two := Program.parse (scanTokens second) one.nextSite
    let later := Stmt.shiftedAll ⟨lines, id⟩ two.tree
    ((Resolution.ofProgram (one.tree ++ later)).errors = [] ∧
        ∀ i : Site, (Resolution.ofProgram (one.tree ++ later)).table[i]? =
          ((Resolution.ofProgram two.tree).table[i]?).or
            (Resolution.ofProgram one.tree).table[i]?) ∧
      ((Resolution.ofProgram later).errors = [] ∧
        ∀ i : Site, (Resolution.ofProgram later).table[i]? =
          (Resolution.ofProgram two.tree).table[i]?) ∧
      ∀ i < one.nextSite, (Resolution.ofProgram two.tree).table[i]? = none := by
  intro one two later
  have hdrawn : Drawn n one.nextSite (sitesOf (Stmt.referencesAll one.tree)) :=
    Program.parse_drawn _ _
  have hdrawn' : Drawn one.nextSite two.nextSite (sitesOf (Stmt.referencesAll two.tree)) :=
    Program.parse_drawn _ _
  have haccepted : Accepted (Resolution.ofProgram two.tree).table (.statements two.tree) :=
    .of_parse (fun t ht => scanTokens_spelled ht) hparse hsecond
  have hnothing : (Resolution.ofProgram []).errors = [] := rfl
  obtain ⟨herrors, htable⟩ := Resolution.append lines hnothing haccepted
    fun _ _ hmem => nomatch hmem
  -- the sites of the two parses lie in ranges one after the other, so no site is in both tables
  refine ⟨Resolution.append lines hfirst haccepted fun i hi hmem => ?_,
    ⟨herrors, fun i => ?_⟩, fun i hi => Part.walk_table (.statements two.tree) fun hmem => ?_⟩
  · exact Nat.not_le.mpr (hdrawn.range i hmem).2 (hdrawn'.range i hi).1
  · exact (htable i).trans ((congrArg _ Std.TreeMap.getElem?_emptyc).trans Option.or_none)
  · exact Nat.not_le.mpr hi (hdrawn'.range i hmem).1

/-! ## Running -/

namespace Eval

theorem interpret_append (fuel : Nat) (ss tt : List Stmt) :
    interpret fuel (ss ++ tt) = interpret fuel ss >>= fun _ => interpret fuel tt := by
  induction ss with
  | nil => rfl
  | cons s ss ih =>
    show (execute fuel s >>= fun _ => interpret fuel (ss ++ tt)) = _
    rw [ih]
    exact (bind_assoc ..).symm

end Eval

/-- Nothing differs but lines, and all references may occur. -/
def Variation.moved (lines : Nat) (table : Table) : Variation :=
  .lined lines table fun _ => True

namespace Session

variable {s s₁ : Session} {fuel : Nat}

/-- Running a program changes no distance. -/
theorem Whole.interpret_table (hs : s.Whole) {ss : List Stmt} {m : Machine}
    (hrun : Eval.interpret fuel ss s.machine = .ok () m) :
    ∀ i : Site, m.table[i]? = s.machine.table[i]? := by
  obtain ⟨l, htwin, hcurrent⟩ := hs
  have hwithin : s.plain.Within (.moved 0 s.machine.table) :=
    ⟨rfl, rfl, .inl rfl, fun _ _ hi => ⟨hi.1, trivial⟩⟩
  have hself : s.machine.Twin (.moved 0 s.machine.table) l s.machine := by
    refine ⟨htwin.store.vary hwithin, rfl, rfl, fun _ _ _ => rfl, ?_, rfl, rfl, rfl, htwin.global⟩
    rintro i i' ⟨rfl, -⟩
    rfl
  have halike := Stmt.alikeAll_later (v := .moved 0 s.machine.table) (Variation.lined_moves ..) []
    ss fun _ _ => ⟨rfl, trivial⟩
  rw [Stmt.shiftedAll_same] at halike
  have hend := interpret_twin fuel halike l (List.prefix_refl _) _ _ hself hcurrent
  rw [hrun] at hend
  obtain ⟨l', -, hm, -⟩ := hend
  exact fun i => hm.table i i ⟨rfl, trivial⟩

/-- Statements run behind others, on a machine that knew the distances of both from the start, do
what they do where those of theirs are learned in between. -/
theorem Whole.interpret_both (hs : s.Whole) {lines : Nat} {mid : Site} {ss tt tt' : List Stmt}
    {T₁ T₂ T : Table} (hdrawn : Drawn s.nextSite mid (sitesOf (Stmt.referencesAll ss)))
    (hT₂ : ∀ i < mid, T₂[i]? = none) (hT : ∀ i : Site, T[i]? = (T₂[i]?).or T₁[i]?)
    (halike : ∀ table,
      Alike (Variation.moved lines table) [] (.statements tt) (.statements tt'))
    {m : Machine} (hrun : Eval.interpret fuel ss (s.machine.learn T₁) = .ok () m) :
    ∃ l, EndTwin (Variation.moved lines (s.machine.learn T).table) l s.machine.current
      (fun _ _ _ => True) (Eval.interpret fuel tt (m.learn T₂))
      (Eval.interpret fuel (ss ++ tt') (s.machine.learn T)) := by
  have hafter := (hs.learn T₁).interpret_table hrun
  obtain ⟨l, htwin, hcurrent⟩ := id hs
  -- up to the end of the first statements only their references occur
  let v : Variation := .lined lines (s.machine.learn T).table (· < mid)
  have hwithin : s.plain.Within v :=
    ⟨rfl, rfl, .inl rfl, fun _ _ hi => ⟨hi.1, Nat.lt_of_lt_of_le hi.2 hdrawn.le⟩⟩
  have hstart : (s.machine.learn T₁).Twin v l (s.machine.learn T) := by
    refine htwin.learn hwithin (fun i i' hi => ?_) ?_
    · show _ = (s.machine.learn T).table[i]?
      rw [Machine.learn_table, Machine.learn_table, hT, hT₂ i hi.2, Option.none_or]
    · rintro i i' ⟨rfl, -⟩
      rfl
  have hself := alike_self hdrawn (v := v) ⟨rfl, .inl rfl⟩ fun _ hi => ⟨rfl, hi⟩
  have hend := interpret_twin fuel hself l (List.prefix_refl _) _ _ hstart hcurrent
  rw [hrun] at hend
  cases hrun' : Eval.interpret fuel ss (s.machine.learn T) with
  | error e m' =>
    rw [hrun'] at hend
    exact hend.elim
  | ok _ m' =>
    rw [hrun'] at hend
    obtain ⟨l₁, hl, hm, hframe, -⟩ := hend
    have hafter' := (hs.learn T).interpret_table hrun'
    -- and from there on both machines know all of them
    have hall : v.Within (.moved lines (s.machine.learn T).table) :=
      ⟨rfl, rfl, .inr rfl, fun _ _ hi => ⟨hi.1, trivial⟩⟩
    have hmid : (m.learn T₂).Twin (.moved lines (s.machine.learn T).table) l₁ m' := by
      refine ⟨hm.store.vary hall, hm.globals, hm.current, fun i _ _ => ?_, ?_, hm.input, hm.output,
        hm.host, hm.global⟩
      · show (m.learn T₂).table[i]? = (s.machine.learn T).table[i]?
        rw [Machine.learn_table, hafter]
        show (T₂[i]?).or (s.machine.learn T₁).table[i]? = _
        rw [Machine.learn_table, Machine.learn_table, hT, Option.or_assoc]
      · rintro i i' ⟨rfl, -⟩
        exact hafter' i'
    refine ⟨l₁, ?_⟩
    have hrest := interpret_twin fuel (halike (s.machine.learn T).table) l₁ (List.prefix_refl _) _ _
      hmid (by rw [show (m.learn T₂).current = _ from hframe]; exact Layout.grow hl hcurrent)
    rw [Eval.interpret_append]
    show EndTwin _ _ _ _ _ (EStateM.bind _ _ _)
    unfold EStateM.bind
    rw [hrun']
    exact hframe ▸ hrest

/-- Tokens that parsing and resolving accept are run. -/
theorem runTokens_eq {tokens : List Token}
    (hparse : (Program.parse tokens s.nextSite).errors = [])
    (hresolve : (Resolution.ofProgram (Program.parse tokens s.nextSite).tree).errors = []) :
    s.runTokens fuel tokens =
      ended (Program.parse tokens s.nextSite).nextSite
        (Eval.interpret fuel (Program.parse tokens s.nextSite).tree
          (s.machine.learn
            (Resolution.ofProgram (Program.parse tokens s.nextSite).tree).table)) := by
  unfold runTokens
  dsimp only
  rw [hparse]
  exact runResolved_eq hresolve _ _

/-- Tokens that run to their end without errors are accepted by parsing and resolving. -/
theorem runTokens_accepted {tokens : List Token} (h : s.runTokens fuel tokens = some ([], s₁)) :
    (Program.parse tokens s.nextSite).errors = [] ∧
      (Resolution.ofProgram (Program.parse tokens s.nextSite).tree).errors = [] := by
  unfold runTokens at h
  dsimp only at h
  generalize Program.parse tokens s.nextSite = parsed at h
  cases hparse : parsed.errors with
  | cons error errors =>
    rw [hparse] at h
    cases h
  | nil =>
    rw [hparse] at h
    refine ⟨rfl, ?_⟩
    cases hresolve : (Resolution.ofProgram parsed.tree).errors with
    | nil => rfl
    | cons error errors =>
      unfold runResolved at h
      rw [hresolve] at h
      cases h

/-- A text without scanning errors is run by its tokens. -/
theorem run_eq {source : String} (hscan : scanErrors source = []) (s : Session) :
    s.run fuel source = s.runTokens fuel (scanTokens source) := by
  unfold run scanned
  rw [hscan]

/-- A text that runs to its end without errors has no scanning errors. -/
theorem run_scanned {source : String} (h : s.run fuel source = some ([], s₁)) :
    scanErrors source = [] := by
  unfold run scanned at h
  cases hscan : scanErrors source with
  | nil => rfl
  | cons error errors =>
    rw [hscan] at h
    cases h

theorem ended_done {nextSite : Site} {r : EStateM.Result Halt Machine Unit}
    (h : ended nextSite r = some ([], s₁)) : s₁.nextSite = nextSite ∧ r = .ok () s₁.machine := by
  cases r with
  | ok a m =>
    cases h
    exact ⟨rfl, rfl⟩
  | error e m => cases e <;> cases h

/-- Texts end the same way, and leave sessions that are the same, but for the lines of tokens, some
of which may stand so many lines later in the second one. -/
def SameEnd (lines : Nat) (o o' : Outcome) : Prop :=
  ∃ table l frame, OutcomeTwin (.moved lines table) l frame o o'

/-- In a whole session, running two texts one after the other and running them as one end the same
way. -/
theorem Whole.run_both {first second : String} (hs : s.Whole)
    (hfirst : s.run fuel first = some ([], s₁)) (hscan : scanErrors second = [])
    (hparse : (Program.parse (scanTokens second) s₁.nextSite).errors = [])
    (hresolve :
      (Resolution.ofProgram (Program.parse (scanTokens second) s₁.nextSite).tree).errors = []) :
    SameEnd (linesAfter first) (s₁.run fuel second) (s.run fuel (first ++ "\n" ++ second)) ∧
    SameEnd 0 (s₁.runTokens fuel ((scanTokens second).map (Token.later (linesAfter first))))
      (s.run fuel (first ++ "\n" ++ second)) := by
  have hscanFirst := run_scanned hfirst
  rw [run_eq hscanFirst] at hfirst
  obtain ⟨hparseFirst, hresolveFirst⟩ := runTokens_accepted hfirst
  rw [runTokens_eq hparseFirst hresolveFirst] at hfirst
  obtain ⟨hnext, hrun⟩ := ended_done hfirst
  rw [hnext] at hparse hresolve
  obtain ⟨⟨herrors, htable⟩, ⟨herrors', htable'⟩, hunknown⟩ :=
    resolve_both (linesAfter first) hresolveFirst hparse hresolve
  let one := Program.parse (scanTokens first) s.nextSite
  let two := Program.parse (scanTokens second) one.nextSite
  let later := Stmt.shiftedAll ⟨linesAfter first, id⟩ two.tree
  have hdrawn : Drawn s.nextSite one.nextSite (sitesOf (Stmt.referencesAll one.tree)) :=
    Program.parse_drawn _ _
  have hjoined : s.run fuel (first ++ "\n" ++ second) = ended two.nextSite
      (Eval.interpret fuel (one.tree ++ later)
        (s.machine.learn (Resolution.ofProgram (one.tree ++ later)).table)) := by
    obtain ⟨-, -, -, -, hclean⟩ := scan_joined hscanFirst second
    have htree := parse_both hscanFirst hscan hparseFirst hparse
    rw [run_eq (hclean hscan), runTokens_eq (by rw [htree]) (by rw [htree]; exact herrors), htree]
  have hsecond : s₁.run fuel second = ended two.nextSite
      (Eval.interpret fuel two.tree (s₁.machine.learn (Resolution.ofProgram two.tree).table)) := by
    rw [run_eq hscan, runTokens_eq (by rw [hnext]; exact hparse) (by rw [hnext]; exact hresolve),
      hnext]
  have hmoved : s₁.runTokens fuel ((scanTokens second).map (Token.later (linesAfter first))) =
      ended two.nextSite
        (Eval.interpret fuel later (s₁.machine.learn (Resolution.ofProgram later).table)) := by
    have htree := parse_later hscan hparse (linesAfter first)
    rw [← hnext] at htree
    rw [runTokens_eq (by rw [htree]) (by rw [htree, hnext]; exact herrors'), htree, hnext]
  rw [hjoined, hsecond, hmoved]
  -- the joined text runs the second program on later lines: against the second text its lines are
  -- moved, against the moved tokens nothing is
  constructor
  · have halike (table : Table) := Stmt.alikeAll_later (v := .moved (linesAfter first) table)
      (Variation.lined_moves ..) [] two.tree fun _ _ => ⟨rfl, trivial⟩
    obtain ⟨l, hend⟩ := hs.interpret_both hdrawn hunknown htable halike hrun
    exact ⟨_, l, _, ended_twin hend _⟩
  · have halike (table : Table) := Stmt.alikeAll_later (v := .moved 0 table)
      (Variation.lined_moves ..) [] later fun _ _ => ⟨rfl, trivial⟩
    rw [Stmt.shiftedAll_same] at halike
    obtain ⟨l, hend⟩ := hs.interpret_both hdrawn (fun i hi => (htable' i).trans (hunknown i hi))
      (fun i => by rw [htable i, htable' i]) halike hrun
    exact ⟨_, l, _, ended_twin hend _⟩

/-- Splitting a program over several runs cannot be observed. Where a text runs to its end in a
session, and scanning, parsing and resolving have nothing against another one, running both as one
text, with a line end between them, is running the second one after the first: it writes and reads
the same, binds the same globals to the same values, and ends in the same success or runtime error.
Only the tokens of the second text stand on later lines; with those lines already in its tokens,
there is no difference. -/
theorem run_split {ρ : Type} [Reporter ρ] (input : Input) (output : Output) (host : Host)
    {history : Nat} {steps : List Step} {r r' : ρ} {s s₁ : Session} {fuel : Nat}
    {first second : String}
    (hreached : Step.takeAll history steps (start input output host) r = some (s, r'))
    (hfirst : s.run fuel first = some ([], s₁)) (hscan : scanErrors second = [])
    (hparse : (Program.parse (scanTokens second) s₁.nextSite).errors = [])
    (hresolve :
      (Resolution.ofProgram (Program.parse (scanTokens second) s₁.nextSite).tree).errors = []) :
    let lines := linesAfter first
    let joined := s.run fuel (first ++ "\n" ++ second)
    SameEnd lines (s₁.run fuel second) joined ∧
      SameEnd 0 (s₁.runTokens fuel ((scanTokens second).map (Token.later lines))) joined :=
  (Whole.takeAll (start_whole input output host) hreached).run_both hfirst hscan hparse hresolve

/-- A closure of the first text is called in the second one, before a line that fails. -/
theorem run_split_escaped_closure :
    let steps := [Step.run "var g;"]
    let first := "fun f(x) \x7b\n  fun h() \x7b return x; \x7d\n  return h;\n\x7d\ng = f(true);"
    let second := "var y = g();\ny();"
    ∃ s s₁ j, Step.takeAll 12 steps (start ⟨[]⟩ {} ⟨fun _ => 0, fun _ => 0, 0, 0⟩)
        Journal.empty = some (s, j) ∧
      s.run 12 first = some ([], s₁) ∧
      SameEnd 5 (s₁.run 12 second) (s.run 12 (first ++ "\n" ++ second)) ∧
      SameEnd 0 (s₁.runTokens 12 ((scanTokens second).map (Token.later 5)))
        (s.run 12 (first ++ "\n" ++ second)) := by
  intro steps first second
  let reached := Step.takeAll 12 steps (start ⟨[]⟩ {} ⟨fun _ => 0, fun _ => 0, 0, 0⟩) Journal.empty
  have hruns : (reached.bind fun (s, _) => s.run 12 first).any (fun (errors, s₁) =>
      errors.isEmpty && (Program.parse (scanTokens second) s₁.nextSite).errors.isEmpty &&
        (Resolution.ofProgram
          (Program.parse (scanTokens second) s₁.nextSite).tree).errors.isEmpty) = true := by
    decide +kernel
  obtain ⟨⟨errors, s₁⟩, hfirst, haccepted⟩ := (Option.any_eq_true _ _).mp hruns
  obtain ⟨⟨s, j⟩, hreached, hfirst⟩ := Option.bind_eq_some_iff.mp hfirst
  simp only [Bool.and_eq_true, List.isEmpty_iff] at haccepted
  obtain ⟨⟨rfl, hparse⟩, hresolve⟩ := haccepted
  have hsplit := run_split ⟨[]⟩ {} ⟨fun _ => 0, fun _ => 0, 0, 0⟩ hreached hfirst
    (by decide +kernel) hparse hresolve
  rw [show linesAfter first = 5 by decide +kernel] at hsplit
  exact ⟨s, s₁, j, hreached, hfirst, hsplit⟩

end Session

end Lox
