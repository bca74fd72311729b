import Lox.Proofs.Grammar.Append
import Lox.Proofs.Grammar.Scripts
import Lox.Proofs.Grammar.Slice

/-!
# Parsing ends, and before the first end

With enough fuel a rule gives what it gives with any more of it (`Parser.Same`), and `fuelFor` is
enough for every row of tokens. So how a parse ends does not depend on fuel: the parse of a slice
by index ends, whatever the tokens are, with what `Program.parse` and `Expr.parse` give
(`Parser.Settles`), and every declaration on the way moves on. It has then looked at nothing behind
the first end, or at the missing one if there is none.
-/

namespace Lox.Grammar

open Lox.Parser

/-! ## More fuel -/

/-- A run that ended has not run out of fuel. -/
def Finished {α : Type} : EStateM.Result Refusal Cursor α → Prop
  | .error .outOfFuel _ => False
  | _ => True

/-- The second rule does what the first one does where that one ends. -/
def Same {α : Type} (p q : Parser α) : Prop :=
  ∀ c, Finished (p c) → q c = p c

/-- A text as it lies in itself. -/
def still (stop : Token) : Seam where
  lines := 0
  sites := id
  before := []
  more := []
  stop
  stop' := stop
  continued := False
  bad _ := False
  whole _ := ⟨rfl, rfl⟩
  atStop h := h.elim
  noElse := rfl

section Same

variable {α β : Type} {p q : Parser α}

/-- A cursor is at its own place. -/
theorem still_joins (c : Cursor) : (still c.stop).Joins c c where
  unread := by
    show c.unread = c.unread.map (Token.later 0) ++ []
    rw [Token.map_later_zero, List.append_nil]
  stop := rfl
  stop' := rfl
  errors := (List.map_id c.errors).symm
  sites _ := rfl
  closes h := h.elim

/-- Where nothing is added to a text, the cursors of both runs are the same. -/
theorem eq_of_still_joins {c c' : Cursor} {stop : Token} (h : (still stop).Joins c c') :
    c' = c := by
  obtain ⟨unread, stop₁, errors, nextSite⟩ := c
  obtain ⟨unread', stop₂, errors', nextSite'⟩ := c'
  have hunread : unread' = unread := h.unread.trans (by
    show unread.map (Token.later 0) ++ [] = unread
    rw [Token.map_later_zero, List.append_nil])
  have hstop : stop₂ = stop₁ := h.stop'.trans h.stop.symm
  have herrors : errors' = errors := h.errors.trans (List.map_id errors)
  have hsite : nextSite' = nextSite := (h.sites 0).symm
  rw [hunread, hstop, herrors, hsite]

/-- What follows a rule in the text that it is for does the same. -/
theorem Same.of_follows {o : Prop} {φ : α → α} (h : ∀ stop, (still stop).Follows o φ p q)
    (hφ : ∀ a, φ a = a) : Same p q := by
  intro c hended
  have hagree := (h c.stop).agree c c (still_joins c)
  cases hp : p c with
  | ok a c₁ =>
    rw [hp] at hagree
    rcases hagree with ⟨_, _, hno⟩ | ⟨_, hno, _⟩ | ⟨c₂, hq, hj⟩
    · exact hno.elim
    · exact hno.elim
    · rw [hq, hφ, eq_of_still_joins hj]
  | error e c₁ =>
    rw [hp] at hagree hended
    cases e with
    | problem e =>
      rcases hagree with hno | ⟨_, _, hno⟩ | ⟨c₂, hq, hj⟩
      · exact hno.elim
      · exact hno.elim
      · rw [hq, eq_of_still_joins hj]
        rfl
    | outOfFuel => exact hended.elim

/-- More fuel for the first rule is as good for both. -/
theorem Same.bind {f : α → Parser β} (h : Same p q) : Same (p >>= f) (q >>= f) := by
  intro c hended
  cases hp : p c with
  | ok a c₁ =>
    have hq : q c = .ok a c₁ := (h c (by rw [hp]; trivial)).trans hp
    rw [bind_ok hp, bind_ok hq]
  | error e c₁ =>
    rw [bind_error hp] at hended
    have hsame : Finished (p c) := by
      rw [hp]
      cases e with
      | problem e => trivial
      | outOfFuel => exact hended
    have hq : q c = .error e c₁ := (h c hsame).trans hp
    rw [bind_error hp, bind_error hq]

/-- Recovery does not depend on fuel. -/
theorem Same.recovering (h : Same p q) : Same (recovering p) (recovering q) := by
  intro c hended
  unfold Parser.recovering at hended ⊢
  rw [h c]
  cases hp : p c with
  | ok a c₁ => trivial
  | error e c₁ =>
    rw [hp] at hended
    cases e with
    | problem e => trivial
    | outOfFuel => exact hended

variable {fuel fuel' : Nat}

/-- More fuel changes no declarations that were parsed. -/
theorem declarations_same (hfuel : fuel ≤ fuel') (inBlock : Bool) :
    Same (declarations fuel inBlock) (declarations fuel' inBlock) :=
  .of_follows (fun _ => (following hfuel).declarations inBlock) Stmt.shiftedAll_same

/-- More fuel changes no declaration that was parsed. -/
theorem declaration_same (hfuel : fuel ≤ fuel') : Same (declaration fuel) (declaration fuel') :=
  .of_follows (fun _ => (following hfuel).declaration) Stmt.shifted_same

/-- More fuel changes no expression that was parsed. -/
theorem wholeExpression_same (hfuel : fuel ≤ fuel') :
    Same (wholeExpression fuel) (wholeExpression fuel') :=
  (Same.of_follows (fun _ => (following hfuel).binary .comma) Expr.shifted_same).bind

end Same

/-! ## Progress -/

section Progress

variable {fuel : Nat} {c c' : Cursor} {first : Option Stmt}

/-- Fuel for a row of tokens is enough for a declaration that begins in it. -/
theorem covers_declaration {m n : Nat} (hm : m ≤ n) (hfuel : fuelFor n ≤ fuel) :
    Covers (fuel + 1) m 22 := by
  unfold Covers
  unfold fuelFor callsPerToken at *
  omega

/-- A declaration that is read or given up where a token is left reads one at least, whatever the
fuel was. -/
theorem recovering_advances (hne : c.unread ≠ [])
    (h : recovering (declaration fuel) c = .ok first c') :
    c'.unread.length < c.unread.length := by
  have hmore := (declaration_same (Nat.le_max_left fuel (fuelFor c.unread.length))).recovering c
    (by rw [h]; trivial)
  obtain ⟨first', c₁, hfirst, hless⟩ :=
    recovering_reads (covers_declaration (Nat.le_refl _) (Nat.le_max_right fuel _)) hne
  rw [hmore, h] at hfirst
  cases hfirst
  exact hless

end Progress

end Lox.Grammar

namespace Lox

open Grammar (beforeEnd fuelFor declarations declaration wholeExpression)

/-! ## Slices -/

/-- The place at which the parse of a slice begins. -/
def SlicePos.start (nextSite : Site) : SlicePos :=
  ⟨0, [], nextSite, []⟩

/-- Neither does the place lie behind the first end of the slice, nor was any token behind it looked
at. Where the slice has no end, it ends there. -/
structure SlicePos.Inside (tokens : List Token) (pl : SlicePos) : Prop where
  current : pl.current ≤ (beforeEnd tokens).length
  looked : ∀ i ∈ pl.looked, i ≤ (beforeEnd tokens).length

/-- The rule can be taken apart, and each way to do so ends on the slice with this result. -/
structure Parser.Settles {α : Type} (tokens : List Token) (nextSite : Site) (p : Parser α)
    (parsed : Parsed α) : Prop where
  scripted : ∃ s : Script α, s.parser = p
  runs : ∀ s : Script α, s.parser = p → ∃ pl : SlicePos, pl.Inside tokens ∧
    s.onSlice tokens (.start nextSite) = (.ok parsed.tree, pl) ∧
    pl.errors = parsed.errors ∧ pl.nextSite = parsed.nextSite

section Slices

variable {tokens : List Token} {c : Cursor} {pl : SlicePos} {nextSite : Site}

/-- A place that views a cursor is inside the slice. -/
theorem SlicePos.Views.inside (h : pl.Views tokens c) : pl.Inside tokens :=
  ⟨h.current, h.looked⟩

/-- Any place inside a slice is that of a cursor. -/
theorem SlicePos.Inside.views (h : pl.Inside tokens) :
    pl.Views tokens ⟨(beforeEnd tokens).drop pl.current, Token.endAmong tokens, pl.errors,
      pl.nextSite⟩ :=
  ⟨h.current, rfl, rfl, rfl, rfl, h.looked⟩

/-- The first place of a slice views the first cursor. -/
theorem SlicePos.start_views (tokens : List Token) (nextSite : Site) :
    (SlicePos.start nextSite).Views tokens (Cursor.start tokens nextSite) where
  current := Nat.zero_le _
  unread := rfl
  stop := rfl
  errors := rfl
  nextSite := rfl
  looked := List.forall_mem_nil _

/-- What is read and what is left make up the slice. -/
theorem SlicePos.Views.length (h : pl.Views tokens c) :
    pl.current + c.unread.length = (beforeEnd tokens).length := by
  rw [h.unread, List.length_drop]
  have := h.current
  omega

/-- A rule that gives a result at the first cursor gives it on the slice. -/
theorem Parser.Settles.of_ok {α : Type} {p : Parser α} {R : α → Prop} (hp : Scripted R p) {a : α}
    {c : Cursor} (h : p (Cursor.start tokens nextSite) = .ok a c) :
    Settles tokens nextSite p ⟨a, c.errors, c.nextSite⟩ where
  scripted := hp.imp fun _ hs => hs.1
  runs s hs := by
    have hagree := s.onSlice_agrees (SlicePos.start_views tokens nextSite)
    rw [hs, h] at hagree
    obtain ⟨hresult, hviews⟩ := hagree
    exact ⟨_, hviews.inside, Prod.ext hresult rfl, hviews.errors.symm, hviews.nextSite.symm⟩

/-- With any fuel from `fuelFor` on, a program is parsed to what `Program.parse` gives. -/
theorem declarations_settle {fuel : Nat} (hfuel : fuelFor (beforeEnd tokens).length ≤ fuel) :
    (declarations fuel false).Settles tokens nextSite (Program.parse tokens nextSite) := by
  obtain ⟨ss, c, hdeclarations, -⟩ := Grammar.declarations_total
    (c := Cursor.start tokens nextSite)
    (Grammar.covers_fuelFor (Cursor.start tokens nextSite).unread.length 22 (by decide))
  have hmore : declarations fuel false (Cursor.start tokens nextSite) = .ok ss c :=
    (Grammar.declarations_same hfuel false (Cursor.start tokens nextSite)
      (hdeclarations.symm ▸ trivial)).trans hdeclarations
  rw [Grammar.parse_of_declarations hdeclarations]
  exact .of_ok ((Grammar.scripting fuel).declarations false) hmore

/-- What a parse of a whole expression gives if there is one. -/
theorem parse_of_expression {e? : Option Expr}
    (h : wholeExpression (fuelFor (Cursor.start tokens nextSite).unread.length)
      (Cursor.start tokens nextSite) = .ok e? c) :
    Expr.parse tokens nextSite = ⟨e?, c.errors, c.nextSite⟩ := by
  unfold Expr.parse Parser.run
  dsimp only
  rw [h]
  rfl

/-- What it gives if there is none: the error is the last. -/
theorem parse_of_no_expression {e : SyntaxError}
    (h : wholeExpression (fuelFor (Cursor.start tokens nextSite).unread.length)
      (Cursor.start tokens nextSite) = .error (.problem e) c) :
    Expr.parse tokens nextSite = ⟨none, c.errors ++ [e], c.nextSite⟩ := by
  unfold Expr.parse Parser.run
  dsimp only
  rw [h]
  rfl

/-- With any fuel from `fuelFor` on, an expression is parsed to what `Expr.parse` gives. -/
theorem expression_settles {fuel : Nat} (hfuel : fuelFor (beforeEnd tokens).length ≤ fuel) :
    (Option.join <$> Parser.recovering (wholeExpression fuel)).Settles tokens nextSite
      (Expr.parse tokens nextSite) := by
  have hscripted : Scripted (fun _ => True)
      (Option.join <$> Parser.recovering (wholeExpression fuel)) :=
    (Grammar.wholeExpression_scripted fuel).recovering.map fun _ _ => trivial
  have hmore := Grammar.wholeExpression_same hfuel (Cursor.start tokens nextSite)
  cases h : wholeExpression (fuelFor (beforeEnd tokens).length) (Cursor.start tokens nextSite) with
  | ok tree c =>
    rw [h] at hmore
    have hread : Parser.recovering (wholeExpression fuel) (Cursor.start tokens nextSite)
        = .ok (some tree) c := by
      unfold Parser.recovering
      rw [hmore trivial]
    rw [parse_of_expression h]
    exact .of_ok hscripted (Parser.bind_ok hread)
  | error e c =>
    cases e with
    | problem e =>
      rw [h] at hmore
      have hread : Parser.recovering (wholeExpression fuel) (Cursor.start tokens nextSite)
          = .ok none (c.report e).resume := by
        unfold Parser.recovering
        rw [hmore trivial]
      have hsame : (c.report e).resume.errors = c.errors ++ [e] ∧
          (c.report e).resume.nextSite = c.nextSite := by
        unfold Cursor.resume
        split <;> exact ⟨rfl, rfl⟩
      rw [parse_of_no_expression h, ← hsame.1, ← hsame.2]
      exact .of_ok hscripted (Parser.bind_ok hread)
    -- with the fuel of `fuelFor` a parse does not run out
    | outOfFuel =>
      have hreads := Grammar.wholeExpression_reads (beforeEnd tokens).length
        (Cursor.start tokens nextSite) (Nat.le_refl _)
      rw [h] at hreads
      exact hreads.elim

/-- A call where the next token is no end moves on, if it ends; with `enough`, it ends. -/
structure Parser.MovesOn {α : Type} (tokens : List Token) (enough : Prop) (p : Parser α) :
    Prop where
  scripted : ∃ s : Script α, s.parser = p
  onward : ∀ s : Script α, s.parser = p → ∀ pl : SlicePos, pl.Inside tokens →
    (Slice.isAtEnd tokens pl).1 = false → ∀ a pl', s.onSlice tokens pl = (.ok a, pl') →
      pl.current < pl'.current ∧ pl'.Inside tokens
  ends : enough → ∀ s : Script α, s.parser = p → ∀ pl : SlicePos, pl.Inside tokens →
    (Slice.isAtEnd tokens pl).1 = false → ∃ a pl', s.onSlice tokens pl = (.ok a, pl')

/-- **Every declaration reads something**, one that is given up as well, at whatever depth it is
met. -/
theorem declaration_moves_on (tokens : List Token) (fuel : Nat) :
    (Parser.recovering (declaration fuel)).MovesOn tokens
      (fuelFor (beforeEnd tokens).length ≤ fuel) where
  scripted := ((Grammar.scripting fuel).declaration).recovering.imp fun _ hs => hs.1
  onward s hs pl hpl hended a pl' hrun := by
    have hviews := hpl.views
    have hagree := s.onSlice_agrees hviews
    rw [hs, hrun] at hagree
    cases hp : Parser.recovering (declaration fuel)
        ⟨(beforeEnd tokens).drop pl.current, Token.endAmong tokens, pl.errors, pl.nextSite⟩ with
    | error e c =>
      rw [hp] at hagree
      cases hagree.1
    | ok first c =>
      rw [hp] at hagree
      have hne := hviews.isAtEnd.symm.trans hended
      have hless := Grammar.recovering_advances (List.isEmpty_eq_false_iff.mp hne) hp
      have hbefore := hviews.length
      have hafter : pl'.current + c.unread.length = (beforeEnd tokens).length :=
        hagree.2.length
      exact ⟨by omega, hagree.2.inside⟩
  ends hfuel s hs pl hpl hended := by
    have hviews := hpl.views
    have hne := hviews.isAtEnd.symm.trans hended
    have hlength : ((beforeEnd tokens).drop pl.current).length ≤ (beforeEnd tokens).length :=
      List.length_drop ▸ Nat.sub_le _ _
    obtain ⟨first, c, hfirst, -⟩ := Grammar.recovering_reads
      (Grammar.covers_declaration hlength hfuel) (List.isEmpty_eq_false_iff.mp hne)
    have hagree := s.onSlice_agrees hviews
    rw [hs, hfirst] at hagree
    exact ⟨first, _, Prod.ext hagree.1 rfl⟩

end Slices

/-! ## No way back -/

section Onward

variable {tokens : List Token}

/-- Going one token further does not go back. -/
theorem Slice.advance_onward (pl : SlicePos) : pl.current ≤ (advance tokens pl).2.current := by
  unfold advance
  dsimp only
  split
  · exact Nat.le_refl _
  · exact Nat.le_succ _

/-- Skipping does not go back. -/
theorem Slice.skip_onward (pl : SlicePos) : pl.current ≤ (skip tokens pl).current := by
  fun_induction Slice.skip tokens pl with
  | case1 | case2 | case3 => exact Nat.le_refl _
  | case4 pl ended _ last _ next _ ih => exact Nat.le_trans (advance_onward next.2) ih

/-- Looking at a token goes nowhere. -/
theorem Slice.check_current (p : Token → Bool) (pl : SlicePos) :
    (check tokens p pl).2.current = pl.current := by
  unfold check
  dsimp only
  split <;> rfl

/-- Reading a token does not go back. -/
theorem Slice.matches?_onward (p : Token → Bool) (pl : SlicePos) :
    pl.current ≤ (matches? tokens p pl).2.current := by
  unfold matches?
  dsimp only
  split
  · exact Nat.le_trans (Nat.le_of_eq (check_current p pl).symm) (advance_onward _)
  · exact Nat.le_of_eq (check_current p pl).symm

/-- No script goes back. -/
theorem Script.onSlice_onward {α : Type} (s : Script α) (pl : SlicePos) :
    pl.current ≤ (s.onSlice tokens pl).2.current := by
  induction s generalizing pl with
  | done | refuse | outOfFuel => exact Nat.le_refl _
  | peek k ih => exact ih (Slice.peek tokens pl).1 (Slice.peek tokens pl).2
  | atEnd k ih => exact ih (Slice.isAtEnd tokens pl).1 (Slice.isAtEnd tokens pl).2
  | sees p k ih =>
    exact Nat.le_trans (Nat.le_of_eq (Slice.check_current p pl).symm) (ih _ _)
  | seesBoth p q hq k ih =>
    have hseen : pl.current ≤ (Slice.check tokens p pl).2.current :=
      Nat.le_of_eq (Slice.check_current p pl).symm
    unfold onSlice
    dsimp only
    split
    · exact Nat.le_trans hseen (ih _ (Slice.checkNext tokens q (Slice.check tokens p pl).2).2)
    · exact Nat.le_trans hseen (ih _ _)
  | take p k ih => exact Nat.le_trans (Slice.matches?_onward p pl) (ih _ _)
  | report rule token problem k ih =>
    exact ih { pl with errors := pl.errors ++ [⟨rule, token, problem⟩] }
  | freshSite k ih => exact ih pl.nextSite { pl with nextSite := pl.nextSite + 1 }
  | recovering s k ihs ih =>
    have hfirst := ihs pl
    unfold onSlice
    split
    next b pl₁ hs =>
      rw [hs] at hfirst
      exact Nat.le_trans hfirst (ih (some b) pl₁)
    next e pl₁ hs =>
      rw [hs] at hfirst
      have hthere : pl₁.current ≤
          (Slice.synchronize tokens { pl₁ with errors := pl₁.errors ++ [e] }).current :=
        Nat.le_trans (Slice.advance_onward { pl₁ with errors := pl₁.errors ++ [e] })
          (Slice.skip_onward _)
      exact Nat.le_trans hfirst (Nat.le_trans hthere (ih none _))
    next pl₁ hs =>
      rw [hs] at hfirst
      exact hfirst

/-- No script leaves the part of a slice before its first end. -/
theorem Script.onSlice_inside {α : Type} (s : Script α) {pl : SlicePos} (hpl : pl.Inside tokens) :
    (s.onSlice tokens pl).2.Inside tokens := by
  have hagree := s.onSlice_agrees hpl.views
  cases h : s.parser ⟨(beforeEnd tokens).drop pl.current, Token.endAmong tokens, pl.errors,
      pl.nextSite⟩ with
  | ok a c =>
    rw [h] at hagree
    exact hagree.2.inside
  | error e c =>
    rw [h] at hagree
    exact hagree.2.inside

end Onward

/-! ## Behind the first end -/

section Cut

/-- A slice cut after its first end. -/
def cutAfterEnd : List Token → List Token
  | [] => []
  | t :: ts => if t.isEnd then [t] else t :: cutAfterEnd ts

/-- A cursor has no tokens from behind the first end. -/
theorem start_cutAfterEnd (tokens : List Token) (nextSite : Site) :
    Cursor.start (cutAfterEnd tokens) nextSite = Cursor.start tokens nextSite := by
  have hparts : beforeEnd (cutAfterEnd tokens) = beforeEnd tokens ∧
      Token.endAmong (cutAfterEnd tokens) = Token.endAmong tokens := by
    induction tokens with
    | nil => exact ⟨rfl, rfl⟩
    | cons t ts ih =>
      unfold cutAfterEnd
      cases h : t.isEnd with
      | true =>
        rw [if_pos rfl, beforeEnd_end h, beforeEnd_end h, endAmong_end h, endAmong_end h]
        exact ⟨rfl, rfl⟩
      | false =>
        rw [if_neg Bool.false_ne_true, beforeEnd_cons h, beforeEnd_cons h, endAmong_cons h,
          endAmong_cons h, ih.1, ih.2]
        exact ⟨rfl, rfl⟩
  exact congrArg₂ (fun unread stop => Cursor.mk unread stop [] nextSite) hparts.1 hparts.2

/-- An end is added to a row without one. -/
theorem start_append_missingEnd (tokens : List Token) (nextSite : Site) :
    Cursor.start (tokens ++ [Token.missingEnd]) nextSite = Cursor.start tokens nextSite := by
  have hparts : beforeEnd (tokens ++ [Token.missingEnd]) = beforeEnd tokens ∧
      Token.endAmong (tokens ++ [Token.missingEnd]) = Token.endAmong tokens := by
    induction tokens with
    | nil => exact ⟨rfl, rfl⟩
    | cons t ts ih =>
      rw [List.cons_append]
      cases h : t.isEnd with
      | true =>
        rw [beforeEnd_end h, beforeEnd_end h, endAmong_end h, endAmong_end h]
        exact ⟨rfl, rfl⟩
      | false =>
        rw [beforeEnd_cons h, beforeEnd_cons h, endAmong_cons h, endAmong_cons h, ih.1, ih.2]
        exact ⟨rfl, rfl⟩
  exact congrArg₂ (fun unread stop => Cursor.mk unread stop [] nextSite) hparts.1 hparts.2

/-- The parses of two slices do not differ if they start at the same cursor. -/
theorem parse_congr {tokens tokens' : List Token} {nextSite : Site}
    (h : Cursor.start tokens nextSite = Cursor.start tokens' nextSite) :
    Program.parse tokens nextSite = Program.parse tokens' nextSite ∧
      Expr.parse tokens nextSite = Expr.parse tokens' nextSite := by
  unfold Program.parse Expr.parse Parser.run
  rw [h]
  exact ⟨rfl, rfl⟩

end Cut

/-- **Parsing ends, and before the first end.** Whatever the tokens are, a program and an expression
are parsed to an end by any fuel from `fuelFor` on, and what `Program.parse` and `Expr.parse` give
is the result. No step of any rule goes back, passes the first end or looks at what is behind it,
and a declaration that is begun before an end moves on. So what is behind the first end makes no
difference, nor does an end that is added behind a slice that has none. -/
theorem parsing_ends (tokens : List Token) (nextSite : Site) :
    (∀ fuel, fuelFor (beforeEnd tokens).length ≤ fuel →
      (declarations fuel false).Settles tokens nextSite (Program.parse tokens nextSite) ∧
      (Option.join <$> Parser.recovering (wholeExpression fuel)).Settles tokens nextSite
        (Expr.parse tokens nextSite)) ∧
    (∀ {α : Type} (s : Script α) (pl : SlicePos), pl.Inside tokens →
      (s.onSlice tokens pl).2.Inside tokens ∧ pl.current ≤ (s.onSlice tokens pl).2.current) ∧
    (∀ fuel, (Parser.recovering (declaration fuel)).MovesOn tokens
      (fuelFor (beforeEnd tokens).length ≤ fuel)) ∧
    (Program.parse (cutAfterEnd tokens) nextSite = Program.parse tokens nextSite ∧
      Expr.parse (cutAfterEnd tokens) nextSite = Expr.parse tokens nextSite) ∧
    (Program.parse (tokens ++ [Token.missingEnd]) nextSite = Program.parse tokens nextSite ∧
      Expr.parse (tokens ++ [Token.missingEnd]) nextSite = Expr.parse tokens nextSite) :=
  ⟨fun _ hfuel => ⟨declarations_settle hfuel, expression_settles hfuel⟩,
    fun s pl hpl => ⟨s.onSlice_inside hpl, s.onSlice_onward pl⟩,
    declaration_moves_on tokens,
    parse_congr (start_cutAfterEnd tokens nextSite),
    parse_congr (start_append_missingEnd tokens nextSite)⟩

end Lox
