import Lox.Proofs.Grammar.Script
import Lox.Proofs.Grammar.Lookahead
import Lox.Proofs.Grammar.Soundness
import Lox.Proofs.Grammar.Sources

/-!
# Parsing a slice by index

A `Cursor` keeps the tokens that are left before the first end, so it cannot look any further.
Here a parse has all the tokens of a slice, ends among them and behind them, and an index into it,
and every look at a token goes through `Slice.lookAt`, which notes the index. Whether all tokens are
read is asked of the token at the index, and there is a missing end where the slice has no token.

`Script.onSlice` runs a rule this way, step by step. It does what the rule does at a cursor, and the
indices it has looked at and the one it stands at are never behind the first end
(`Script.onSlice_agrees`).
-/

namespace Lox

/-- The state of a parse of a slice. -/
structure SlicePos where
  /-- The index of the token that comes next. -/
  current : Nat
  errors : List SyntaxError
  nextSite : Site
  /-- The indices that were looked at. -/
  looked : List Nat

namespace Slice

variable (tokens : List Token)

/-- The token at an index, if the slice goes so far. -/
def lookAt (i : Nat) (pl : SlicePos) : Option Token × SlicePos :=
  (tokens[i]?, { pl with looked := i :: pl.looked })

/-- The token that comes next. -/
def peek (pl : SlicePos) : Token × SlicePos :=
  let (t?, pl) := lookAt tokens pl.current pl
  (t?.getD Token.missingEnd, pl)

/-- The token before the one that comes next. -/
def previous (pl : SlicePos) : Token × SlicePos :=
  let (t?, pl) := lookAt tokens (pl.current - 1) pl
  (t?.getD Token.missingEnd, pl)

/-- Is the next token an end? -/
def isAtEnd (pl : SlicePos) : Bool × SlicePos :=
  let (t, pl) := peek tokens pl
  (t.isEnd, pl)

/-- Has the next token `p`? Never at an end. -/
def check (p : Token → Bool) (pl : SlicePos) : Bool × SlicePos :=
  let (ended, pl) := isAtEnd tokens pl
  if ended then (false, pl)
  else
    let (t, pl) := peek tokens pl
    (p t, pl)

/-- Has the token after the next one `p`? -/
def checkNext (p : Token → Bool) (pl : SlicePos) : Bool × SlicePos :=
  let (t?, pl) := lookAt tokens (pl.current + 1) pl
  (t?.any p, pl)

/-- Goes one token further, except at an end, and gives the token passed over. -/
def advance (pl : SlicePos) : Token × SlicePos :=
  let (ended, pl) := isAtEnd tokens pl
  previous tokens (if ended then pl else { pl with current := pl.current + 1 })

/-- Reads the next token if it has `p`. -/
def matches? (p : Token → Bool) (pl : SlicePos) : Option Token × SlicePos :=
  let (passed, pl) := check tokens p pl
  if passed then
    let (t, pl) := advance tokens pl
    (some t, pl)
  else (none, pl)

variable {tokens}

/-- Whether the slice is at its end is said by the token at the index. -/
theorem isAtEnd_eq (pl : SlicePos) :
    (isAtEnd tokens pl).1 = (tokens[pl.current]?.getD Token.missingEnd).isEnd :=
  rfl

/-- Where the next token is no end, the slice has one. -/
theorem current_lt {pl : SlicePos} (h : (isAtEnd tokens pl).1 = false) :
    pl.current < tokens.length := by
  by_contra hge
  rw [isAtEnd_eq, List.getElem?_eq_none (Nat.le_of_not_lt hge)] at h
  cases h

/-- Where a token is left, the index goes up by one. -/
theorem advance_current {pl : SlicePos} (h : (isAtEnd tokens pl).1 = false) :
    (advance tokens pl).2.current = pl.current + 1 := by
  unfold advance
  dsimp only
  rw [h]
  rfl

variable (tokens)

/-- Goes on to where a statement may begin: behind a semicolon, or at a keyword that begins one. -/
def skip (pl : SlicePos) : SlicePos :=
  let ended := isAtEnd tokens pl
  if _h : ended.1 = true then ended.2
  else
    let last := previous tokens ended.2
    if last.1.isMark .semicolon then last.2
    else
      let next := peek tokens last.2
      if next.1.beginsStatement then next.2
      else skip (advance tokens next.2).2
termination_by tokens.length - pl.current
decreasing_by
  have hended : (isAtEnd tokens pl).1 = false := Bool.eq_false_iff.mpr _h
  have hlt : pl.current < tokens.length := current_lt hended
  have hcurrent : (advance tokens (peek tokens (previous tokens (isAtEnd tokens pl).2).2).2).2.current
      = pl.current + 1 := advance_current hended
  omega

/-- Passes over the next token and goes on to where a statement may begin. -/
def synchronize (pl : SlicePos) : SlicePos :=
  skip tokens (advance tokens pl).2

end Slice

/-! ## Scripts on a slice -/

/-- Runs a script on a slice. -/
def Script.onSlice (tokens : List Token) :
    {α : Type} → Script α → SlicePos → Except Refusal α × SlicePos
  | _, .done a, pl => (.ok a, pl)
  | _, .refuse rule token problem, pl => (.error (.problem ⟨rule, token, problem⟩), pl)
  | _, .outOfFuel, pl => (.error .outOfFuel, pl)
  | _, .peek k, pl =>
    let (t, pl) := Slice.peek tokens pl
    (k t).onSlice tokens pl
  | _, .atEnd k, pl =>
    let (ended, pl) := Slice.isAtEnd tokens pl
    (k ended).onSlice tokens pl
  | _, .sees p k, pl =>
    let (seen, pl) := Slice.check tokens p pl
    (k seen).onSlice tokens pl
  | _, .seesBoth p q _ k, pl =>
    let (seen, pl) := Slice.check tokens p pl
    if seen then
      let (second, pl) := Slice.checkNext tokens q pl
      (k second).onSlice tokens pl
    else (k false).onSlice tokens pl
  | _, .take p k, pl =>
    let (t?, pl) := Slice.matches? tokens p pl
    (k t?).onSlice tokens pl
  | _, .report rule token problem k, pl =>
    k.onSlice tokens { pl with errors := pl.errors ++ [⟨rule, token, problem⟩] }
  | _, .freshSite k, pl => (k pl.nextSite).onSlice tokens { pl with nextSite := pl.nextSite + 1 }
  | _, .recovering s k, pl =>
    match s.onSlice tokens pl with
    | (.ok b, pl) => (k (some b)).onSlice tokens pl
    | (.error (.problem e), pl) =>
      (k none).onSlice tokens (Slice.synchronize tokens { pl with errors := pl.errors ++ [e] })
    | (.error .outOfFuel, pl) => (.error .outOfFuel, pl)

/-! ## Slices and cursors -/

open Grammar (beforeEnd)

/-- The cursor is at the place in the slice, which was never looked at behind the first end. -/
structure SlicePos.Views (tokens : List Token) (c : Cursor) (pl : SlicePos) : Prop where
  current : pl.current ≤ (beforeEnd tokens).length
  unread : c.unread = (beforeEnd tokens).drop pl.current
  stop : c.stop = Token.endAmong tokens
  errors : c.errors = pl.errors
  nextSite : c.nextSite = pl.nextSite
  looked : ∀ i ∈ pl.looked, i ≤ (beforeEnd tokens).length

/-! ### The tokens of a slice -/

section Tokens

variable {tokens : List Token} {t : Token} {ts : List Token}

/-- A token that is no end stands before the end. -/
theorem beforeEnd_cons (h : t.isEnd = false) : beforeEnd (t :: ts) = t :: beforeEnd ts :=
  List.takeWhile_cons_of_pos (by rw [h]; rfl)

/-- Nothing stands before an end that comes first. -/
theorem beforeEnd_end (h : t.isEnd = true) : beforeEnd (t :: ts) = [] :=
  List.takeWhile_cons_of_neg (by rw [h]; exact Bool.false_ne_true)

/-- The end of a row is not at a token that is none. -/
theorem endAmong_cons (h : t.isEnd = false) : Token.endAmong (t :: ts) = Token.endAmong ts := by
  unfold Token.endAmong
  rw [List.find?_cons_of_neg (by rw [h]; exact Bool.false_ne_true)]

/-- An end that comes first is the end of the row. -/
theorem endAmong_end (h : t.isEnd = true) : Token.endAmong (t :: ts) = t := by
  unfold Token.endAmong
  rw [List.find?_cons_of_pos h]
  rfl

/-- Every row has an end, a missing one if it holds none. -/
theorem endAmong_isEnd (tokens : List Token) : (Token.endAmong tokens).isEnd = true := by
  induction tokens with
  | nil => rfl
  | cons t ts ih =>
    cases h : t.isEnd with
    | true => rw [endAmong_end h, h]
    | false => rw [endAmong_cons h, ih]

/-- What stands before the end is no end. -/
theorem isEnd_of_mem_beforeEnd (ht : t ∈ beforeEnd tokens) : t.isEnd = false := by
  simpa using List.all_eq_true.mp List.all_takeWhile t ht

/-- Up to the first end, a slice has the tokens before the end and then that end. -/
theorem getElem?_beforeEnd {i : Nat} (hi : i ≤ (beforeEnd tokens).length) :
    tokens[i]?.getD Token.missingEnd = (beforeEnd tokens)[i]?.getD (Token.endAmong tokens) := by
  induction tokens generalizing i with
  | nil => rfl
  | cons t ts ih =>
    cases h : t.isEnd with
    | true =>
      rw [beforeEnd_end h] at hi ⊢
      rw [Nat.le_zero.mp hi, endAmong_end h]
      rfl
    | false =>
      rw [beforeEnd_cons h] at hi ⊢
      rw [endAmong_cons h]
      cases i with
      | zero => rfl
      | succ i => exact ih (Nat.le_of_succ_le_succ hi)

/-- A test that no end passes finds nothing more in the slice than in the part before the end. -/
theorem any_beforeEnd {q : Token → Bool} (hq : ∀ t, t.isEnd = true → q t = false) {i : Nat}
    (hi : i ≤ (beforeEnd tokens).length) : tokens[i]?.any q = (beforeEnd tokens)[i]?.any q := by
  -- past the end of a list the test would be put to an end
  have hany (t? : Option Token) {t : Token} (ht : t.isEnd = true) : t?.any q = q (t?.getD t) := by
    cases t? with
    | none => exact (hq t ht).symm
    | some t' => rfl
  have hmissing : Token.missingEnd.isEnd = true := rfl
  rw [hany _ hmissing, hany _ (endAmong_isEnd tokens), getElem?_beforeEnd hi]

end Tokens

/-! ### Single steps -/

namespace SlicePos.Views

variable {tokens : List Token} {c : Cursor} {pl : SlicePos} {p q : Token → Bool}

/-- Looking at the next token, or at the one before it, changes nothing else. -/
theorem look (h : pl.Views tokens c) {i : Nat} (hi : i ≤ (beforeEnd tokens).length) :
    Views tokens c (Slice.lookAt tokens i pl).2 where
  current := h.current
  unread := h.unread
  stop := h.stop
  errors := h.errors
  nextSite := h.nextSite
  looked := List.forall_mem_cons.mpr ⟨hi, h.looked⟩

/-- The next token of the place is that of the cursor. -/
theorem peek (h : pl.Views tokens c) : (Slice.peek tokens pl).1 = c.next := by
  show tokens[pl.current]?.getD Token.missingEnd = c.unread.headD c.stop
  rw [getElem?_beforeEnd h.current, h.unread, h.stop, List.headD_eq_head?_getD,
    List.head?_drop]

/-- A look at it stays in place. -/
theorem peek_views (h : pl.Views tokens c) : Views tokens c (Slice.peek tokens pl).2 :=
  h.look h.current

/-- A look back stays in place. -/
theorem previous_views (h : pl.Views tokens c) : Views tokens c (Slice.previous tokens pl).2 :=
  h.look (Nat.le_trans (Nat.sub_le _ _) h.current)

/-- The place is at an end where the cursor has nothing left. -/
theorem isAtEnd (h : pl.Views tokens c) : (Slice.isAtEnd tokens pl).1 = c.unread.isEmpty := by
  show (Slice.peek tokens pl).1.isEnd = _
  rw [h.peek]
  unfold Cursor.next
  cases hu : c.unread with
  | nil =>
    show c.stop.isEnd = true
    rw [h.stop, endAmong_isEnd]
  | cons t ts =>
    have ht : t ∈ (beforeEnd tokens).drop pl.current := by
      rw [← h.unread, hu]
      exact List.mem_cons_self
    exact isEnd_of_mem_beforeEnd (List.mem_of_mem_drop ht)

/-- Asking so stays in place. -/
theorem isAtEnd_views (h : pl.Views tokens c) : Views tokens c (Slice.isAtEnd tokens pl).2 :=
  h.peek_views

/-- An error is added at both. -/
theorem report (h : pl.Views tokens c) (e : SyntaxError) :
    Views tokens (c.report e) { pl with errors := pl.errors ++ [e] } where
  current := h.current
  unread := h.unread
  stop := h.stop
  errors := congrArg (· ++ [e]) h.errors
  nextSite := h.nextSite
  looked := h.looked

/-- A look at the next token, if there is one to read. -/
theorem check (h : pl.Views tokens c) :
    (Slice.check tokens p pl).1 = c.sees p ∧ Views tokens c (Slice.check tokens p pl).2 := by
  unfold Slice.check Cursor.sees
  dsimp only
  rw [h.isAtEnd]
  cases hu : c.unread with
  | nil => exact ⟨rfl, h.isAtEnd_views⟩
  | cons t ts =>
    refine ⟨?_, h.isAtEnd_views.peek_views⟩
    show p (Slice.peek tokens (Slice.isAtEnd tokens pl).2).1 = p t
    rw [h.isAtEnd_views.peek, Cursor.next, hu]
    rfl

/-- The first end is the furthest that a look at the token after the next one can go: there is a
next one. -/
theorem checkNext (h : pl.Views tokens c) (hq : ∀ t, t.isEnd = true → q t = false)
    (hne : c.unread ≠ []) :
    (Slice.checkNext tokens q pl).1 = c.seesSecond q ∧
      Views tokens c (Slice.checkNext tokens q pl).2 := by
  have hlt : pl.current < (beforeEnd tokens).length := by
    by_contra hge
    rw [h.unread, List.drop_eq_nil_of_le (Nat.le_of_not_lt hge)] at hne
    exact hne rfl
  refine ⟨?_, h.look hlt⟩
  show tokens[pl.current + 1]?.any q = c.unread.tail.head?.any q
  rw [any_beforeEnd hq hlt, h.unread, List.tail_drop, List.head?_drop]

/-- Advancing by index gives the next token that is unread, and views what is left. -/
theorem advance (h : pl.Views tokens c) {t : Token} {ts : List Token} (hu : c.unread = t :: ts) :
    (Slice.advance tokens pl).1 = t ∧
      Views tokens { c with unread := ts } (Slice.advance tokens pl).2 := by
  have hended : (Slice.isAtEnd tokens pl).1 = false := by rw [h.isAtEnd, hu]; rfl
  have hlt : pl.current < (beforeEnd tokens).length := by
    by_contra hge
    rw [h.unread, List.drop_eq_nil_of_le (Nat.le_of_not_lt hge)] at hu
    cases hu
  have hnext := h.peek
  rw [Cursor.next, hu] at hnext
  unfold Slice.advance
  dsimp only
  rw [hended]
  refine ⟨hnext, ?_⟩
  have hthere : Views tokens { c with unread := ts }
      { (Slice.isAtEnd tokens pl).2 with current := pl.current + 1 } :=
    { current := hlt
      unread := by
        show ts = (beforeEnd tokens).drop (pl.current + 1)
        rw [← List.tail_drop, ← h.unread, hu]
        rfl
      stop := h.stop
      errors := h.errors
      nextSite := h.nextSite
      looked := h.isAtEnd_views.looked }
  exact hthere.previous_views

/-- At an end there is no further. -/
theorem advance_end (h : pl.Views tokens c) (hu : c.unread = []) :
    Views tokens c (Slice.advance tokens pl).2 := by
  have hended : (Slice.isAtEnd tokens pl).1 = true := by rw [h.isAtEnd, hu]; rfl
  unfold Slice.advance
  dsimp only
  rw [hended]
  exact h.isAtEnd_views.previous_views

/-- A token that passes is read at both. -/
theorem matches?_some (h : pl.Views tokens c) {t : Token} {ts : List Token}
    (hu : c.unread = t :: ts) (ht : p t = true) :
    (Slice.matches? tokens p pl).1 = some t ∧
      Views tokens { c with unread := ts } (Slice.matches? tokens p pl).2 := by
  obtain ⟨hseen, hviews⟩ := h.check (p := p)
  have hpassed : (Slice.check tokens p pl).1 = true := by
    rw [hseen, Cursor.sees, hu]
    exact ht
  obtain ⟨hread, hthere⟩ := hviews.advance hu
  unfold Slice.matches?
  dsimp only
  rw [hpassed]
  exact ⟨congrArg some hread, hthere⟩

/-- A token that does not pass is left at both. -/
theorem matches?_none (h : pl.Views tokens c) (hp : c.sees p = false) :
    (Slice.matches? tokens p pl).1 = none ∧
      Views tokens c (Slice.matches? tokens p pl).2 := by
  obtain ⟨hseen, hviews⟩ := h.check (p := p)
  unfold Slice.matches?
  dsimp only
  rw [hseen, hp]
  exact ⟨rfl, hviews⟩

/-- Where a statement may begin, as seen from a place that the token `last` was read before. -/
theorem skip (h : pl.Views tokens c) {last : Token}
    (hlast : (Slice.previous tokens pl).1 = last) :
    Views tokens { c with unread := resumeAfter last c.unread } (Slice.skip tokens pl) := by
  -- on what is left to read; the place and the token before it move along
  obtain ⟨ts, hu⟩ : ∃ ts, c.unread = ts := ⟨_, rfl⟩
  induction ts generalizing pl c last with
  | nil =>
    have hended : (Slice.isAtEnd tokens pl).1 = true := by rw [h.isAtEnd, hu]; rfl
    rw [Slice.skip]
    dsimp only
    rw [dif_pos hended, hu]
    have hsame : { c with unread := resumeAfter last [] } = c := by rw [resumeAfter, ← hu]
    rw [hsame]
    exact h.isAtEnd_views
  | cons t ts ih =>
    have hended : (Slice.isAtEnd tokens pl).1 = false := by rw [h.isAtEnd, hu]; rfl
    have hthere := h.isAtEnd_views.previous_views
    have hnext := hthere.peek
    rw [Cursor.next, hu] at hnext
    obtain ⟨hread, hfurther⟩ := hthere.peek_views.advance hu
    have hstay : { c with unread := t :: ts } = c := by rw [← hu]
    have hprevious :
        (Slice.previous tokens (Slice.isAtEnd tokens pl).2).1.isMark .semicolon
          = last.isMark .semicolon := congrArg (Token.isMark .semicolon) hlast
    have hbegins : (Slice.peek tokens (Slice.previous tokens
        (Slice.isAtEnd tokens pl).2).2).1.beginsStatement = t.beginsStatement :=
      congrArg Token.beginsStatement hnext
    rw [Slice.skip, hu, resumeAfter]
    dsimp only
    rw [dif_neg (by rw [hended]; exact Bool.false_ne_true), hprevious, hbegins]
    cases hsemicolon : last.isMark .semicolon with
    | true =>
      simp only [Bool.true_or, if_true, hstay]
      exact hthere
    | false =>
      cases hkeyword : t.beginsStatement with
      | true =>
        simp only [Bool.or_true, Bool.false_eq_true, if_false, if_true, hstay]
        exact hthere.peek_views
      | false =>
        simp only [Bool.or_false, Bool.false_eq_true, if_false]
        exact ih hfurther hread rfl

/-- Passing over a token and going on to where a statement may begin. -/
theorem synchronize (h : pl.Views tokens c) :
    Views tokens c.resume (Slice.synchronize tokens pl) := by
  unfold Slice.synchronize Cursor.resume
  cases hu : c.unread with
  | nil =>
    have hsame : { c with unread := resumeAfter (Slice.previous tokens
        (Slice.advance tokens pl).2).1 c.unread } = c := by rw [hu, resumeAfter, ← hu]
    exact hsame ▸ (h.advance_end hu).skip rfl
  | cons t ts =>
    obtain ⟨hread, hthere⟩ := h.advance hu
    exact hthere.skip hread

end SlicePos.Views

/-! ### Whole scripts -/

/-- What a script does on a slice is what the rule does at the cursor. -/
def SlicePos.Agrees {α : Type} (tokens : List Token) :
    EStateM.Result Refusal Cursor α → Except Refusal α × SlicePos → Prop
  | .ok a c, r => r.1 = .ok a ∧ r.2.Views tokens c
  | .error e c, r => r.1 = .error e ∧ r.2.Views tokens c

namespace SlicePos.Agrees

variable {α : Type} {tokens : List Token} {c : Cursor} {pl : SlicePos}

/-- Two tokens are looked at one after the other, the second one only if the first one is there. -/
theorem seesBoth {p q : Token → Bool} {hq : ∀ t, t.isEnd = true → q t = false}
    {k : Bool → Script α}
    (ih : ∀ b {c pl}, pl.Views tokens c →
      SlicePos.Agrees tokens ((k b).parser c) ((k b).onSlice tokens pl))
    (h : pl.Views tokens c) :
    SlicePos.Agrees tokens ((Script.seesBoth p q hq k).parser c)
      ((Script.seesBoth p q hq k).onSlice tokens pl) := by
  obtain ⟨hseen, hviews⟩ := h.check (p := p)
  show SlicePos.Agrees tokens ((k (c.sees p && c.seesSecond q)).parser c)
    (if (Slice.check tokens p pl).1 = true then
      (k (Slice.checkNext tokens q (Slice.check tokens p pl).2).1).onSlice tokens
        (Slice.checkNext tokens q (Slice.check tokens p pl).2).2
    else (k false).onSlice tokens (Slice.check tokens p pl).2)
  rw [hseen]
  cases hp : c.sees p with
  | false => exact ih false hviews
  | true =>
    have hne : c.unread ≠ [] := by
      intro hu
      rw [Cursor.sees, hu] at hp
      cases hp
    obtain ⟨hsecond, hviews'⟩ := hviews.checkNext hq hne
    rw [if_pos rfl, hsecond]
    exact ih _ hviews'

/-- A token is read if it is there. -/
theorem take {p : Token → Bool} {k : Option Token → Script α}
    (ih : ∀ t? {c pl}, pl.Views tokens c →
      SlicePos.Agrees tokens ((k t?).parser c) ((k t?).onSlice tokens pl))
    (h : pl.Views tokens c) :
    SlicePos.Agrees tokens ((Script.take p k).parser c) ((Script.take p k).onSlice tokens pl) := by
  show SlicePos.Agrees tokens ((Parser.take? p >>= fun t? => (k t?).parser) c)
    ((k (Slice.matches? tokens p pl).1).onSlice tokens (Slice.matches? tokens p pl).2)
  cases hp : c.sees p with
  | false =>
    obtain ⟨hread, hviews⟩ := h.matches?_none hp
    rw [Parser.bind_ok (Parser.take?_none hp), hread]
    exact ih none hviews
  | true =>
    obtain ⟨t, ts, hu, ht⟩ : ∃ t ts, c.unread = t :: ts ∧ p t = true := by
      unfold Cursor.sees at hp
      cases hu : c.unread with
      | nil =>
        rw [hu] at hp
        cases hp
      | cons t ts =>
        rw [hu] at hp
        exact ⟨t, ts, rfl, hp⟩
    obtain ⟨hread, hviews⟩ := h.matches?_some hu ht
    rw [Parser.bind_ok (Parser.take?_some hu ht), hread]
    exact ih (some t) hviews

/-- A declaration that is given up is reported, and what follows it is looked for. -/
theorem recovering {β : Type} {s : Script β} {k : Option β → Script α}
    (hs : ∀ {c pl}, pl.Views tokens c →
      SlicePos.Agrees tokens (s.parser c) (s.onSlice tokens pl))
    (ih : ∀ b? {c pl}, pl.Views tokens c →
      SlicePos.Agrees tokens ((k b?).parser c) ((k b?).onSlice tokens pl))
    (h : pl.Views tokens c) :
    SlicePos.Agrees tokens ((Script.recovering s k).parser c)
      ((Script.recovering s k).onSlice tokens pl) := by
  have hfirst := hs h
  show SlicePos.Agrees tokens ((Parser.recovering s.parser >>= fun a? => (k a?).parser) c) _
  rw [Script.onSlice]
  -- both runs end the same way: with a result, with a problem to recover from, or out of fuel
  generalize s.onSlice tokens pl = result at hfirst
  obtain ⟨r, pl'⟩ := result
  cases hrun : s.parser c with
  | ok b c₁ =>
    rw [hrun] at hfirst
    obtain ⟨rfl, hviews⟩ := hfirst
    have hok : Parser.recovering s.parser c = .ok (some b) c₁ := by
      unfold Parser.recovering
      rw [hrun]
    rw [Parser.bind_ok hok]
    exact ih (some b) hviews
  | error e c₁ =>
    rw [hrun] at hfirst
    obtain ⟨rfl, hviews⟩ := hfirst
    cases e with
    | problem e =>
      have hok : Parser.recovering s.parser c = .ok none (c₁.report e).resume := by
        unfold Parser.recovering
        rw [hrun]
      rw [Parser.bind_ok hok]
      exact ih none (hviews.report e).synchronize
    | outOfFuel =>
      have herror : Parser.recovering s.parser c = .error .outOfFuel c₁ := by
        unfold Parser.recovering
        rw [hrun]
      rw [Parser.bind_error herror]
      exact ⟨rfl, hviews⟩

end SlicePos.Agrees

/-- **A rule looks no further than the first end.** Any script does on a slice what its rule does at
the cursor, and has then looked at nothing behind the first end. -/
theorem Script.onSlice_agrees {α : Type} {tokens : List Token} (s : Script α) {c : Cursor}
    {pl : SlicePos} (h : pl.Views tokens c) :
    SlicePos.Agrees tokens (s.parser c) (s.onSlice tokens pl) := by
  induction s generalizing c pl with
  | done a => exact ⟨rfl, h⟩
  | refuse rule token problem => exact ⟨rfl, h⟩
  | outOfFuel => exact ⟨rfl, h⟩
  | peek k ih =>
    show SlicePos.Agrees tokens ((k c.next).parser c)
      ((k (Slice.peek tokens pl).1).onSlice tokens (Slice.peek tokens pl).2)
    rw [h.peek]
    exact ih _ h.peek_views
  | atEnd k ih =>
    show SlicePos.Agrees tokens ((k c.unread.isEmpty).parser c)
      ((k (Slice.isAtEnd tokens pl).1).onSlice tokens (Slice.isAtEnd tokens pl).2)
    rw [h.isAtEnd]
    exact ih _ h.isAtEnd_views
  | sees p k ih =>
    obtain ⟨hseen, hviews⟩ := h.check (p := p)
    show SlicePos.Agrees tokens ((k (c.sees p)).parser c)
      ((k (Slice.check tokens p pl).1).onSlice tokens (Slice.check tokens p pl).2)
    rw [hseen]
    exact ih _ hviews
  | seesBoth p q hq k ih => exact .seesBoth ih h
  | take p k ih => exact .take ih h
  | report rule token problem k ih => exact ih (h.report ⟨rule, token, problem⟩)
  | freshSite k ih =>
    show SlicePos.Agrees tokens ((k c.nextSite).parser { c with nextSite := c.nextSite + 1 })
      ((k pl.nextSite).onSlice tokens { pl with nextSite := pl.nextSite + 1 })
    rw [h.nextSite]
    exact ih _ ⟨h.current, h.unread, h.stop, h.errors, rfl, h.looked⟩
  | recovering s k ihs ih => exact .recovering ihs ih h

end Lox
