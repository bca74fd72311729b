import Lox.Token.Scan

/-!
# Pieces tile the text

No piece is empty (`front_text_ne_nil`), and the texts of the pieces, one after the other, are the
text that was cut (`pieces_text`). So every character is in exactly one piece.
-/

namespace Lox.Scan

/-! ## What the first character decides -/

/-- How a piece that begins with a character is cut. -/
inductive Cut : Char → (List Char → Piece × List Char) → Prop
  | space {c : Char} (hspace : isSpace c = true) : Cut c fun cs => (⟨.blank, [c]⟩, cs)
  | slash : Cut '/' slash
  | string : Cut '"' string
  | number {c : Char} (hdigit : c.isDigit = true) : Cut c (number c)
  | word {c : Char} (hstart : isWordStart c = true) : Cut c (word c)
  | either {c : Char} {alone withEqual : Mark} (halone : alone.spelling.toList = [c])
      (hequal : withEqual.spelling.toList = [c, '=']) : Cut c (either c alone withEqual)
  | single {c : Char} {m : Mark} (hm : single? c = some m) :
      Cut c fun cs => (⟨.token (.mark m), [c]⟩, cs)
  | unexpected {c : Char} (hspace : isSpace c = false) (hquote : c ≠ '"')
      (hdigit : c.isDigit = false) (hstart : isWordStart c = false)
      (hmark : ∀ m : Mark, m.spelling.toList.head? ≠ some c) :
      Cut c fun cs => (⟨.error (.unexpected c), [c]⟩, cs)

/-- The piece at the front is cut as its first character says. -/
theorem front_cut (c : Char) : Cut c (front c) := by
  have hcut {cut : List Char → Piece × List Char} (h : Cut c cut)
      (heq : ∀ cs, front c cs = cut cs) : Cut c (front c) := by
    rwa [funext heq]
  by_cases hspace : isSpace c = true
  · exact hcut (.space hspace) fun cs => if_pos hspace
  by_cases hslash : c = '/'
  · subst hslash
    exact .slash
  by_cases hquote : c = '"'
  · subst hquote
    exact .string
  by_cases hdigit : c.isDigit = true
  · exact hcut (.number hdigit) fun cs => by simp [front, hspace, hslash, hquote, hdigit]
  by_cases hstart : isWordStart c = true
  · exact hcut (.word hstart) fun cs => by simp [front, hspace, hslash, hquote, hdigit, hstart]
  by_cases hbang : c = '!'
  · subst hbang
    exact .either rfl rfl
  by_cases hequal : c = '='
  · subst hequal
    exact .either rfl rfl
  by_cases hless : c = '<'
  · subst hless
    exact .either rfl rfl
  by_cases hgreater : c = '>'
  · subst hgreater
    exact .either rfl rfl
  cases hsingle : single? c with
  | some m =>
    refine hcut (.single hsingle) fun cs => ?_
    simp [front, hspace, hslash, hquote, hdigit, hstart, hbang, hequal, hless, hgreater, hsingle]
  | none =>
    have hnone (cs : List Char) : front c cs = (⟨.error (.unexpected c), [c]⟩, cs) := by
      simp [front, hspace, hslash, hquote, hdigit, hstart, hbang, hequal, hless, hgreater, hsingle]
    rw [Bool.not_eq_true] at hspace hdigit hstart
    refine hcut (.unexpected hspace hquote hdigit hstart fun m hm => ?_) hnone
    -- the first characters of all marks have been tried
    cases m <;> cases hm <;> first
      | exact absurd rfl hslash
      | exact absurd rfl hbang
      | exact absurd rfl hequal
      | exact absurd rfl hless
      | exact absurd rfl hgreater
      | exact absurd hsingle (by decide)

/-! ## A piece and what follows it -/

/-- A comment and what follows it are the text. -/
theorem closeComment?_append {cs taken rest : List Char}
    (h : closeComment? cs = some (taken, rest)) : taken ++ rest = cs := by
  fun_induction closeComment? cs generalizing taken rest with
  | case1 => simp at h
  | case2 => simp at h
  | case3 c d cs hcd =>
    obtain ⟨rfl, rfl⟩ := hcd
    simp at h
    simp [← h.1, ← h.2]
  | case4 c d cs hcd ih =>
    simp only [Option.map_eq_some_iff, Prod.mk.injEq, Prod.exists] at h
    obtain ⟨taken', rest', h', rfl, rfl⟩ := h
    simp [ih h']

/-- A word and what follows it are the text. -/
theorem word_append (c : Char) (cs : List Char) :
    (word c cs).1.text ++ (word c cs).2 = c :: cs := by
  simp [word]

/-- A number and what follows it are the text. -/
theorem number_append (c : Char) (cs : List Char) :
    (number c cs).1.text ++ (number c cs).2 = c :: cs := by
  have hcs : cs.takeWhile Char.isDigit ++ cs.dropWhile Char.isDigit = cs :=
    List.takeWhile_append_dropWhile
  unfold number
  simp only
  split
  · next d rest h =>
    rw [h] at hcs
    split <;> simpa using hcs
  · simp

/-- A string and what follows it are the text. -/
theorem string_append (cs : List Char) :
    (string cs).1.text ++ (string cs).2 = '"' :: cs := by
  have hcs : cs.takeWhile (· != '"') ++ cs.dropWhile (· != '"') = cs :=
    List.takeWhile_append_dropWhile
  unfold string
  simp only
  split
  · next q rest h =>
    have hq : q = '"' := by
      have := List.head_dropWhile_not (l := cs) (· != '"') (by rw [h]; exact List.cons_ne_nil _ _)
      simpa [h] using this
    rw [h] at hcs
    subst hq
    simp [hcs]
  · simp

/-- A comment or a slash and what follows it are the text. -/
theorem slash_append (cs : List Char) : (slash cs).1.text ++ (slash cs).2 = '/' :: cs := by
  unfold slash
  split
  · simp
  · next cs =>
    split
    · next taken rest h => simp [closeComment?_append h]
    · simp
  · simp

/-- A mark and what follows it are the text. -/
theorem either_append (c : Char) (alone withEqual : Mark) (cs : List Char) :
    (either c alone withEqual cs).1.text ++ (either c alone withEqual cs).2 = c :: cs := by
  unfold either
  split <;> simp

/-- The piece at the front and what follows it make up the text. -/
theorem front_append (c : Char) (cs : List Char) :
    (front c cs).1.text ++ (front c cs).2 = c :: cs := by
  have hcut := front_cut c
  generalize front c = cut at hcut ⊢
  cases hcut with
  | space | single | unexpected => rfl
  | slash => exact slash_append cs
  | string => exact string_append cs
  | number => exact number_append c cs
  | word => exact word_append c cs
  | either => exact either_append c _ _ cs

/-! ## No piece is empty -/

theorem number_text_ne_nil (c : Char) (cs : List Char) : (number c cs).1.text ≠ [] := by
  unfold number
  simp only
  split
  · split <;> simp
  · simp

theorem slash_text_ne_nil (cs : List Char) : (slash cs).1.text ≠ [] := by
  unfold slash
  split
  · simp
  · split <;> simp
  · simp

theorem string_text_ne_nil (cs : List Char) : (string cs).1.text ≠ [] := by
  unfold string
  simp only
  split <;> simp

theorem either_text_ne_nil (c : Char) (alone withEqual : Mark) (cs : List Char) :
    (either c alone withEqual cs).1.text ≠ [] := by
  unfold either
  split <;> simp

/-- The piece at the front of a text holds at least one character. -/
theorem front_text_ne_nil (c : Char) (cs : List Char) : (front c cs).1.text ≠ [] := by
  have hcut := front_cut c
  generalize front c = cut at hcut ⊢
  cases hcut with
  | space | single | unexpected | word => exact List.cons_ne_nil _ _
  | slash => exact slash_text_ne_nil cs
  | string => exact string_text_ne_nil cs
  | number => exact number_text_ne_nil c cs
  | either => exact either_text_ne_nil c _ _ cs

/-- What follows a piece is shorter than the text. -/
theorem front_rest_length_lt (c : Char) (cs : List Char) :
    (front c cs).2.length < (c :: cs).length := by
  have hlen := congrArg List.length (front_append c cs)
  have hpos := List.length_pos_iff.mpr (front_text_ne_nil c cs)
  rw [List.length_append] at hlen
  omega

/-! ## All pieces -/

/-- The pieces of a text make it up, with fuel for each character. -/
theorem piecesUpTo_text {fuel : Nat} {text : List Char} (h : text.length ≤ fuel) :
    (piecesUpTo fuel text).flatMap Piece.text = text := by
  induction fuel generalizing text with
  | zero =>
    cases text with
    | nil => rfl
    | cons c cs => simp at h
  | succ fuel ih =>
    cases text with
    | nil => rfl
    | cons c cs =>
      have hlt := front_rest_length_lt c cs
      rw [piecesUpTo, List.flatMap_cons, ih (by omega)]
      exact front_append c cs

/-- The texts of the pieces make up the text. -/
theorem pieces_text (text : List Char) : (pieces text).flatMap Piece.text = text :=
  piecesUpTo_text (Nat.le_refl _)

end Lox.Scan
