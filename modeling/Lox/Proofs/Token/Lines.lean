import Lox.Proofs.Token.Joined

/-!
# Lines are lines of the text

A text has one line more than it has line ends, and all tokens and errors that scanning finds are on
one of them.
-/

namespace Lox

namespace Scan

/-- The line of an item. -/
def Item.line : Item → Nat
  | .token t => t.line
  | .error e => e.line

/-- An item of a piece is on the line on which the piece begins or ends, or between them. -/
theorem Piece.item?_line {line : Nat} {p : Piece} {item : Item} (h : p.item? line = some item) :
    line ≤ item.line ∧ item.line ≤ line + newlines p.text := by
  unfold Piece.item? at h
  split at h
  next => cases h
  next =>
    cases h
    exact ⟨Nat.le_add_right _ _, Nat.le_refl _⟩
  next =>
    cases h
    exact ⟨Nat.le_add_right _ _, Nat.le_refl _⟩
  next =>
    cases h
    exact ⟨Nat.le_refl _, Nat.le_add_right _ _⟩

/-- Items of pieces are on the lines of their text. -/
theorem itemsFrom_line {line : Nat} {ps : List Piece} {item : Item}
    (h : item ∈ itemsFrom line ps) :
    line ≤ item.line ∧ item.line ≤ line + newlines (ps.flatMap Piece.text) := by
  induction ps generalizing line with
  | nil =>
    cases List.mem_singleton.mp h
    exact ⟨Nat.le_refl _, Nat.le_refl _⟩
  | cons p ps ih =>
    have hcount : newlines ((p :: ps).flatMap Piece.text) =
        newlines p.text + newlines (ps.flatMap Piece.text) := by
      rw [List.flatMap_cons]
      exact List.count_append
    rw [hcount]
    -- the rest begins on the line on which the piece ends
    rw [itemsFrom_cons] at h
    rcases List.mem_append.mp h with hitem | hrest
    · have hline := Piece.item?_line (Option.mem_toList.mp hitem)
      omega
    · have hline := ih hrest
      omega

end Scan

variable {source : String}

theorem scan_line {item : Scan.Item} (h : item ∈ scan source) :
    1 ≤ item.line ∧ item.line ≤ 1 + Scan.newlines source.toList := by
  have hline := Scan.itemsFrom_line h
  rwa [Scan.pieces_text] at hline

theorem scanTokens_line {t : Token} (h : t ∈ scanTokens source) :
    1 ≤ t.line ∧ t.line ≤ 1 + Scan.newlines source.toList := by
  obtain ⟨item, hitem, htoken⟩ := List.mem_filterMap.mp h
  have hline := scan_line hitem
  cases item with
  | token t' =>
    cases htoken
    exact hline
  | error e => cases htoken

theorem scanErrors_line {e : LexicalError} (h : e ∈ scanErrors source) :
    1 ≤ e.line ∧ e.line ≤ 1 + Scan.newlines source.toList := by
  obtain ⟨item, hitem, herror⟩ := List.mem_filterMap.mp h
  have hline := scan_line hitem
  cases item with
  | token t => cases herror
  | error e' =>
    cases herror
    exact hline

end Lox
