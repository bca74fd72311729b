import Lox.Proofs.Token.Segments

/-!
# Layout does not influence the tokens

Whitespace and comments between two lexemes keep them apart and give no token. So a text that has
the lexemes of another one, in their order and with any layout between them, has the same tokens up
to their lines, and no errors (`scan_laid`).
-/

namespace Lox

/-- What a token says apart from its line. -/
def Token.face (t : Token) : Kind × String :=
  (t.kind, t.lexeme)

namespace Scan

/-! ## Layout -/

/-- Whitespace and complete block comments. -/
inductive Layout : List Char → Prop
  | nil : Layout []
  | space {c : Char} {cs : List Char} (hspace : isSpace c = true) (hrest : Layout cs) :
      Layout (c :: cs)
  | comment {body cs : List Char} (hopen : ¬['*', '/'] <:+: body) (hrest : Layout cs) :
      Layout ('/' :: '*' :: (body ++ '*' :: '/' :: cs))

/-- Layout that keeps lexemes apart: it begins with whitespace. -/
inductive Separator : List Char → Prop
  | mk {c : Char} {cs : List Char} (hspace : isSpace c = true) (hrest : Layout cs) :
      Separator (c :: cs)

/-- The lexemes of the tokens in their order, separated from each other. -/
inductive Laid : List Token → List Char → Prop
  | nil : Laid [] []
  | last (t : Token) : Laid [t] t.lexeme.toList
  | next {t u : Token} {ts : List Token} {separator rest : List Char}
      (hseparator : Separator separator) (hrest : Laid (u :: ts) rest) :
      Laid (t :: u :: ts) (t.lexeme.toList ++ (separator ++ rest))

/-- Layout is cut into blanks, whatever follows it. -/
theorem Layout.pieces_eq {text : List Char} (h : Layout text) (rest : List Char) :
    ∃ blanks : List Piece, (∀ p ∈ blanks, p.content = .blank) ∧
      pieces (text ++ rest) = blanks ++ pieces rest := by
  induction h with
  | nil => exact ⟨[], by simp, rfl⟩
  | @space c cs hspace _ ih =>
    obtain ⟨blanks, hblank, hpieces⟩ := ih
    refine ⟨⟨.blank, [c]⟩ :: blanks, by simpa using hblank, ?_⟩
    rw [List.cons_append, List.cons_append, ← hpieces]
    exact (Segment.space hspace).pieces_eq
  | @comment body cs hopen _ ih =>
    obtain ⟨blanks, hblank, hpieces⟩ := ih
    refine ⟨⟨.blank, '/' :: '*' :: (body ++ ['*', '/'])⟩ :: blanks, by simpa using hblank, ?_⟩
    have hcut := (Segment.blockComment hopen : Segment .blank _ (cs ++ rest)).pieces_eq
    rw [hpieces] at hcut
    simpa using hcut

/-- Blanks give no items. -/
theorem itemsFrom_blanks {blanks : List Piece} (h : ∀ p ∈ blanks, p.content = .blank) (line : Nat)
    (ps : List Piece) :
    itemsFrom line (blanks ++ ps) =
      itemsFrom (line + newlines (blanks.flatMap Piece.text)) ps := by
  rw [itemsFrom_append]
  suffices hnone : itemsOf line blanks = [] by rw [hnone, List.nil_append]
  induction blanks generalizing line with
  | nil => rfl
  | cons p blanks ih =>
    obtain ⟨hp, hblanks⟩ := List.forall_mem_cons.mp h
    rw [itemsOf, ih hblanks, Piece.item?, hp]
    rfl

/-! ## Lexemes before whitespace -/

/-- Only strings hold whitespace. -/
theorem Lexeme.head_of_space {kind : Kind} {c d : Char} {cs : List Char} (h : Lexeme kind (c :: cs))
    (hd : d ∈ cs) (hspace : isSpace d = true) : c = '"' := by
  have hword : isWordRest d = false := space_not_word hspace
  have hpoint : d ≠ '.' := fun heq => absurd hspace (heq ▸ by decide)
  have hdigit : d.isDigit = false := by
    unfold isWordRest Char.isAlphanum at hword
    simp only [Bool.or_eq_false_iff] at hword
    exact hword.1.2
  rcases h.classes with ⟨m, -, hm⟩ | ⟨-, -, hrest⟩ | ⟨hc, -⟩ |
    ⟨-, before, after, -, hdigits, hshape⟩
  · rcases mark_tail hm with rfl | rfl
    · cases hd
    · rw [List.mem_singleton.mp hd] at hspace
      exact absurd hspace (by decide)
  · rw [hrest d hd] at hword
    cases hword
  · exact hc
  · have hmem : d ∈ before ++ after := by
      rcases hshape with ⟨rfl, rfl⟩ | ⟨-, rfl⟩
      · exact List.mem_append_left _ hd
      · rcases List.mem_append.mp hd with hd | hd
        · exact List.mem_append_left _ hd
        · exact List.mem_append_right _ ((List.mem_cons.mp hd).resolve_left hpoint)
    rw [hdigits d hmem] at hdigit
    cases hdigit

/-- A lexeme is the longest where whitespace or the end of the text follows it. -/
theorem Lexeme.longest {kind : Kind} {text rest : List Char} (h : Lexeme kind text)
    (hrest : ∀ c ∈ rest.head?, isSpace c = true) : Longest text (text ++ rest) := by
  intro kind' other hother hstarts
  refine Nat.le_of_not_lt fun hlonger => ?_
  obtain ⟨more, rfl⟩ := List.prefix_of_prefix_length_le (List.prefix_append text rest) hstarts
    (Nat.le_of_lt hlonger)
  obtain ⟨c, cs, rfl⟩ := List.exists_cons_of_ne_nil h.ne_nil
  cases more with
  | nil =>
    rw [List.append_nil] at hlonger
    exact Nat.lt_irrefl _ hlonger
  | cons d more =>
    obtain ⟨after, hafter⟩ := (List.prefix_append_right_inj _).mp hstarts
    have hspace : isSpace d = true := hrest d (by rw [← hafter]; rfl)
    -- The longer one holds whitespace, so both are strings, and the shorter one ends at a quote
    -- that the longer one would hold inside.
    obtain rfl := hother.head_of_space (List.mem_append_right cs List.mem_cons_self) hspace
    obtain ⟨contents, -, rfl, -⟩ := h.of_quote
    obtain ⟨contents', -, hcontents, hquote⟩ := hother.of_quote
    have hbefore : (contents ++ ['"'] ++ d :: more).dropLast = (contents' ++ ['"']).dropLast :=
      congrArg List.dropLast hcontents
    rw [List.dropLast_concat, List.dropLast_append_of_ne_nil (List.cons_ne_nil _ _)] at hbefore
    refine hquote (hbefore ▸ ?_)
    exact List.mem_append_left _ (List.mem_append_right _ List.mem_cons_self)

/-- A lexeme is a segment where whitespace or the end of the text follows it. -/
theorem Lexeme.segment {kind : Kind} {text rest : List Char} (h : Lexeme kind text)
    (hrest : ∀ c ∈ rest.head?, isSpace c = true) : Segment (.token kind) text rest := by
  refine .token h ?_ (h.longest hrest)
  obtain ⟨c, cs, rfl⟩ := List.exists_cons_of_ne_nil h.ne_nil
  intro hopens
  obtain rfl := OpensComment.head hopens
  obtain rfl := slash_lexeme h
  cases rest with
  | nil => rcases hopens with ⟨more, hmore⟩ | ⟨more, hmore⟩ <;> cases hmore
  | cons d ds =>
    have hspace := hrest d rfl
    rcases hopens with ⟨more, hmore⟩ | ⟨more, hmore⟩ <;> cases hmore <;>
      exact absurd hspace (by decide)

/-! ## Texts that are laid out -/

/-- The tokens before the end of a text are lexemes of their kinds. -/
theorem Reading.lexemes {passed : List Char} {ps : List Piece} {items : List Item}
    (h : Reading passed ps items) : ∃ ts line,
      items.filterMap Item.token? = ts ++ [.endOf line] ∧
        ∀ t ∈ ts, Lexeme t.kind t.lexeme.toList := by
  induction h with
  | @done passed => exact ⟨[], _, rfl, by simp⟩
  | @token passed text kind ps items hsegment _ ih =>
    obtain ⟨ts, line, hitems, hts⟩ := ih
    refine ⟨⟨kind, String.ofList text, 1 + newlines (passed ++ text)⟩ :: ts, line, ?_, ?_⟩
    · exact congrArg (_ :: ·) hitems
    · refine List.forall_mem_cons.mpr ⟨?_, hts⟩
      cases hsegment with
      | token hlexeme => simpa using hlexeme
  | blank _ _ ih => exact ih
  | unexpected _ _ ih => exact ih
  | unterminatedString _ _ ih => exact ih
  | unterminatedComment _ _ ih => exact ih

/-- Laid out lexemes give their tokens and nothing else. -/
theorem Laid.items {ts : List Token} {text : List Char} (h : Laid ts text)
    (hts : ∀ t ∈ ts, Lexeme t.kind t.lexeme.toList) (line : Nat) :
    (itemsFrom line (pieces text)).filterMap Item.error? = [] ∧
      ∃ ts' line', (itemsFrom line (pieces text)).filterMap Item.token? = ts' ++ [.endOf line'] ∧
        ts'.map Token.face = ts.map Token.face := by
  induction h generalizing line with
  | nil => exact ⟨rfl, [], line, rfl, rfl⟩
  | last t =>
    have hsegment : Segment (.token t.kind) t.lexeme.toList [] :=
      (hts t List.mem_cons_self).segment (by simp)
    have hpieces := hsegment.pieces_eq
    rw [List.append_nil] at hpieces
    rw [hpieces]
    exact ⟨rfl, [⟨t.kind, String.ofList t.lexeme.toList, line + newlines t.lexeme.toList⟩], _, rfl,
      by simp [Token.face]⟩
  -- the lexeme ends where the separator begins, and the separator is read as blank pieces
  | @next t u ts separator rest hseparator _ ih =>
    obtain ⟨ht, hrest⟩ := List.forall_mem_cons.mp hts
    obtain ⟨blanks, hblank, hblanks⟩ : ∃ blanks : List Piece,
        (∀ p ∈ blanks, p.content = .blank) ∧
          pieces (separator ++ rest) = blanks ++ pieces rest := by
      cases hseparator with
      | mk hspace hlayout => exact (Layout.space hspace hlayout).pieces_eq rest
    have hsegment : Segment (.token t.kind) t.lexeme.toList (separator ++ rest) := by
      refine ht.segment fun d hd => ?_
      cases hseparator with
      | mk hspace _ =>
        cases hd
        exact hspace
    rw [hsegment.pieces_eq, hblanks, itemsFrom_cons, itemsFrom_blanks hblank]
    obtain ⟨herrors, ts', line', htokens, hfaces⟩ := ih hrest
      (line + newlines t.lexeme.toList + newlines (blanks.flatMap Piece.text))
    refine ⟨herrors, ⟨t.kind, String.ofList t.lexeme.toList, _⟩ :: ts', line',
      congrArg (_ :: ·) htokens, ?_⟩
    rw [List.map_cons, List.map_cons, hfaces]
    simp [Token.face]

end Scan

open Scan

/-- The tokens of a text are lexemes of their kinds, and then one end. -/
theorem scanTokens_lexemes (source : String) :
    ∃ ts line, scanTokens source = ts ++ [.endOf line] ∧
      ((scanTokens source).filter fun t => !t.isEnd) = ts ∧
      ∀ t ∈ ts, Lexeme t.kind t.lexeme.toList := by
  obtain ⟨ts, line, htokens, hts⟩ := (pieces_reading [] source.toList).lexemes
  have hopen : ∀ t ∈ ts, (!t.isEnd) = true := by
    intro t ht
    rw [Bool.not_eq_true', Bool.eq_false_iff, ne_eq, Token.isEnd_iff]
    intro hend
    have hlexeme := hts t ht
    rw [hend] at hlexeme
    cases hlexeme
  refine ⟨ts, line, htokens, ?_, hts⟩
  have hscan : scanTokens source = ts ++ [.endOf line] := htokens
  rw [hscan, List.filter_append, List.filter_eq_self.mpr hopen]
  exact List.append_nil ts

/-- A text that has the lexemes of another one, with or without errors, in their order and kept
apart by layout scans without errors to the same tokens up to their lines, and the end. -/
theorem scan_laid (source text : String)
    (hlaid : Laid ((scanTokens source).filter fun t => !t.isEnd) text.toList) :
    scanErrors text = [] ∧ ∃ ts line, scanTokens text = ts ++ [.endOf line] ∧
      ts.map Token.face = ((scanTokens source).filter fun t => !t.isEnd).map Token.face := by
  obtain ⟨ts, line, -, hfilter, hts⟩ := scanTokens_lexemes source
  rw [hfilter] at hlaid ⊢
  exact hlaid.items hts 1

/-- A comment, a line end and two errors do not matter, and a comment in a string is no comment. -/
theorem scan_laid_comments :
    scanErrors "a / \n b \"/*\" /**/ var" = [] ∧ ∃ ts line,
      scanTokens "a / \n b \"/*\" /**/ var" = ts ++ [.endOf line] ∧
        ts.map Token.face =
          ((scanTokens "a/b// c\n\"/*\"@var#").filter fun t => !t.isEnd).map Token.face := by
  refine scan_laid "a/b// c\n\"/*\"@var#" "a / \n b \"/*\" /**/ var" ?_
  have htokens : ((scanTokens "a/b// c\n\"/*\"@var#").filter fun t => !t.isEnd) =
      [⟨.identifier, "a", 1⟩, ⟨.mark .slash, "/", 1⟩, ⟨.identifier, "b", 1⟩,
        ⟨.string "/*", "\"/*\"", 2⟩, ⟨.keyword .varKw, "var", 2⟩] := by
    decide +kernel
  have hblank : Separator [' '] := .mk (by decide) .nil
  have hline : Separator [' ', '\n', ' '] :=
    .mk (by decide) (.space (by decide) (.space (by decide) .nil))
  have hempty : ¬['*', '/'] <:+: [] := by simp
  have hcomment : Separator [' ', '/', '*', '*', '/', ' '] :=
    .mk (by decide) (.comment hempty (.space (by decide) .nil))
  rw [htokens]
  exact .next hblank (.next hline (.next hblank (.next hcomment (.last _))))

end Lox
