import Mathlib.Data.List.TakeWhile
import Lox.Proofs.Token.Joined

/-!
# Scanning cuts a text by longest match

`Lexeme` says what can be written for a token of each kind, and `Segment` what may stand in a text
before a rest: whitespace, a comment, the longest lexeme that the text begins with, or the region of
an error. Every text has one division into segments and no other, and `scan` goes through it: each
lexeme and each error is one item with its line, and the end of the text comes last
(`scan_reading`).
-/

namespace Lox.Scan

/-! ## Lexemes and segments -/

/-- What a token of a kind can be written as. -/
inductive Lexeme : Kind → List Char → Prop
  | mark (m : Mark) : Lexeme (.mark m) m.spelling.toList
  | keyword (k : Keyword) : Lexeme (.keyword k) k.spelling.toList
  | identifier {c : Char} {cs : List Char} (hstart : isWordStart c = true)
      (hrest : ∀ d ∈ cs, isWordRest d = true)
      (hreserved : ∀ k : Keyword, k.spelling.toList ≠ c :: cs) : Lexeme .identifier (c :: cs)
  | string {contents : List Char} (hquote : '"' ∉ contents) :
      Lexeme (.string (String.ofList contents)) ('"' :: (contents ++ ['"']))
  | whole {digits : List Char} (hsome : digits ≠ []) (hdigits : ∀ d ∈ digits, d.isDigit = true) :
      Lexeme (.number (Decimal.ofNumeral digits [])) digits
  /-- A dot is part of a number only between digits. -/
  | fraction {before after : List Char} (hbefore : before ≠ []) (hafter : after ≠ [])
      (hdigits : ∀ d ∈ before ++ after, d.isDigit = true) :
      Lexeme (.number (Decimal.ofNumeral before after)) (before ++ '.' :: after)

/-- The text begins a comment. -/
def OpensComment (text : List Char) : Prop :=
  ['/', '/'] <+: text ∨ ['/', '*'] <+: text

/-- No lexeme that the text begins with is longer. -/
def Longest (lexeme text : List Char) : Prop :=
  ∀ kind other, Lexeme kind other → other <+: text → other.length ≤ lexeme.length

/-- What may be the next segment of a text, and what follows it. -/
inductive Segment : Content → List Char → List Char → Prop
  | space {c : Char} {rest : List Char} (hspace : isSpace c = true) : Segment .blank [c] rest
  | lineComment {cs rest : List Char} (hline : '\n' ∉ cs)
      (hend : ∀ c ∈ rest.head?, c = '\n') : Segment .blank ('/' :: '/' :: cs) rest
  | blockComment {body rest : List Char} (hopen : ¬['*', '/'] <:+: body) :
      Segment .blank ('/' :: '*' :: (body ++ ['*', '/'])) rest
  | token {kind : Kind} {text rest : List Char} (hlexeme : Lexeme kind text)
      (hcomment : ¬OpensComment (text ++ rest)) (hlongest : Longest text (text ++ rest)) :
      Segment (.token kind) text rest
  /-- A character that is no whitespace and that no lexeme begins with. -/
  | unexpected {c : Char} {rest : List Char} (hspace : isSpace c = false)
      (hnone : ∀ kind cs, ¬Lexeme kind (c :: cs)) : Segment (.error (.unexpected c)) [c] rest
  | unterminatedString {cs : List Char} (hquote : '"' ∉ cs) :
      Segment (.error .unterminatedString) ('"' :: cs) []
  | unterminatedComment {cs : List Char} (hopen : ¬['*', '/'] <:+: cs) :
      Segment (.error .unterminatedComment) ('/' :: '*' :: cs) []

/-! ## What lexemes begin with -/

/-- The characters that are passed over. -/
theorem isSpace_cases {c : Char} (h : isSpace c = true) :
    c = ' ' ∨ c = '\r' ∨ c = '\t' ∨ c = '\n' := by
  simpa [isSpace, or_assoc] using h

/-- No space goes on a word. -/
theorem space_not_word {c : Char} (h : isSpace c = true) : isWordRest c = false := by
  rcases isSpace_cases h with rfl | rfl | rfl | rfl <;> decide

/-- A digit begins no word. -/
theorem digit_not_wordStart {c : Char} (h : c.isDigit = true) : isWordStart c = false := by
  by_cases hc : c = '_'
  · subst hc
    exact absurd h (by decide)
  · refine Bool.eq_false_iff.mpr fun hstart => ?_
    unfold Char.isDigit at h
    unfold isWordStart Char.isAlpha Char.isUpper Char.isLower at hstart
    simp only [hc, decide_false, Bool.or_false, Bool.or_eq_true, Bool.and_eq_true,
      decide_eq_true_eq, UInt32.le_iff_toNat_le, ge_iff_le] at h hstart
    have hnine : ('9').val.toNat = 57 := rfl
    have hupper : ('A').val.toNat = 65 := rfl
    have hlower : ('a').val.toNat = 97 := rfl
    omega

/-- No mark begins as a space, a word, a number or a string does. -/
theorem mark_head {m : Mark} {c : Char} {cs : List Char} (h : m.spelling.toList = c :: cs) :
    isSpace c = false ∧ isWordStart c = false ∧ c.isDigit = false ∧ c ≠ '"' := by
  have hc : m.spelling.toList.head? = some c := by rw [h]; rfl
  cases m <;> cases hc <;> decide

/-- Every keyword is a word, and is read as itself. -/
theorem keyword_word (k : Keyword) :
    ∃ c cs, k.spelling.toList = c :: cs ∧ isWordStart c = true ∧
      cs.all isWordRest = true ∧ wordKind (c :: cs) = .keyword k := by
  cases k <;> exact ⟨_, _, rfl, by decide, by decide, by decide⟩

/-- A word that is no keyword is an identifier. -/
theorem wordKind_eq_identifier {word : List Char} (h : ∀ k : Keyword, k.spelling.toList ≠ word) :
    wordKind word = .identifier := by
  have hnone : Keyword.ofSpelling? (String.ofList word) = none := by
    refine List.find?_eq_none.mpr fun k _ hk => h k ?_
    rw [of_decide_eq_true hk, String.toList_ofList]
  unfold wordKind
  rw [hnone]

/-- A word is a keyword if it is reserved, else a name. -/
theorem word_lexeme {c : Char} {cs : List Char} (hstart : isWordStart c = true)
    (hrest : ∀ d ∈ cs, isWordRest d = true) : Lexeme (wordKind (c :: cs)) (c :: cs) := by
  by_cases h : ∃ k : Keyword, k.spelling.toList = c :: cs
  · obtain ⟨k, hk⟩ := h
    obtain ⟨c', cs', hk', -, -, hkind⟩ := keyword_word k
    rw [← hk, hk', hkind, ← hk']
    exact .keyword k
  · rw [wordKind_eq_identifier fun k hk => h ⟨k, hk⟩]
    exact .identifier hstart hrest fun k hk => h ⟨k, hk⟩

namespace Lexeme

variable {kind kind' : Kind} {c : Char} {cs text : List Char}

/-- No lexeme is empty. -/
theorem ne_nil (h : Lexeme kind text) : text ≠ [] := by
  cases h with
  | mark m => cases m <;> decide
  | keyword k => cases k <;> decide
  | identifier => exact List.cons_ne_nil _ _
  | string => exact List.cons_ne_nil _ _
  | whole hsome => exact hsome
  | fraction hbefore => exact List.append_ne_nil_of_left_ne_nil hbefore _

/-- A lexeme is a mark, a word, a string or a number, and that says of what kind it is. -/
theorem classes (h : Lexeme kind (c :: cs)) :
    (∃ m, kind = .mark m ∧ m.spelling.toList = c :: cs) ∨
      (kind = wordKind (c :: cs) ∧ isWordStart c = true ∧ ∀ d ∈ cs, isWordRest d = true) ∨
      (c = '"' ∧ ∃ contents, kind = .string (String.ofList contents) ∧
        cs = contents ++ ['"'] ∧ '"' ∉ contents) ∨
      c.isDigit = true ∧ ∃ before after, kind = .number (Decimal.ofNumeral (c :: before) after) ∧
        (∀ d ∈ before ++ after, d.isDigit = true) ∧
        (after = [] ∧ cs = before ∨ after ≠ [] ∧ cs = before ++ '.' :: after) := by
  generalize htext : c :: cs = text at h
  cases h with
  | mark m => exact .inl ⟨m, rfl, rfl⟩
  | keyword k =>
    obtain ⟨c', cs', hk, hstart, hrest, hkind⟩ := keyword_word k
    rw [hk] at htext ⊢
    cases htext
    exact .inr (.inl ⟨hkind.symm, hstart, List.all_eq_true.mp hrest⟩)
  | identifier hstart hrest hreserved =>
    cases htext
    exact .inr (.inl ⟨(wordKind_eq_identifier hreserved).symm, hstart, hrest⟩)
  | string hquote =>
    cases htext
    exact .inr (.inr (.inl ⟨rfl, _, rfl, rfl, hquote⟩))
  | whole hsome hdigits =>
    subst htext
    obtain ⟨hc, hcs⟩ := List.forall_mem_cons.mp hdigits
    exact .inr (.inr (.inr ⟨hc, cs, [], rfl, by rwa [List.append_nil], .inl ⟨rfl, rfl⟩⟩))
  | @fraction before after hbefore hafter hdigits =>
    obtain ⟨d, ds, rfl⟩ := List.exists_cons_of_ne_nil hbefore
    cases htext
    obtain ⟨hc, hcs⟩ := List.forall_mem_cons.mp hdigits
    exact .inr (.inr (.inr ⟨hc, ds, after, rfl, hcs, .inr ⟨hafter, rfl⟩⟩))

/-- Only a name or keyword begins like a word. -/
theorem of_wordStart (h : Lexeme kind (c :: cs)) (hstart : isWordStart c = true)
    (hdigit : c.isDigit = false) (hquote : c ≠ '"') :
    kind = wordKind (c :: cs) ∧ ∀ d ∈ cs, isWordRest d = true := by
  rcases h.classes with ⟨m, -, hm⟩ | ⟨hkind, -, hrest⟩ | ⟨hc, -⟩ | ⟨hc, -⟩
  · rw [(mark_head hm).2.1] at hstart
    cases hstart
  · exact ⟨hkind, hrest⟩
  · exact absurd hc hquote
  · rw [hdigit] at hc
    cases hc

/-- Only a string begins with a quote. -/
theorem of_quote (h : Lexeme kind ('"' :: cs)) : ∃ contents,
    kind = .string (String.ofList contents) ∧ cs = contents ++ ['"'] ∧ '"' ∉ contents := by
  rcases h.classes with ⟨m, -, hm⟩ | ⟨-, hstart, -⟩ | ⟨-, hstring⟩ | ⟨hc, -⟩
  · exact absurd rfl (mark_head hm).2.2.2
  · exact absurd hstart (by decide)
  · exact hstring
  · exact absurd hc (by decide)

/-- Only a number begins with a digit. -/
theorem of_digit (h : Lexeme kind (c :: cs)) (hdigit : c.isDigit = true)
    (hstart : isWordStart c = false) (hquote : c ≠ '"') :
    ∃ before after, kind = .number (Decimal.ofNumeral (c :: before) after) ∧
      (∀ d ∈ before ++ after, d.isDigit = true) ∧
      (after = [] ∧ cs = before ∨ after ≠ [] ∧ cs = before ++ '.' :: after) := by
  rcases h.classes with ⟨m, -, hm⟩ | ⟨-, hc, -⟩ | ⟨hc, -⟩ | ⟨-, hnumber⟩
  · rw [(mark_head hm).2.2.1] at hdigit
    cases hdigit
  · rw [hstart] at hc
    cases hc
  · exact absurd hc hquote
  · exact hnumber

/-- What begins like neither a word nor a string nor a number is a mark. -/
theorem of_mark (h : Lexeme kind (c :: cs)) (hstart : isWordStart c = false)
    (hdigit : c.isDigit = false) (hquote : c ≠ '"') :
    ∃ m, kind = .mark m ∧ m.spelling.toList = c :: cs := by
  rcases h.classes with hmark | ⟨-, hc, -⟩ | ⟨hc, -⟩ | ⟨hc, -⟩
  · exact hmark
  · rw [hstart] at hc
    cases hc
  · exact absurd hc hquote
  · rw [hdigit] at hc
    cases hc

/-- No lexeme begins with whitespace. -/
theorem head_not_space (h : Lexeme kind (c :: cs)) : isSpace c = false := by
  rcases h.classes with ⟨m, -, hm⟩ | ⟨-, hc, -⟩ | ⟨rfl, -⟩ | ⟨hc, -⟩
  · exact (mark_head hm).1
  · refine Bool.eq_false_iff.mpr fun hspace => ?_
    rcases isSpace_cases hspace with rfl | rfl | rfl | rfl <;> exact absurd hc (by decide)
  · decide
  · refine Bool.eq_false_iff.mpr fun hspace => ?_
    rcases isSpace_cases hspace with rfl | rfl | rfl | rfl <;> exact absurd hc (by decide)

end Lexeme

/-! ## Block comments -/

/-- The end of a comment is at the front of a text or further on. -/
theorem star_slash_cons {c : Char} {cs : List Char} :
    ['*', '/'] <:+: c :: cs ↔ (c = '*' ∧ cs.head? = some '/') ∨ ['*', '/'] <:+: cs := by
  rw [List.infix_cons_iff, List.cons_prefix_cons, eq_comm]
  cases cs with
  | nil => simp
  | cons d ds => simp [eq_comm]

/-- A comment is closed by the first `*/` after its opening. -/
theorem closeComment?_some {cs taken rest : List Char} (h : closeComment? cs = some (taken, rest)) :
    ∃ body, taken = body ++ ['*', '/'] ∧ ¬['*', '/'] <:+: body := by
  fun_induction closeComment? cs generalizing taken rest with
  | case1 => cases h
  | case2 => cases h
  | case3 c d cs hcd =>
    cases h
    exact ⟨[], rfl, by simp⟩
  | case4 c d cs hcd ih =>
    obtain ⟨⟨taken', rest'⟩, htaken, heq⟩ := Option.map_eq_some_iff.mp h
    cases heq
    obtain ⟨body, rfl, hopen⟩ := ih htaken
    refine ⟨c :: body, rfl, fun hinfix => ?_⟩
    -- a closing sign in what was passed would have been met, alone or with the character before it
    rcases star_slash_cons.mp hinfix with ⟨hc, hbody⟩ | hinfix
    · have happend := closeComment?_append htaken
      cases body with
      | nil => cases hbody
      | cons e es =>
        cases hbody
        cases happend
        exact hcd ⟨hc, rfl⟩
    · exact hopen hinfix

/-- A comment that is never closed has no `*/` in it. -/
theorem closeComment?_none {cs : List Char} (h : closeComment? cs = none) :
    ¬['*', '/'] <:+: cs := by
  fun_induction closeComment? cs with
  | case1 => simp
  | case2 c => simp [star_slash_cons]
  | case3 c d cs hcd => cases h
  | case4 c d cs hcd ih =>
    rw [Option.map_eq_none_iff] at h
    intro hinfix
    rcases star_slash_cons.mp hinfix with ⟨hc, hd⟩ | hinfix
    · exact hcd ⟨hc, Option.some.inj hd⟩
    · exact ih h hinfix

/-- A comment goes up to the first `*/`, whatever follows. -/
theorem closeComment?_closed {body : List Char} (h : ¬['*', '/'] <:+: body) (rest : List Char) :
    closeComment? (body ++ '*' :: '/' :: rest) = some (body ++ ['*', '/'], rest) := by
  induction body with
  | nil => simp [closeComment?]
  | cons c body ih =>
    rw [star_slash_cons, not_or] at h
    have hrest := ih h.2
    cases body with
    | nil =>
      have hne : ¬(c = '*' ∧ '*' = '/') := fun heq => absurd heq.2 (by decide)
      rw [List.cons_append, List.nil_append, closeComment?, if_neg hne]
      rw [List.nil_append] at hrest
      rw [hrest]
      rfl
    | cons d ds =>
      have hne : ¬(c = '*' ∧ d = '/') := fun heq => h.1 ⟨heq.1, congrArg some heq.2⟩
      rw [List.cons_append, List.cons_append, closeComment?, if_neg hne]
      rw [List.cons_append] at hrest
      rw [hrest]
      rfl

/-! ## The piece at the front is the longest match -/

section Front

variable {c : Char} {cs rest : List Char}

/-- A comment begins with a slash. -/
theorem OpensComment.head (h : OpensComment (c :: cs)) : c = '/' := by
  rcases h with h | h <;> exact (List.cons_prefix_cons.mp h).1.symm

/-- To be the longest lexeme, compare with lexemes that begin with the same character. -/
theorem Longest.of_head {lexeme : List Char} (h : ∀ kind other, Lexeme kind (c :: other) →
    other <+: cs → (c :: other).length ≤ lexeme.length) : Longest lexeme (c :: cs) := by
  intro kind other hother hstarts
  obtain ⟨d, ds, rfl⟩ := List.exists_cons_of_ne_nil hother.ne_nil
  obtain ⟨rfl, hrest⟩ := List.cons_prefix_cons.mp hstarts
  exact h kind ds hother hrest

/-- A token whose lexeme begins no comment. -/
theorem Segment.of_longest {kind : Kind} {text : List Char} (happend : text ++ rest = c :: cs)
    (hslash : c ≠ '/') (hlexeme : Lexeme kind text) (hlongest : Longest text (c :: cs)) :
    Segment (.token kind) text rest := by
  refine .token hlexeme ?_ ?_ <;> rw [happend]
  · exact fun hopens => hslash hopens.head
  · exact hlongest

/-- Characters that all pass, at the front of a text, are among those that are taken. -/
theorem prefix_takeWhile {p : Char → Bool} {some all : List Char} (h : some <+: all)
    (hp : ∀ d ∈ some, p d = true) : some <+: all.takeWhile p := by
  obtain ⟨more, rfl⟩ := h
  rw [List.takeWhile_append_of_pos hp]
  exact List.prefix_append _ _

/-- A word is as long as its characters go. -/
theorem word_segment (hstart : isWordStart c = true) :
    Segment (word c cs).1.content (word c cs).1.text (word c cs).2 := by
  have hslash : c ≠ '/' := fun heq => absurd hstart (heq ▸ by decide)
  have hquote : c ≠ '"' := fun heq => absurd hstart (heq ▸ by decide)
  have hdigit : c.isDigit = false := Bool.eq_false_iff.mpr fun hdigit => by
    rw [digit_not_wordStart hdigit] at hstart
    cases hstart
  refine .of_longest (word_append c cs) hslash (word_lexeme hstart fun _ => List.mem_takeWhile_imp)
    (.of_head fun kind other hother hstarts => ?_)
  have hrest := (hother.of_wordStart hstart hdigit hquote).2
  have hlength := (prefix_takeWhile hstarts hrest).length_le
  exact Nat.succ_le_succ hlength

/-- A point goes on with the number where digits stand on both its sides. -/
theorem number_fraction {before : List Char} {d : Char} (hbefore : ∀ e ∈ before, e.isDigit = true)
    (hd : d.isDigit = true) : number c (before ++ '.' :: d :: rest) =
      (⟨.token (.number (Decimal.ofNumeral (c :: before) (d :: rest.takeWhile Char.isDigit))),
        c :: (before ++ '.' :: d :: rest.takeWhile Char.isDigit)⟩,
        rest.dropWhile Char.isDigit) := by
  have hpoint : ('.').isDigit = false := by decide
  unfold number
  rw [List.takeWhile_append_of_pos hbefore, List.dropWhile_append_of_pos hbefore,
    List.takeWhile_cons_of_neg (by rw [hpoint]; exact Bool.false_ne_true),
    List.dropWhile_cons_of_neg (by rw [hpoint]; exact Bool.false_ne_true), List.append_nil]
  simp only [hd, if_true, List.cons_append]

/-- Elsewhere a number ends with its digits. -/
theorem number_whole (h : ∀ d more, cs.dropWhile Char.isDigit = '.' :: d :: more →
    d.isDigit = false) : number c cs =
      (⟨.token (.number (Decimal.ofNumeral (c :: cs.takeWhile Char.isDigit) [])),
        c :: cs.takeWhile Char.isDigit⟩, cs.dropWhile Char.isDigit) := by
  unfold number
  dsimp only
  split
  next d more hdrop =>
    rw [h d more hdrop, if_neg Bool.false_ne_true, hdrop]
  next => rfl

/-- No number at the front of the text is longer than the one that is taken. -/
theorem number_longest {before after other : List Char}
    (hdigits : ∀ d ∈ before ++ after, d.isDigit = true)
    (hother : after = [] ∧ other = before ∨ after ≠ [] ∧ other = before ++ '.' :: after)
    (hstarts : other <+: cs) : (c :: other).length ≤ (number c cs).1.text.length := by
  rcases hother with ⟨rfl, rfl⟩ | ⟨hafter, rfl⟩
  · rw [List.append_nil] at hdigits
    have hlength := (prefix_takeWhile hstarts hdigits).length_le
    unfold number
    dsimp only
    split
    next =>
      split
      next =>
        rw [List.length_append, List.length_cons, List.length_cons]
        omega
      next => exact Nat.succ_le_succ hlength
    next => exact Nat.succ_le_succ hlength
  · obtain ⟨d, ds, rfl⟩ := List.exists_cons_of_ne_nil hafter
    obtain ⟨more, rfl⟩ := hstarts
    obtain ⟨hbefore, hd, hds⟩ : (∀ e ∈ before, e.isDigit = true) ∧ d.isDigit = true ∧
        ∀ e ∈ ds, e.isDigit = true := by
      rw [List.forall_mem_append, List.forall_mem_cons] at hdigits
      exact hdigits
    -- the text has a digit behind the point too, so the point belongs to the number that is cut
    have htake := (prefix_takeWhile (List.prefix_append ds more) hds).length_le
    rw [List.append_assoc, List.cons_append, List.cons_append, number_fraction hbefore hd]
    simp only [List.length_cons, List.length_append]
    omega

/-- What is taken is a number, with its digits after the point or without. -/
theorem number_lexeme (hdigit : c.isDigit = true) :
    ∃ kind, (number c cs).1.content = .token kind ∧ Lexeme kind (number c cs).1.text := by
  have hcs : cs.takeWhile Char.isDigit ++ cs.dropWhile Char.isDigit = cs :=
    List.takeWhile_append_dropWhile
  have hbefore : ∀ d ∈ c :: cs.takeWhile Char.isDigit, d.isDigit = true :=
    List.forall_mem_cons.mpr ⟨hdigit, fun _ => List.mem_takeWhile_imp⟩
  by_cases hpoint : ∃ d more, cs.dropWhile Char.isDigit = '.' :: d :: more ∧ d.isDigit = true
  · obtain ⟨d, more, hdrop, hd⟩ := hpoint
    rw [hdrop] at hcs
    generalize cs.takeWhile Char.isDigit = before at hcs hbefore
    subst hcs
    rw [number_fraction (List.forall_mem_cons.mp hbefore).2 hd]
    refine ⟨_, rfl, .fraction (List.cons_ne_nil _ _) (List.cons_ne_nil _ _) ?_⟩
    refine List.forall_mem_append.mpr ⟨hbefore, List.forall_mem_cons.mpr ⟨hd, ?_⟩⟩
    exact fun _ => List.mem_takeWhile_imp
  · have hwhole : ∀ d more, cs.dropWhile Char.isDigit = '.' :: d :: more → d.isDigit = false :=
      fun d more hdrop => Bool.eq_false_iff.mpr fun hd => hpoint ⟨d, more, hdrop, hd⟩
    rw [number_whole hwhole]
    exact ⟨_, rfl, .whole (List.cons_ne_nil _ _) hbefore⟩

/-- A number is as long as its digits go; a point is taken if a digit follows. -/
theorem number_segment (hdigit : c.isDigit = true) :
    Segment (number c cs).1.content (number c cs).1.text (number c cs).2 := by
  have hslash : c ≠ '/' := fun heq => absurd hdigit (heq ▸ by decide)
  have hquote : c ≠ '"' := fun heq => absurd hdigit (heq ▸ by decide)
  obtain ⟨kind, hcontent, hlexeme⟩ := @number_lexeme c cs hdigit
  rw [hcontent]
  refine .of_longest (number_append c cs) hslash hlexeme
    (.of_head fun kind other hother hstarts => ?_)
  obtain ⟨before, after, -, hdigits, hshape⟩ :=
    hother.of_digit hdigit (digit_not_wordStart hdigit) hquote
  exact number_longest hdigits hshape hstarts

/-- A string goes up to the next quote, or to the end of the text if there is none. -/
theorem string_segment :
    Segment (string cs).1.content (string cs).1.text (string cs).2 := by
  have hcs : cs.takeWhile (· != '"') ++ cs.dropWhile (· != '"') = cs :=
    List.takeWhile_append_dropWhile
  have hcontents : '"' ∉ cs.takeWhile (· != '"') := fun hmem =>
    absurd (List.mem_takeWhile_imp hmem) (by decide)
  have happend := string_append cs
  unfold string at happend ⊢
  dsimp only at happend ⊢
  cases hdrop : cs.dropWhile (· != '"') with
  | nil =>
    rw [hdrop, List.append_nil] at hcs
    rw [hcs] at hcontents
    exact .unterminatedString hcontents
  | cons quote rest =>
    rw [hdrop] at happend
    refine .of_longest happend (by decide) (.string hcontents)
      (.of_head fun kind other hother hstarts => ?_)
    obtain ⟨contents, -, rfl, hquote⟩ := hother.of_quote
    have hall : ∀ d ∈ contents, (d != '"') = true := fun d hd =>
      bne_iff_ne.mpr fun heq => hquote (heq ▸ hd)
    have hlength := (prefix_takeWhile ((List.prefix_append _ _).trans hstarts) hall).length_le
    simp only [List.length_cons, List.length_append, List.length_nil]
    omega

/-- A slash is a lexeme only alone. -/
theorem slash_lexeme {kind : Kind} (h : Lexeme kind ('/' :: cs)) : cs = [] := by
  obtain ⟨m, -, hm⟩ := h.of_mark (by decide) (by decide) (by decide)
  cases m <;> cases hm
  rfl

/-- A slash begins a comment of one of two kinds, or it is a mark. -/
theorem slash_segment : Segment (slash cs).1.content (slash cs).1.text (slash cs).2 := by
  unfold slash
  split
  next cs =>
    have hcomment : '\n' ∉ cs.takeWhile (· != '\n') := fun hmem =>
      absurd (List.mem_takeWhile_imp hmem) (by decide)
    refine .lineComment hcomment fun c hc => ?_
    have hnot := List.head?_dropWhile_not (· != '\n') cs
    rw [Option.mem_def.mp hc] at hnot
    simpa using hnot
  next cs =>
    split
    next taken rest hclose =>
      obtain ⟨body, rfl, hopen⟩ := closeComment?_some hclose
      exact .blockComment hopen
    next hclose => exact .unterminatedComment (closeComment?_none hclose)
  next hslash hstar =>
    refine .token (.mark .slash) ?_ (.of_head fun kind other hother _ => ?_)
    · rintro (hopens | hopens)
      · obtain ⟨rest, hrest⟩ := hopens
        exact hslash rest (List.cons.inj hrest).2.symm
      · obtain ⟨rest, hrest⟩ := hopens
        exact hstar rest (List.cons.inj hrest).2.symm
    · obtain rfl := slash_lexeme hother
      exact Nat.le_refl _

/-- A mark has one character, or an equals sign after it. -/
theorem mark_tail {m : Mark} (h : m.spelling.toList = c :: cs) : cs = [] ∨ cs = ['='] := by
  cases m <;> cases h <;> decide

/-- Where two marks begin alike, the longer one is taken if it is there. -/
theorem either_segment {alone withEqual : Mark} (halone : alone.spelling.toList = [c])
    (hequal : withEqual.spelling.toList = [c, '=']) :
    Segment (either c alone withEqual cs).1.content (either c alone withEqual cs).1.text
      (either c alone withEqual cs).2 := by
  obtain ⟨-, hstart, hdigit, hquote⟩ := mark_head halone
  have hslash : c ≠ '/' := fun heq => by
    subst heq
    cases withEqual <;> cases hequal
  unfold either
  split
  next cs =>
    refine .of_longest rfl hslash (hequal ▸ .mark withEqual)
      (.of_head fun kind other hother _ => ?_)
    obtain ⟨m, -, hm⟩ := hother.of_mark hstart hdigit hquote
    rcases mark_tail hm with rfl | rfl
    · exact Nat.le_succ 1
    · exact Nat.le_refl 2
  next hnot =>
    refine .of_longest rfl hslash (halone ▸ .mark alone)
      (.of_head fun kind other hother hstarts => ?_)
    obtain ⟨m, -, hm⟩ := hother.of_mark hstart hdigit hquote
    rcases mark_tail hm with rfl | rfl
    · exact Nat.le_refl 1
    · -- the longer mark has an equals sign, and none follows
      obtain ⟨rest, hrest⟩ := hstarts
      exact absurd hrest.symm (hnot rest)

/-- A mark of one character only, and none that something else begins with. -/
theorem single?_some {m : Mark} (h : single? c = some m) :
    m.spelling.toList = [c] ∧ c ≠ '/' ∧ isWordStart c = false ∧ c.isDigit = false ∧ c ≠ '"' := by
  have hc : c ∈ ['(', ')', '\x7b', '\x7d', ',', '.', '-', '+', ';', '*', '?', ':'] := by
    refine Decidable.byContradiction fun hnot => ?_
    simp only [List.mem_cons, List.not_mem_nil, or_false, not_or] at hnot
    simp [single?, hnot] at h
  simp only [List.mem_cons, List.not_mem_nil, or_false] at hc
  rcases hc with rfl | rfl | rfl | rfl | rfl | rfl | rfl | rfl | rfl | rfl | rfl | rfl <;>
    cases h <;> decide

/-- Such a mark is the longest match. -/
theorem single_segment {m : Mark} (h : single? c = some m) :
    Segment (.token (.mark m)) [c] rest := by
  obtain ⟨hspelling, hslash, hstart, hdigit, hquote⟩ := single?_some h
  refine .of_longest rfl hslash (hspelling ▸ .mark m) (.of_head fun kind other hother _ => ?_)
  obtain ⟨m', -, hm'⟩ := hother.of_mark hstart hdigit hquote
  -- no longer mark begins with one of these characters
  rcases mark_tail hm' with rfl | rfl
  · exact Nat.le_refl 1
  · cases m' <;> cases hm' <;> cases h

/-- The piece at the front of a text is its next segment. -/
theorem front_segment (c : Char) (cs : List Char) :
    Segment (front c cs).1.content (front c cs).1.text (front c cs).2 := by
  have hcut := front_cut c
  generalize front c = cut at hcut ⊢
  cases hcut with
  | space hspace => exact .space hspace
  | slash => exact slash_segment
  | string => exact string_segment
  | number hdigit => exact number_segment hdigit
  | word hstart => exact word_segment hstart
  | either halone hequal => exact either_segment halone hequal
  | single hm => exact single_segment hm
  | unexpected hspace hquote hdigit hstart hmark =>
    refine .unexpected hspace fun kind other hother => ?_
    obtain ⟨m, -, hm⟩ := hother.of_mark hstart hdigit hquote
    exact hmark m (congrArg List.head? hm)

/-! ## No other piece is a segment -/

/-- At the start of a word, the word is taken. -/
theorem front_word (hstart : isWordStart c = true) : front c cs = word c cs := by
  have hspace : ¬isSpace c = true := fun h => by
    rcases isSpace_cases h with rfl | rfl | rfl | rfl <;> exact absurd hstart (by decide)
  have hslash : c ≠ '/' := fun h => absurd hstart (h ▸ by decide)
  have hquote : c ≠ '"' := fun h => absurd hstart (h ▸ by decide)
  have hdigit : ¬c.isDigit = true := fun h => by
    rw [digit_not_wordStart h] at hstart
    cases hstart
  rw [front, if_neg hspace, if_neg hslash, if_neg hquote, if_neg hdigit, if_pos hstart]

/-- At a digit, a number is. -/
theorem front_number (hdigit : c.isDigit = true) : front c cs = number c cs := by
  have hspace : ¬isSpace c = true := fun h => by
    rcases isSpace_cases h with rfl | rfl | rfl | rfl <;> exact absurd hdigit (by decide)
  have hslash : c ≠ '/' := fun h => absurd hdigit (h ▸ by decide)
  have hquote : c ≠ '"' := fun h => absurd hdigit (h ▸ by decide)
  rw [front, if_neg hspace, if_neg hslash, if_neg hquote, if_pos hdigit]

/-- A string is cut at its second quote. -/
theorem string_closed {contents : List Char} (hquote : '"' ∉ contents) :
    string (contents ++ '"' :: rest) =
      (⟨.token (.string (String.ofList contents)), '"' :: (contents ++ ['"'])⟩, rest) := by
  have hall : ∀ d ∈ contents, (d != '"') = true := fun d hd =>
    bne_iff_ne.mpr fun heq => hquote (heq ▸ hd)
  unfold string
  rw [List.takeWhile_append_of_pos hall, List.dropWhile_append_of_pos hall]
  simp

/-- A lexeme by itself is cut as one piece. -/
theorem Lexeme.front_eq {kind : Kind} (h : Lexeme kind (c :: cs)) :
    front c cs = (⟨.token kind, c :: cs⟩, []) := by
  rcases h.classes with ⟨m, rfl, hm⟩ | ⟨rfl, hstart, hrest⟩ | ⟨rfl, contents, rfl, rfl, hquote⟩ |
    ⟨hdigit, before, after, rfl, hdigits, ⟨rfl, rfl⟩ | ⟨hafter, rfl⟩⟩
  · cases m <;> cases hm <;> rfl
  · rw [front_word hstart, word, List.takeWhile_eq_self_iff.mpr hrest,
      List.dropWhile_eq_nil_iff.mpr hrest]
  · exact string_closed hquote
  · rw [List.append_nil] at hdigits
    have hdrop := List.dropWhile_eq_nil_iff.mpr hdigits
    have hend : ∀ d more, cs.dropWhile Char.isDigit = '.' :: d :: more → d.isDigit = false := by
      intro d more h
      rw [hdrop] at h
      cases h
    rw [front_number hdigit, number_whole hend, List.takeWhile_eq_self_iff.mpr hdigits, hdrop]
  · obtain ⟨d, ds, rfl⟩ := List.exists_cons_of_ne_nil hafter
    obtain ⟨hbefore, hd, hds⟩ : (∀ e ∈ before, e.isDigit = true) ∧ d.isDigit = true ∧
        ∀ e ∈ ds, e.isDigit = true := by
      rw [List.forall_mem_append, List.forall_mem_cons] at hdigits
      exact hdigits
    rw [front_number hdigit, number_fraction hbefore hd, List.takeWhile_eq_self_iff.mpr hds,
      List.dropWhile_eq_nil_iff.mpr hds]

/-- A text is a lexeme of one kind only. -/
theorem Lexeme.kind_unique {kind kind' : Kind} {text : List Char} (h : Lexeme kind text)
    (h' : Lexeme kind' text) : kind = kind' := by
  obtain ⟨c, cs, rfl⟩ := List.exists_cons_of_ne_nil h.ne_nil
  have hboth := h.front_eq.symm.trans h'.front_eq
  injection hboth with hpiece
  injection hpiece with hcontent
  exact Content.token.inj hcontent

/-- A comment up to the end of its line. -/
theorem front_lineComment (hline : '\n' ∉ cs) (hend : ∀ d ∈ rest.head?, d = '\n') :
    front '/' ('/' :: (cs ++ rest)) = (⟨.blank, '/' :: '/' :: cs⟩, rest) := by
  have hall : ∀ d ∈ cs, (d != '\n') = true := fun d hd =>
    bne_iff_ne.mpr fun heq => hline (heq ▸ hd)
  show (Piece.mk .blank ('/' :: '/' :: (cs ++ rest).takeWhile (· != '\n')),
    (cs ++ rest).dropWhile (· != '\n')) = _
  rw [List.takeWhile_append_of_pos hall, List.dropWhile_append_of_pos hall]
  cases rest with
  | nil => simp
  | cons d more =>
    have hd : d = '\n' := hend d rfl
    simp [hd]

/-- A comment up to its closing. -/
theorem front_blockComment {body : List Char} (hopen : ¬['*', '/'] <:+: body) :
    front '/' ('*' :: (body ++ '*' :: '/' :: rest)) =
      (⟨.blank, '/' :: '*' :: (body ++ ['*', '/'])⟩, rest) := by
  show slash ('*' :: (body ++ '*' :: '/' :: rest)) = _
  rw [slash_star, closeComment?_closed hopen]

/-- A comment that is not closed is taken up to the end of the text. -/
theorem front_openComment (hopen : ¬['*', '/'] <:+: cs) :
    front '/' ('*' :: cs) = (⟨.error .unterminatedComment, '/' :: '*' :: cs⟩, []) := by
  show slash ('*' :: cs) = _
  rw [slash_star]
  cases hclose : closeComment? cs with
  | none => rfl
  | some result =>
    obtain ⟨taken, more⟩ := result
    obtain ⟨body, rfl, -⟩ := closeComment?_some hclose
    rw [← closeComment?_append hclose] at hopen
    exact absurd ⟨body, more, rfl⟩ hopen

/-- A string that is not closed is taken up to the end of the text. -/
theorem front_openString (hquote : '"' ∉ cs) :
    front '"' cs = (⟨.error .unterminatedString, '"' :: cs⟩, []) := by
  have hall : ∀ d ∈ cs, (d != '"') = true := fun d hd =>
    bne_iff_ne.mpr fun heq => hquote (heq ▸ hd)
  show string cs = _
  unfold string
  rw [List.dropWhile_eq_nil_iff.mpr hall]

/-- A character that no lexeme begins with is a piece by itself. -/
theorem front_unexpected (hspace : isSpace c = false) (hnone : ∀ kind cs, ¬Lexeme kind (c :: cs)) :
    front c cs = (⟨.error (.unexpected c), [c]⟩, cs) := by
  have hcut := front_cut c
  generalize front c = cut at hcut ⊢
  cases hcut with
  | space h =>
    rw [h] at hspace
    cases hspace
  | slash => exact absurd (.mark .slash) (hnone _ _)
  | string => exact absurd (.string List.not_mem_nil) (hnone _ _)
  | number hdigit =>
    exact absurd (.whole (List.cons_ne_nil _ _) (by simpa using hdigit)) (hnone _ [])
  | word hstart => exact absurd (word_lexeme hstart (by simp)) (hnone _ [])
  | either halone => exact absurd (halone ▸ Lexeme.mark _) (hnone _ [])
  | single hm => exact absurd ((single?_some hm).1 ▸ Lexeme.mark _) (hnone _ [])
  | unexpected => rfl

/-- The longest lexeme is the piece at the front, whatever follows. -/
theorem front_token {kind : Kind} {text : List Char} (happend : text ++ rest = c :: cs)
    (hlexeme : Lexeme kind text) (hcomment : ¬OpensComment (c :: cs))
    (hlongest : Longest text (c :: cs)) : front c cs = (⟨.token kind, text⟩, rest) := by
  have hstarts : text <+: c :: cs := ⟨rest, happend⟩
  obtain ⟨others, rfl⟩ : ∃ others, text = c :: others := by
    obtain ⟨d, ds, rfl⟩ := List.exists_cons_of_ne_nil hlexeme.ne_nil
    exact ⟨ds, by rw [(List.cons_prefix_cons.mp hstarts).1]⟩
  have hfront := front_segment c cs
  have hwhole := front_append c cs
  generalize front c cs = result at hfront hwhole
  obtain ⟨⟨content, text'⟩, rest'⟩ := result
  dsimp only at hfront hwhole
  cases hfront with
  | space hspace =>
    cases hwhole
    rw [hlexeme.head_not_space] at hspace
    cases hspace
  | lineComment =>
    exact absurd (.inl ⟨_, hwhole⟩) hcomment
  | blockComment =>
    exact absurd (.inr ⟨_, hwhole⟩) hcomment
  | token hlexeme' _ hlongest' =>
    have hstarts' : text' <+: c :: cs := ⟨rest', hwhole⟩
    rw [hwhole] at hlongest'
    -- both are longest, and so they are beginnings of the text of the same length
    have hlength := Nat.le_antisymm (hlongest' _ _ hlexeme hstarts)
      (hlongest _ _ hlexeme' hstarts')
    have htexts := List.prefix_of_prefix_length_le hstarts hstarts' (Nat.le_of_eq hlength)
    obtain rfl := htexts.eq_of_length hlength
    rw [hlexeme.kind_unique hlexeme', List.append_cancel_left (happend.trans hwhole.symm)]
  | unexpected _ hnone =>
    cases hwhole
    exact absurd hlexeme (hnone _ _)
  | unterminatedString hquote =>
    rw [List.append_nil] at hwhole
    cases hwhole
    obtain ⟨contents, -, rfl, -⟩ := hlexeme.of_quote
    refine absurd ((List.cons_prefix_cons.mp hstarts).2.subset ?_) hquote
    exact List.mem_append_right _ List.mem_cons_self
  | unterminatedComment =>
    exact absurd (.inr ⟨_, hwhole⟩) hcomment

/-- A segment is the piece at the front of the text that it begins. -/
theorem Segment.front_eq {content : Content} {text : List Char} (h : Segment content text rest)
    (happend : text ++ rest = c :: cs) : front c cs = (⟨content, text⟩, rest) := by
  -- each kind of segment is told by the characters with which it begins
  cases h with
  | space hspace =>
    cases happend
    rw [front, if_pos hspace]
    rfl
  | lineComment hline hend =>
    cases happend
    exact front_lineComment hline hend
  | blockComment hopen =>
    simp only [List.cons_append, List.append_assoc, List.nil_append] at happend
    cases happend
    exact front_blockComment hopen
  | token hlexeme hcomment hlongest =>
    rw [happend] at hcomment hlongest
    exact front_token happend hlexeme hcomment hlongest
  | unexpected hspace hnone =>
    cases happend
    exact front_unexpected hspace hnone
  | unterminatedString hquote =>
    rw [List.append_nil] at happend
    cases happend
    exact front_openString hquote
  | unterminatedComment hopen =>
    rw [List.append_nil] at happend
    cases happend
    exact front_openComment hopen

end Front

/-! ## Whole texts -/

/-- No segment is empty, so a text has an end. -/
theorem Segment.text_ne_nil {content : Content} {text rest : List Char}
    (h : Segment content text rest) : text ≠ [] := by
  cases h with
  | token hlexeme => exact hlexeme.ne_nil
  | _ => exact List.cons_ne_nil _ _

/-- A segment is cut off, and then the rest of the text is cut. -/
theorem Segment.pieces_eq {content : Content} {text rest : List Char}
    (h : Segment content text rest) : pieces (text ++ rest) = ⟨content, text⟩ :: pieces rest := by
  obtain ⟨c, cs, htext⟩ := List.exists_cons_of_ne_nil
    (List.append_ne_nil_of_left_ne_nil h.text_ne_nil rest)
  rw [htext, pieces_cons, h.front_eq htext]

/-- What scanning makes of the segments of a text that stand after the text `passed`: the tokens and
errors with their lines, and the end of the text. -/
inductive Reading : List Char → List Piece → List Item → Prop
  | done {passed : List Char} : Reading passed [] [.token (.endOf (1 + newlines passed))]
  | blank {passed text : List Char} {ps : List Piece} {items : List Item}
      (hsegment : Segment .blank text (ps.flatMap Piece.text))
      (hrest : Reading (passed ++ text) ps items) : Reading passed (⟨.blank, text⟩ :: ps) items
  /-- A token is on the line on which its lexeme ends. -/
  | token {passed text : List Char} {kind : Kind} {ps : List Piece} {items : List Item}
      (hsegment : Segment (.token kind) text (ps.flatMap Piece.text))
      (hrest : Reading (passed ++ text) ps items) :
      Reading passed (⟨.token kind, text⟩ :: ps)
        (.token ⟨kind, String.ofList text, 1 + newlines (passed ++ text)⟩ :: items)
  | unexpected {passed text : List Char} {c : Char} {ps : List Piece} {items : List Item}
      (hsegment : Segment (.error (.unexpected c)) text (ps.flatMap Piece.text))
      (hrest : Reading (passed ++ text) ps items) :
      Reading passed (⟨.error (.unexpected c), text⟩ :: ps)
        (.error ⟨1 + newlines passed, .unexpected c⟩ :: items)
  /-- An unterminated string is on the last line. -/
  | unterminatedString {passed text : List Char} {ps : List Piece} {items : List Item}
      (hsegment : Segment (.error .unterminatedString) text (ps.flatMap Piece.text))
      (hrest : Reading (passed ++ text) ps items) :
      Reading passed (⟨.error .unterminatedString, text⟩ :: ps)
        (.error ⟨1 + newlines (passed ++ text), .unterminatedString⟩ :: items)
  /-- An unterminated comment is on the line of its opening. -/
  | unterminatedComment {passed text : List Char} {ps : List Piece} {items : List Item}
      (hsegment : Segment (.error .unterminatedComment) text (ps.flatMap Piece.text))
      (hrest : Reading (passed ++ text) ps items) :
      Reading passed (⟨.error .unterminatedComment, text⟩ :: ps)
        (.error ⟨1 + newlines passed, .unterminatedComment⟩ :: items)

/-- The line after two texts, one behind the other. -/
theorem lines_append (passed text : List Char) :
    1 + newlines (passed ++ text) = 1 + newlines passed + newlines text := by
  rw [newlines, List.count_append, Nat.add_assoc]
  rfl

/-- What is scanned from a text is a reading of its pieces. -/
theorem pieces_reading (passed text : List Char) :
    Reading passed (pieces text) (itemsFrom (1 + newlines passed) (pieces text)) := by
  induction hlength : text.length using Nat.strongRecOn generalizing passed text with
  | _ n ih =>
    cases text with
    | nil => exact .done
    | cons c cs =>
      -- a segment is never empty, so what is left to scan is shorter
      have hrest (passed : List Char) := ih _ (hlength ▸ front_rest_length_lt c cs) passed _ rfl
      have hsegment := front_segment c cs
      rw [pieces_cons, itemsFrom_cons]
      generalize front c cs = result at hrest hsegment
      obtain ⟨⟨content, text⟩, rest⟩ := result
      dsimp only at hrest hsegment ⊢
      have hnext := hrest (passed ++ text)
      have hlines := lines_append passed text
      rw [← pieces_text rest] at hsegment
      cases content with
      | blank =>
        have hread := Reading.blank hsegment hnext
        rwa [hlines] at hread
      | token kind =>
        have hread := Reading.token hsegment hnext
        rwa [hlines] at hread
      | error cause =>
        cases cause with
        | unexpected d =>
          have hread := Reading.unexpected hsegment hnext
          rwa [hlines] at hread
        | unterminatedString =>
          have hread := Reading.unterminatedString hsegment hnext
          rwa [hlines] at hread
        | unterminatedComment =>
          have hread := Reading.unterminatedComment hsegment hnext
          rwa [hlines] at hread

/-- A segment and the pieces behind it are the pieces of the whole. -/
theorem Segment.divides {content : Content} {text : List Char} {ps : List Piece}
    (h : Segment content text (ps.flatMap Piece.text)) (hps : ps = pieces (ps.flatMap Piece.text)) :
    ⟨content, text⟩ :: ps = pieces ((Piece.mk content text :: ps).flatMap Piece.text) := by
  rw [List.flatMap_cons, h.pieces_eq, ← hps]

/-- Only the pieces of a text divide it into segments, and only their items are read from them. -/
theorem Reading.unique {passed : List Char} {ps : List Piece} {items : List Item}
    (h : Reading passed ps items) :
    ps = pieces (ps.flatMap Piece.text) ∧ items = itemsFrom (1 + newlines passed) ps := by
  induction h with
  | done => exact ⟨rfl, rfl⟩
  | blank hsegment _ ih =>
    refine ⟨hsegment.divides ih.1, ?_⟩
    rw [itemsFrom_cons, ← lines_append, ih.2]
    rfl
  | token hsegment _ ih =>
    refine ⟨hsegment.divides ih.1, ?_⟩
    rw [itemsFrom_cons, Piece.item?, ← lines_append, ih.2]
    rfl
  | unexpected hsegment _ ih =>
    refine ⟨hsegment.divides ih.1, ?_⟩
    rw [itemsFrom_cons, ← lines_append, ih.2]
    rfl
  | unterminatedString hsegment _ ih =>
    refine ⟨hsegment.divides ih.1, ?_⟩
    rw [itemsFrom_cons, Piece.item?, ← lines_append, ih.2]
    rfl
  | unterminatedComment hsegment _ ih =>
    refine ⟨hsegment.divides ih.1, ?_⟩
    rw [itemsFrom_cons, ← lines_append, ih.2]
    rfl

/-- The bytes of pieces one after the other. -/
def bytesOf : List Piece → ByteArray
  | [] => ByteArray.empty
  | p :: ps => (String.ofList p.text).toByteArray ++ bytesOf ps

/-- The bytes of the pieces are those of their text. -/
theorem bytesOf_eq (ps : List Piece) :
    bytesOf ps = (String.ofList (ps.flatMap Piece.text)).toByteArray := by
  induction ps with
  | nil => rfl
  | cons p ps ih =>
    rw [bytesOf, ih, List.flatMap_cons, String.ofList_append, String.toByteArray_append]

end Lox.Scan

namespace Lox

open Scan

/-- Scanning divides a text into segments, each the longest match where it stands, and into no
others. Every byte is in one of them, every cut falls between characters, and the items are those of
the segments in their order, with their lines, and one end of the text. -/
theorem scan_reading (source : String) :
    ∃ ps : List Piece, ps.flatMap Piece.text = source.toList ∧ Reading [] ps (scan source) ∧
      (∀ qs items, qs.flatMap Piece.text = source.toList → Reading [] qs items →
        qs = ps ∧ items = scan source) ∧
      bytesOf ps = source.toByteArray ∧
      ∀ before after, ps = before ++ after →
        String.Pos.Raw.IsValid source ⟨(bytesOf before).size⟩ := by
  have htext := pieces_text source.toList
  refine ⟨pieces source.toList, htext, pieces_reading [] source.toList, ?_, ?_, ?_⟩
  · intro qs items hqs hreading
    obtain ⟨hpieces, hitems⟩ := hreading.unique
    rw [hqs] at hpieces
    subst hpieces
    exact ⟨rfl, hitems⟩
  · rw [bytesOf_eq, htext, String.ofList_toList]
  · intro before after hcut
    refine String.Pos.Raw.isValid_iff_exists_append.mpr
      ⟨String.ofList (before.flatMap Piece.text), String.ofList (after.flatMap Piece.text), ?_, ?_⟩
    · rw [← String.ofList_append, ← List.flatMap_append, ← hcut, htext, String.ofList_toList]
    · rw [bytesOf_eq]
      rfl

end Lox
