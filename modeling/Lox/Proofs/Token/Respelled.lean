import Lox.Proofs.Grammar.Renamed
import Lox.Proofs.Token.Segments
import Lox.Proofs.Token.Spelled

/-!
# Names changed in a text

Where another name is written in place of a name, the text is cut as before: whatever ended in front
of the one name ends in front of the other, since both begin like words, and the new name ends where
the old one did. So some of the tokens of a text may be given a new name, in the text itself
(`scan_respelled`). No other token is touched and none comes to stand on another line.
-/

namespace Lox.Scan

/-! ## What a lexeme sees behind it -/

/-- The texts are the same up to where both end or a word begins in both. -/
inductive Ahead : List Char → List Char → Prop
  | nil : Ahead [] []
  | word {c c' : Char} {cs cs' : List Char} (hc : isWordStart c = true)
      (hc' : isWordStart c' = true) : Ahead (c :: cs) (c' :: cs')
  | cons (c : Char) {cs cs' : List Char} (h : Ahead cs cs') : Ahead (c :: cs) (c :: cs')

namespace Ahead

variable {rest rest' : List Char}

theorem append (text : List Char) (h : Ahead rest rest') :
    Ahead (text ++ rest) (text ++ rest') := by
  induction text with
  | nil => exact h
  | cons c text ih => exact ih.cons c

/-- What the one text begins with the other begins with too, up to the word at most. -/
theorem starts (h : Ahead rest rest') {more : List Char} (hmore : more <+: rest') :
    more <+: rest ∨ ∃ before c c' after, more = before ++ c' :: after ∧
      before ++ [c] <+: rest ∧ isWordStart c = true ∧ isWordStart c' = true := by
  induction h generalizing more with
  | nil => exact .inl hmore
  | @word c c' cs cs' hc hc' =>
    cases more with
    | nil => exact .inl (List.nil_prefix)
    | cons d after =>
      obtain ⟨rfl, -⟩ := List.cons_prefix_cons.mp hmore
      exact .inr ⟨[], c, d, after, rfl, List.cons_prefix_cons.mpr ⟨rfl, List.nil_prefix⟩, hc, hc'⟩
  | cons c _ ih =>
    cases more with
    | nil => exact .inl (List.nil_prefix)
    | cons d more =>
      obtain ⟨rfl, hrest⟩ := List.cons_prefix_cons.mp hmore
      rcases ih hrest with hstarts | ⟨before, e, e', after, rfl, hbefore, he, he'⟩
      · exact .inl (List.cons_prefix_cons.mpr ⟨rfl, hstarts⟩)
      · exact .inr ⟨d :: before, e, e', after, rfl, List.cons_prefix_cons.mpr ⟨rfl, hbefore⟩, he,
          he'⟩

end Ahead

/-- Only words go on with a character that begins a word, and they go on with every such one. -/
theorem Lexeme.before_word {kind kind' : Kind} {text before after : List Char} {c c' : Char}
    (h : Lexeme kind text) (hother : Lexeme kind' (text ++ (before ++ c' :: after)))
    (hc : isWordStart c = true) (hc' : isWordStart c' = true) :
    ∃ kind, Lexeme kind (text ++ (before ++ [c])) := by
  obtain ⟨d, ds, rfl⟩ := List.exists_cons_of_ne_nil h.ne_nil
  have hmem : c' ∈ ds ++ (before ++ c' :: after) := by simp
  rw [List.cons_append] at hother ⊢
  -- by the class of the longer lexeme: a mark, a word, a string or a number
  rcases hother.classes with ⟨m, -, hm⟩ | ⟨-, hstart, hrest⟩ |
    ⟨rfl, contents, -, hcontents, hquote⟩ | ⟨-, digits, more, -, hdigits, hshape⟩
  · rcases mark_tail hm with hnone | hequal
    · rw [hnone] at hmem
      cases hmem
    · rw [hequal] at hmem
      rw [List.mem_singleton.mp hmem] at hc'
      exact absurd hc' (by decide)
  · refine ⟨_, word_lexeme hstart fun e he => ?_⟩
    rw [List.mem_append, List.mem_append, List.mem_singleton] at he
    rcases he with he | he | rfl
    · exact hrest e (by simp [he])
    · exact hrest e (by simp [he])
    · exact isWordRest_of_isWordStart hc
  · -- the string ended before, so there would be a quote inside the longer one
    obtain ⟨contents', -, rfl, -⟩ := h.of_quote
    have hlast := congrArg List.dropLast hcontents
    rw [List.dropLast_concat] at hlast
    refine absurd ?_ hquote
    rw [← hlast, List.append_assoc, List.dropLast_append_of_ne_nil (by simp),
      List.singleton_append, List.dropLast_cons_of_ne_nil (by simp)]
    simp
  · have hdigit : c'.isDigit = true ∨ c' = '.' := by
      rcases hshape with ⟨rfl, heq⟩ | ⟨-, heq⟩
      · rw [heq] at hmem
        exact .inl (hdigits c' (List.mem_append_left _ hmem))
      · rw [heq, List.mem_append, List.mem_cons] at hmem
        rcases hmem with hmem | rfl | hmem
        · exact .inl (hdigits c' (List.mem_append_left _ hmem))
        · exact .inr rfl
        · exact .inl (hdigits c' (List.mem_append_right _ hmem))
    rcases hdigit with hdigit | rfl
    · rw [digit_not_wordStart hdigit] at hc'
      cases hc'
    · exact absurd hc' (by decide)

variable {text rest rest' : List Char}

/-- A lexeme stays the longest. -/
theorem Longest.ahead {kind : Kind} (h : Longest text (text ++ rest)) (hlexeme : Lexeme kind text)
    (hahead : Ahead rest rest') : Longest text (text ++ rest') := by
  intro kind' other hother hstarts
  refine Nat.le_of_not_lt fun hlonger => ?_
  obtain ⟨more, rfl⟩ := List.prefix_of_prefix_length_le (List.prefix_append text rest') hstarts
    (Nat.le_of_lt hlonger)
  -- the longer lexeme stands before the word in front of both texts, or it takes some of the word
  rcases hahead.starts ((List.prefix_append_right_inj _).mp hstarts) with
    hmore | ⟨before, c, c', after, rfl, hbefore, hc, hc'⟩
  · exact Nat.not_lt.mpr (h _ _ hother ((List.prefix_append_right_inj _).mpr hmore)) hlonger
  · obtain ⟨kind, hword⟩ := hlexeme.before_word hother hc hc'
    have hshort := h _ _ hword ((List.prefix_append_right_inj _).mpr hbefore)
    rw [List.length_append, List.length_append, List.length_singleton] at hshort
    omega

/-- No comment is opened by the new word behind a lexeme. -/
theorem OpensComment.ahead {kind : Kind} (h : OpensComment (text ++ rest'))
    (hlexeme : Lexeme kind text) (hahead : Ahead rest rest') : OpensComment (text ++ rest) := by
  obtain ⟨d, ds, rfl⟩ := List.exists_cons_of_ne_nil hlexeme.ne_nil
  obtain rfl : d = '/' := h.head
  obtain rfl := slash_lexeme hlexeme
  have hsecond (c : Char) (hc : isWordStart c = false) (hopens : ['/', c] <+: '/' :: rest') :
      ['/', c] <+: '/' :: rest := by
    refine List.cons_prefix_cons.mpr ⟨rfl, ?_⟩
    rcases hahead.starts (List.cons_prefix_cons.mp hopens).2 with
      hstarts | ⟨before, d, d', after, heq, -, -, hd'⟩
    · exact hstarts
    · have hmem : d' ∈ [c] := by rw [heq]; simp
      rw [List.mem_singleton.mp hmem, hc] at hd'
      cases hd'
  exact h.imp (hsecond '/' (by decide)) (hsecond '*' (by decide))

/-- A segment stays one if what follows it changes only from where a word begins. -/
theorem Segment.ahead {content : Content} (h : Segment content text rest)
    (hahead : Ahead rest rest') : Segment content text rest' := by
  cases h with
  | space hspace => exact .space hspace
  | lineComment hline hend =>
    -- a comment to the end of the line is followed by that end and by no word
    refine .lineComment hline ?_
    cases hahead with
    | nil => exact hend
    | word hc hc' =>
      rw [hend _ rfl] at hc
      exact absurd hc (by decide)
    | cons c _ => exact hend
  | blockComment hopen => exact .blockComment hopen
  | token hlexeme hcomment hlongest =>
    exact .token hlexeme (fun hopens => hcomment (hopens.ahead hlexeme hahead))
      (hlongest.ahead hlexeme hahead)
  | unexpected hspace hnone => exact .unexpected hspace hnone
  | unterminatedString hquote =>
    cases hahead
    exact .unterminatedString hquote
  | unterminatedComment hopen =>
    cases hahead
    exact .unterminatedComment hopen

/-- Behind a name, if it is the longest lexeme, there is nothing that it could go on with. -/
theorem Lexeme.name_ends {name : List Char} (h : Lexeme .identifier name)
    (hlongest : Longest name (name ++ rest)) : ∀ c ∈ rest.head?, isWordRest c = false := by
  intro c hc
  obtain ⟨cs, rfl⟩ : ∃ cs, rest = c :: cs := List.head?_eq_some_iff.mp hc
  refine Bool.eq_false_iff.mpr fun hword => ?_
  cases h with
  | @identifier d ds hstart hrest =>
    have hlonger : Lexeme (wordKind (d :: (ds ++ [c]))) (d :: (ds ++ [c])) :=
      word_lexeme hstart (List.forall_mem_append.mpr ⟨hrest, by simpa using hword⟩)
    have hlength := hlongest _ _ hlonger ⟨cs, by simp⟩
    simp only [List.length_cons, List.length_append, List.length_nil] at hlength
    omega

/-- A name is the longest lexeme where it is not gone on with. -/
theorem Lexeme.name_longest {name : List Char} (h : Lexeme .identifier name)
    (hends : ∀ c ∈ rest.head?, isWordRest c = false) : Longest name (name ++ rest) := by
  intro kind other hother hstarts
  refine Nat.le_of_not_lt fun hlonger => ?_
  obtain ⟨more, rfl⟩ := List.prefix_of_prefix_length_le (List.prefix_append name rest) hstarts
    (Nat.le_of_lt hlonger)
  have hmore : more <+: rest := (List.prefix_append_right_inj _).mp hstarts
  cases more with
  | nil =>
    rw [List.append_nil] at hlonger
    exact Nat.lt_irrefl _ hlonger
  | cons c more =>
    obtain ⟨cs, rfl⟩ := hmore
    have hstop := hends c rfl
    cases h with
    | @identifier d ds hstart hrest =>
      have hdigit : d.isDigit = false := Bool.eq_false_iff.mpr fun hdigit => by
        rw [digit_not_wordStart hdigit] at hstart
        cases hstart
      have hquote : d ≠ '"' := fun heq => by
        rw [heq] at hstart
        exact absurd hstart (by decide)
      rw [List.cons_append] at hother
      -- a longer lexeme would be a word too and go on with `c`
      have hword := (hother.of_wordStart hstart hdigit hquote).2 c (by simp)
      rw [hstop] at hword
      cases hword

/-- A name may be written in place of another. -/
theorem Segment.respelled {old new : List Char} (h : Segment (.token .identifier) old rest)
    (hold : Lexeme .identifier old) (hnew : Lexeme .identifier new) (hahead : Ahead rest rest') :
    Segment (.token .identifier) new rest' := by
  have hends : ∀ c ∈ rest'.head?, isWordRest c = false := by
    -- behind the old name stands nothing that goes on a word, so no word begins there
    have hends : ∀ c ∈ rest.head?, isWordRest c = false := by
      cases h with
      | token _ _ hlongest => exact hold.name_ends hlongest
    cases hahead with
    | nil => exact hends
    | word hc hc' =>
      have hword := hends _ rfl
      rw [isWordRest_of_isWordStart hc] at hword
      cases hword
    | cons c _ => exact hends
  refine .token hnew (fun hopens => ?_) (hnew.name_longest hends)
  cases hnew with
  | identifier hstart _ _ =>
    rw [hopens.head] at hstart
    exact absurd hstart (by decide)

/-! ## Whole texts -/

/-- The piece is the same, or the new name in place of the old one. -/
def Piece.Respells (old new : List Char) (p p' : Piece) : Prop :=
  p' = p ∨ (p = ⟨.token .identifier, old⟩ ∧ p' = ⟨.token .identifier, new⟩)

section Pieces

variable {old new : List Char} {ps ps' : List Piece}

theorem ahead_respelled (hold : Lexeme .identifier old) (hnew : Lexeme .identifier new)
    (h : List.Forall₂ (Piece.Respells old new) ps ps') :
    Ahead (ps.flatMap Piece.text) (ps'.flatMap Piece.text) := by
  induction h with
  | nil => exact .nil
  | cons hp _ ih =>
    rw [List.flatMap_cons, List.flatMap_cons]
    rcases hp with rfl | ⟨rfl, rfl⟩
    · exact ih.append _
    · cases hold with
      | identifier hstart =>
        cases hnew with
        | identifier hstart' => exact .word hstart hstart'

/-- Pieces with the new name in them are the pieces of their text. -/
theorem Reading.respelled {passed : List Char} {items : List Item} (h : Reading passed ps items)
    (hold : Lexeme .identifier old) (hnew : Lexeme .identifier new)
    (hps : List.Forall₂ (Piece.Respells old new) ps ps') :
    ps' = pieces (ps'.flatMap Piece.text) := by
  have hnext {content : Content} {text : List Char} {ps ps' : List Piece} {p' : Piece}
      (hsegment : Segment content text (ps.flatMap Piece.text))
      (hps : List.Forall₂ (Piece.Respells old new) ps ps')
      (hp : Piece.Respells old new ⟨content, text⟩ p')
      (ih : ps' = pieces (ps'.flatMap Piece.text)) :
      p' :: ps' = pieces ((p' :: ps').flatMap Piece.text) := by
    have hahead := ahead_respelled hold hnew hps
    rcases hp with rfl | ⟨heq, rfl⟩
    · exact (hsegment.ahead hahead).divides ih
    · cases heq
      exact (hsegment.respelled hold hnew hahead).divides ih
  induction h generalizing ps' with
  | done =>
    cases hps
    rfl
  | blank hsegment _ ih | token hsegment _ ih | unexpected hsegment _ ih
  | unterminatedString hsegment _ ih | unterminatedComment hsegment _ ih =>
    cases hps with
    | cons hp hps => exact hnext hsegment hps hp (ih hps)

end Pieces

/-- What a piece that is a token can be written as. -/
theorem Reading.lexeme {passed : List Char} {ps : List Piece} {items : List Item}
    (h : Reading passed ps items) : ∀ p ∈ ps, ∀ kind, p.content = .token kind →
      Lexeme kind p.text := by
  induction h with
  | done => exact fun p hp => by cases hp
  | token hsegment _ ih =>
    refine List.forall_mem_cons.mpr ⟨fun kind hkind => ?_, ih⟩
    cases hkind
    cases hsegment with
    | token hlexeme => exact hlexeme
  | blank _ _ ih | unexpected _ _ ih | unterminatedString _ _ ih | unterminatedComment _ _ ih =>
    exact List.forall_mem_cons.mpr ⟨fun kind hkind => (by cases hkind), ih⟩

theorem Lexeme.name_newlines {name : List Char} (h : Lexeme .identifier name) :
    newlines name = 0 := by
  cases h with
  | @identifier c cs hstart hrest =>
    refine List.count_eq_zero.mpr fun hmem => ?_
    rcases List.mem_cons.mp hmem with rfl | hmem
    · exact absurd hstart (by decide)
    · exact absurd (hrest _ hmem) (by decide)

section Tokens

variable {r : Renaming} (hold : Lexeme .identifier r.old.toList)
  (hnew : Lexeme .identifier r.new.toList)

include hold hnew

/-- The token of a piece is given the new name by writing the new name in its place. -/
theorem Piece.exists_respelled {p : Piece}
    (hp : ∀ kind, p.content = .token kind → Lexeme kind p.text) (line : Nat) {ts' : List Token}
    (h : List.Forall₂ r.Turns ((p.item? line).toList.filterMap Item.token?) ts') :
    ∃ p', p.Respells r.old.toList r.new.toList p' ∧ newlines p'.text = newlines p.text ∧
      (p'.item? line).toList.filterMap Item.token? = ts' ∧
      (p'.item? line).toList.filterMap Item.error? =
        (p.item? line).toList.filterMap Item.error? := by
  obtain ⟨content, text⟩ := p
  cases content with
  | blank =>
    cases h
    exact ⟨_, .inl rfl, rfl, rfl, rfl⟩
  | error cause =>
    have hnone : ((Piece.mk (.error cause) text).item? line).toList.filterMap Item.token? = [] := by
      cases cause <;> rfl
    rw [hnone] at h
    cases h
    exact ⟨_, .inl rfl, rfl, hnone, rfl⟩
  | token kind =>
    cases h with
    | @cons _ t' _ _ ht hnil =>
      cases hnil
      rcases ht with rfl | ⟨hlexeme, rfl⟩
      · exact ⟨_, .inl rfl, rfl, rfl, rfl⟩
      · -- names hold no line end, so the line stays
        obtain rfl : text = r.old.toList := by rw [← hlexeme, String.toList_ofList]
        obtain rfl : kind = .identifier := (hp kind rfl).kind_unique hold
        have hline : newlines r.new.toList = newlines r.old.toList := by
          rw [hold.name_newlines, hnew.name_newlines]
        refine ⟨⟨.token .identifier, r.new.toList⟩, .inr ⟨rfl, rfl⟩, hline, ?_, rfl⟩
        unfold Piece.item?
        dsimp only
        rw [String.ofList_toList, hline]
        rfl

/-- The tokens of pieces in a row are given the new name by writing it in place of the old one, and
the errors stay. -/
theorem exists_respelled {ps : List Piece}
    (hps : ∀ p ∈ ps, ∀ kind, p.content = .token kind → Lexeme kind p.text) (line : Nat)
    {ts' : List Token}
    (h : List.Forall₂ r.Turns ((itemsFrom line ps).filterMap Item.token?) ts') :
    ∃ ps', List.Forall₂ (Piece.Respells r.old.toList r.new.toList) ps ps' ∧
      (itemsFrom line ps').filterMap Item.token? = ts' ∧
      (itemsFrom line ps').filterMap Item.error? = (itemsFrom line ps).filterMap Item.error? := by
  induction ps generalizing line ts' with
  | nil =>
    cases h with
    | @cons _ t' _ _ hend hnil =>
      cases hnil
      rcases hend with rfl | ⟨hempty, -⟩
      · exact ⟨[], .nil, rfl, rfl⟩
      · -- the end has no lexeme, and a name is not empty
        rw [← hempty] at hold
        exact absurd rfl hold.ne_nil
  | cons p ps ih =>
    obtain ⟨hp, hrest⟩ := List.forall_mem_cons.mp hps
    rw [itemsFrom_cons, List.filterMap_append] at h
    -- the changed tokens of the piece in front, and those of the others
    have hfirst := List.forall₂_take ((p.item? line).toList.filterMap Item.token?).length h
    have hlast := List.forall₂_drop ((p.item? line).toList.filterMap Item.token?).length h
    rw [List.take_left] at hfirst
    rw [List.drop_left] at hlast
    obtain ⟨p', hp', hline, htoken, herror⟩ := p.exists_respelled hold hnew hp line hfirst
    obtain ⟨ps', hps', htokens, herrors⟩ := ih hrest _ hlast
    refine ⟨p' :: ps', .cons hp' hps', ?_, ?_⟩
    · rw [itemsFrom_cons, List.filterMap_append, hline, htoken, htokens, List.take_append_drop]
    · rw [itemsFrom_cons, itemsFrom_cons, List.filterMap_append, List.filterMap_append, hline,
        herror, herrors]

end Tokens

end Lox.Scan

namespace Lox

open Scan

/-- The text is the other one with the new name in place of some of the old names in it. -/
def Respelled (r : Renaming) (source source' : String) : Prop :=
  List.Forall₂ (Piece.Respells r.old.toList r.new.toList) (pieces source.toList)
    (pieces source'.toList)

/-- Where some tokens of a text are given a new name, there is a text with these tokens, and it is
the text with the new name written in their places. -/
theorem scan_respelled {source : String} {r : Renaming}
    (hold : Lexeme .identifier r.old.toList) (hnew : Lexeme .identifier r.new.toList)
    {ts' : List Token} (h : List.Forall₂ r.Turns (scanTokens source) ts') :
    ∃ source', Respelled r source source' ∧ scanTokens source' = ts' ∧
      scanErrors source' = scanErrors source := by
  have hreading := pieces_reading [] source.toList
  obtain ⟨ps', hps, htokens, herrors⟩ := exists_respelled hold hnew hreading.lexeme 1 h
  have hpieces := hreading.respelled hold hnew hps
  refine ⟨String.ofList (ps'.flatMap Piece.text), ?_, ?_, ?_⟩
  · unfold Respelled
    rw [String.toList_ofList, ← hpieces]
    exact hps
  · unfold scanTokens scan
    rw [String.toList_ofList, ← hpieces]
    exact htokens
  · unfold scanErrors scan
    rw [String.toList_ofList, ← hpieces]
    exact herrors

end Lox
