import Lox.Token.Scan.Lemmas
import Lox.Tree

/-!
# Tokens of a text are spelled as their kind says

In the tokens of a text a keyword has its own spelling, and a name is a word that is no keyword. So
no name of a text is `this` or `super`, and none ends with an equals sign.
-/

namespace Lox

/-- The token is written as a token of its kind can be. -/
structure Token.Spelled (t : Token) : Prop where
  keyword : ∀ k, t.kind = .keyword k → t.lexeme = k.spelling
  identifier : t.kind = .identifier →
    Keyword.ofSpelling? t.lexeme = none ∧ ∀ c ∈ t.lexeme.toList, Scan.isWordRest c = true

/-- The token can name a variable: it is none of the names that no declaration makes, and not the
name of a setter. -/
structure Token.Plain (t : Token) : Prop where
  ne_this : t.lexeme ≠ "this"
  ne_super : t.lexeme ≠ "super"
  ne_setter : ∀ property, t.lexeme ≠ setterName property

theorem Keyword.spelling_of_ofSpelling? {s : String} {k : Keyword}
    (h : Keyword.ofSpelling? s = some k) : k.spelling = s := by
  simpa using List.find?_some h

/-- A token of neither a word's kind is spelled as it should be, whatever it says. -/
theorem Token.Spelled.of_kind {t : Token} (hk : ∀ k, t.kind ≠ .keyword k)
    (hi : t.kind ≠ .identifier) : t.Spelled :=
  ⟨fun k h => absurd h (hk k), fun h => absurd h hi⟩

namespace Scan

theorem isWordRest_of_isWordStart {c : Char} (h : isWordStart c = true) :
    isWordRest c = true := by
  unfold isWordStart at h
  unfold isWordRest Char.isAlphanum
  rw [Bool.or_eq_true] at h
  rcases h with h | h
  · rw [h]
    rfl
  · rw [h, Bool.or_true]

theorem word_spelled {c : Char} {cs : List Char} (hc : isWordStart c = true) {kind : Kind}
    (h : (word c cs).1.content = .token kind) (line : Nat) :
    (Token.mk kind (String.ofList (word c cs).1.text) line).Spelled := by
  have hkind : kind = wordKind (word c cs).1.text := by
    injection h with h
    exact h.symm
  subst hkind
  unfold wordKind
  split
  next k hk =>
    refine ⟨fun k' h' => ?_, fun h' => ?_⟩
    · cases h'
      exact (Keyword.spelling_of_ofSpelling? hk).symm
    · cases h'
  next hnone =>
    refine ⟨fun k' h' => ?_, fun _ => ⟨hnone, fun x hx => ?_⟩⟩
    · cases h'
    · rw [String.toList_ofList] at hx
      rcases List.mem_cons.mp hx with rfl | hx
      · exact isWordRest_of_isWordStart hc
      · exact List.all_eq_true.mp List.all_takeWhile x hx

/-- The content is no word. -/
def Content.IsNoWord (content : Content) : Prop :=
  (∀ k, content ≠ .token (.keyword k)) ∧ content ≠ .token .identifier

theorem slash_isNoWord (cs : List Char) : (slash cs).1.content.IsNoWord := by
  unfold slash Content.IsNoWord
  split
  next => simp
  next =>
    split
    next => simp
    next => simp
  next => simp

theorem string_isNoWord (cs : List Char) : (string cs).1.content.IsNoWord := by
  unfold string Content.IsNoWord
  simp only
  split
  next => simp
  next => simp

theorem number_isNoWord (c : Char) (cs : List Char) : (number c cs).1.content.IsNoWord := by
  unfold number Content.IsNoWord
  simp only
  split
  next =>
    split
    next => simp
    next => simp
  next => simp

theorem either_isNoWord (c : Char) (alone withEqual : Mark) (cs : List Char) :
    (either c alone withEqual cs).1.content.IsNoWord := by
  unfold either Content.IsNoWord
  split
  next => simp
  next => simp

/-- What is no word is spelled as it should be. -/
theorem Content.IsNoWord.spelled {content : Content} (h : content.IsNoWord) {kind : Kind}
    (hkind : content = .token kind) (text : List Char) (line : Nat) :
    (Token.mk kind (String.ofList text) line).Spelled := by
  obtain ⟨hk, hi⟩ := h
  rw [hkind] at hk hi
  exact .of_kind (fun k he => hk k (congrArg Content.token he))
    (fun he => hi (congrArg Content.token he))

theorem front_spelled {c : Char} {cs : List Char} {kind : Kind}
    (h : (front c cs).1.content = .token kind) (line : Nat) :
    (Token.mk kind (String.ofList (front c cs).1.text) line).Spelled := by
  have hcut := front_cut c
  generalize front c = cut at hcut h ⊢
  cases hcut with
  | space | single | unexpected => exact Content.IsNoWord.spelled ⟨by simp, by simp⟩ h _ line
  | slash => exact (slash_isNoWord cs).spelled h _ line
  | string => exact (string_isNoWord cs).spelled h _ line
  | number => exact (number_isNoWord c cs).spelled h _ line
  | word hstart => exact word_spelled hstart h line
  | either => exact (either_isNoWord c _ _ cs).spelled h _ line

theorem piecesUpTo_spelled {fuel : Nat} {text : List Char} {p : Piece}
    (hp : p ∈ piecesUpTo fuel text) {kind : Kind} (h : p.content = .token kind) (line : Nat) :
    (Token.mk kind (String.ofList p.text) line).Spelled := by
  induction fuel generalizing text with
  | zero => cases text <;> cases hp
  | succ fuel ih =>
    cases text with
    | nil => cases hp
    | cons c cs =>
      rw [piecesUpTo] at hp
      rcases List.mem_cons.mp hp with rfl | hp
      · exact front_spelled h line
      · exact ih hp

theorem itemsFrom_spelled {ps : List Piece} {line : Nat}
    (hps : ∀ p ∈ ps, ∀ kind, p.content = .token kind → ∀ line,
      (Token.mk kind (String.ofList p.text) line).Spelled)
    {t : Token} (ht : .token t ∈ itemsFrom line ps) : t.Spelled := by
  induction ps generalizing line with
  | nil =>
    simp only [itemsFrom, List.mem_singleton, Item.token.injEq] at ht
    subst ht
    exact .of_kind (fun k h => by cases h) (fun h => by cases h)
  | cons p ps ih =>
    have hrest := fun line => @ih line fun q hq => hps q (List.mem_cons_of_mem _ hq)
    rw [itemsFrom] at ht
    split at ht
    next => exact hrest _ ht
    next kind hkind =>
      rcases List.mem_cons.mp ht with he | ht
      · injection he with he
        subst he
        exact hps p List.mem_cons_self kind hkind _
      · exact hrest _ ht
    next =>
      rcases List.mem_cons.mp ht with he | ht
      · cases he
      · exact hrest _ ht
    next =>
      rcases List.mem_cons.mp ht with he | ht
      · cases he
      · exact hrest _ ht

end Scan

/-- The tokens of a text are spelled as their kinds say. -/
theorem scanTokens_spelled {source : String} {t : Token} (ht : t ∈ scanTokens source) :
    t.Spelled := by
  obtain ⟨item, hitem, h⟩ := List.mem_filterMap.mp ht
  cases item with
  | token t' =>
    injection h with h
    subst h
    exact Scan.itemsFrom_spelled
      (fun p hp kind hkind line => Scan.piecesUpTo_spelled hp hkind line) hitem
  | error e => cases h

namespace Token.Spelled

variable {t : Token}

theorem plain (h : t.Spelled) (ht : t.isIdentifier = true) : t.Plain := by
  obtain ⟨hnone, hword⟩ := h.identifier (isIdentifier_iff.mp ht)
  refine ⟨fun he => ?_, fun he => ?_, fun property he => ?_⟩
  · rw [he] at hnone
    exact absurd hnone (by decide +kernel)
  · rw [he] at hnone
    exact absurd hnone (by decide +kernel)
  · have hequal : '=' ∈ t.lexeme.toList := by
      rw [he, setterName]
      simp
    exact absurd (hword '=' hequal) (by decide)

theorem lexeme_this (h : t.Spelled) (ht : t.isKeyword .thisKw = true) : t.lexeme = "this" :=
  h.keyword _ (isKeyword_iff.mp ht)

theorem lexeme_super (h : t.Spelled) (ht : t.isKeyword .superKw = true) : t.lexeme = "super" :=
  h.keyword _ (isKeyword_iff.mp ht)

end Token.Spelled

end Lox
