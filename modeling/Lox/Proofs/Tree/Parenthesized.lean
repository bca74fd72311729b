import Mathlib.Data.List.Forall2
import Lox.Proofs.Decimal.Distinct
import Lox.Proofs.Grammar.Soundness
import Lox.Proofs.Token.Layout
import Lox.Proofs.Token.Spelled

/-!
# Parenthesized expressions are unambiguous

A parenthesized expression is an atom (a number or a word), or a head with its operands after it,
each after a space, all in parentheses. Neither atoms nor heads hold a space or a parenthesis. So
the text of an expression ends in only one place of a longer text, its head and the texts of its
operands can be told apart, and the head with the number of its operands says what kind of
expression it is (`Expr.form?_eq`). By induction on the length of the text, two expressions with the
same text are the same up to sites and lines (`Expr.parenthesized_unambiguous`).

Strings stand in the text without their quotes and functions without their bodies, so expressions
that hold either are left out, and with them the infinities and NaN, whose texts are words.
-/

namespace Lox

open Scan

/-! ## The same tree -/

/-- The same tree, whatever its sites are and on whichever lines its tokens stand. Function literals
are not compared. -/
inductive Expr.SameTree : Expr → Expr → Prop
  | literal (value : Literal) : SameTree (.literal value) (.literal value)
  | variable {site site' : Site} {name name' : Token} (hname : name.face = name'.face) :
      SameTree (.variable site name) (.variable site' name')
  | assign {site site' : Site} {name name' : Token} {value value' : Expr}
      (hname : name.face = name'.face) (hvalue : SameTree value value') :
      SameTree (.assign site name value) (.assign site' name' value')
  | receiver {site site' : Site} {keyword keyword' : Token}
      (hkeyword : keyword.face = keyword'.face) :
      SameTree (.receiver site keyword) (.receiver site' keyword')
  | inherited {site site' : Site} {keyword keyword' method method' : Token}
      (hkeyword : keyword.face = keyword'.face) (hmethod : method.face = method'.face) :
      SameTree (.inherited site keyword method) (.inherited site' keyword' method')
  | group {inner inner' : Expr} (hinner : SameTree inner inner') :
      SameTree (.group inner) (.group inner')
  | unary {operator operator' : Token} {operand operand' : Expr}
      (hoperator : operator.face = operator'.face) (hoperand : SameTree operand operand') :
      SameTree (.unary operator operand) (.unary operator' operand')
  | binary {operator operator' : Token} {left left' right right' : Expr}
      (hoperator : operator.face = operator'.face) (hleft : SameTree left left')
      (hright : SameTree right right') :
      SameTree (.binary left operator right) (.binary left' operator' right')
  | logical {operator operator' : Token} {left left' right right' : Expr}
      (hoperator : operator.face = operator'.face) (hleft : SameTree left left')
      (hright : SameTree right right') :
      SameTree (.logical left operator right) (.logical left' operator' right')
  | conditional {condition condition' whenTrue whenTrue' whenFalse whenFalse' : Expr}
      (hcondition : SameTree condition condition') (hwhenTrue : SameTree whenTrue whenTrue')
      (hwhenFalse : SameTree whenFalse whenFalse') :
      SameTree (.conditional condition whenTrue whenFalse)
        (.conditional condition' whenTrue' whenFalse')
  | call {callee callee' : Expr} {paren paren' : Token} {arguments arguments' : List Expr}
      (hcallee : SameTree callee callee') (hparen : paren.face = paren'.face)
      (harguments : List.Forall₂ SameTree arguments arguments') :
      SameTree (.call callee paren arguments) (.call callee' paren' arguments')
  | get {object object' : Expr} {name name' : Token} (hobject : SameTree object object')
      (hname : name.face = name'.face) : SameTree (.get object name) (.get object' name')
  | set {object object' value value' : Expr} {name name' : Token}
      (hobject : SameTree object object') (hname : name.face = name'.face)
      (hvalue : SameTree value value') :
      SameTree (.set object name value) (.set object' name' value')

mutual

/-- No strings, no functions, and only finite numbers. -/
def Expr.isLegible : Expr → Bool
  | .literal (.number x) => x.isFinite
  | .literal (.string _) => false
  | .literal _ | .variable _ _ | .receiver _ _ | .inherited _ _ _ => true
  | .assign _ _ value => value.isLegible
  | .group inner => inner.isLegible
  | .unary _ operand => operand.isLegible
  | .binary left _ right | .logical left _ right => left.isLegible && right.isLegible
  | .conditional condition whenTrue whenFalse =>
    condition.isLegible && (whenTrue.isLegible && whenFalse.isLegible)
  | .call callee _ arguments => callee.isLegible && Expr.areLegible arguments
  | .get object _ => object.isLegible
  | .set object _ value => object.isLegible && value.isLegible
  | .function _ => false

/-- Expressions in a row with no strings, no functions, and only finite numbers. -/
def Expr.areLegible : List Expr → Bool
  | [] => true
  | e :: es => e.isLegible && Expr.areLegible es

end

/-! ## Tokens in trees -/

/-- The token passes a test and is a lexeme of its kind. -/
structure Token.Reads (test : Token → Bool) (t : Token) : Prop where
  passes : test t = true
  lexeme : Lexeme t.kind t.lexeme.toList

/-- Is the token an operator whose right operand may be left out? -/
def Token.isLogicalOperator (t : Token) : Bool :=
  [Level.or, .and].any fun level => level.joins t

/-- Is the token an operator that evaluates both its operands? -/
def Token.isBinaryOperator (t : Token) : Bool :=
  [Level.comma, .equality, .comparison, .term, .factor].any fun level => level.joins t

mutual

/-- The tokens of the expression are such as the grammar puts in their places. -/
def Expr.Written : Expr → Prop
  | .literal _ | .function _ => True
  | .variable _ name => name.Reads Token.isIdentifier
  | .assign _ name value => name.Reads Token.isIdentifier ∧ value.Written
  | .receiver _ keyword => keyword.Reads (Token.isKeyword .thisKw)
  | .inherited _ keyword method =>
    keyword.Reads (Token.isKeyword .superKw) ∧ method.Reads Token.isIdentifier
  | .group inner => inner.Written
  | .unary operator operand => operator.Reads Grammar.isUnaryOperator ∧ operand.Written
  | .binary left operator right =>
    operator.Reads Token.isBinaryOperator ∧ left.Written ∧ right.Written
  | .logical left operator right =>
    operator.Reads Token.isLogicalOperator ∧ left.Written ∧ right.Written
  | .conditional condition whenTrue whenFalse =>
    condition.Written ∧ whenTrue.Written ∧ whenFalse.Written
  | .call callee paren arguments =>
    paren.Reads (Token.isMark .rightParen) ∧ callee.Written ∧ Expr.WrittenAll arguments
  | .get object name => name.Reads Token.isIdentifier ∧ object.Written
  | .set object name value =>
    name.Reads Token.isIdentifier ∧ object.Written ∧ value.Written

/-- The tokens of expressions in a row are such as the grammar puts in their places. -/
def Expr.WrittenAll : List Expr → Prop
  | [] => True
  | e :: es => e.Written ∧ Expr.WrittenAll es

end

namespace Grammar

/-- The tokens of the expressions of the phrase are such as the grammar puts in their places. -/
def Phrase.Written : Phrase → Prop
  | .expression _ e => e.Written
  | .arguments es | .argumentRow es => Expr.WrittenAll es
  | _ => True

/-- The operator that joins two expressions is one of its level. -/
theorem joins_written {level : Level} {left right : Expr} {operator : Token}
    (hjoins : level.joins operator = true) (hlexeme : Lexeme operator.kind operator.lexeme.toList)
    (hleft : left.Written) (hright : right.Written) :
    (level.join left operator right).Written := by
  cases level with
  | or | and => exact ⟨⟨List.any_eq_true.mpr ⟨_, by decide, hjoins⟩, hlexeme⟩, hleft, hright⟩
  | comma | equality | comparison | term | factor =>
    exact ⟨⟨List.any_eq_true.mpr ⟨_, by decide, hjoins⟩, hlexeme⟩, hleft, hright⟩

/-- The tree of a derivation over lexemes is written with the tokens that belong in it. -/
theorem Derives.written_tokens {phrase : Phrase} {ts : List Token} (h : Derives phrase ts)
    (hts : ∀ t ∈ ts, Lexeme t.kind t.lexeme.toList) : phrase.Written := by
  induction h with
  | tighter _ _ ih => exact ih hts
  | joined _ hjoins _ ihl ihr =>
    exact joins_written hjoins (hts _ (by simp)) (ihl fun t ht => hts t (by simp [ht]))
      (ihr fun t ht => hts t (by simp [ht]))
  | assign hn _ _ ihv =>
    exact ⟨⟨hn, hts _ (by simp)⟩, ihv fun t ht => hts t (by simp [ht])⟩
  | set _ _ hn _ _ iho ihv =>
    exact ⟨⟨hn, hts _ (by simp)⟩, iho fun t ht => hts t (by simp [ht]),
      ihv fun t ht => hts t (by simp [ht])⟩
  | conditional _ _ _ _ _ ihc iht ihf =>
    exact ⟨ihc fun t ht => hts t (by simp [ht]), iht fun t ht => hts t (by simp [ht]),
      ihf fun t ht => hts t (by simp [ht])⟩
  | unary ho _ ih => exact ⟨⟨ho, hts _ (by simp)⟩, ih fun t ht => hts t (by simp [ht])⟩
  | call _ _ _ hp ihc iha =>
    exact ⟨⟨hp, hts _ (by simp)⟩, ihc fun t ht => hts t (by simp [ht]),
      iha fun t ht => hts t (by simp [ht])⟩
  | get _ _ hn iho => exact ⟨⟨hn, hts _ (by simp)⟩, iho fun t ht => hts t (by simp [ht])⟩
  | name hn => exact ⟨hn, hts _ (by simp)⟩
  | receiver hk => exact ⟨hk, hts _ (by simp)⟩
  | inherited hk _ hm => exact ⟨⟨hk, hts _ (by simp)⟩, hm, hts _ (by simp)⟩
  | group _ _ _ ih => exact ih fun t ht => hts t (by simp [ht])
  | someArguments _ _ ih => exact ih hts
  | lastArgument _ ih => exact ⟨ih hts, trivial⟩
  | nextArgument _ _ _ ihe ihes =>
    exact ⟨ihe fun t ht => hts t (by simp [ht]), ihes fun t ht => hts t (by simp [ht])⟩
  | _ => trivial

end Grammar

/-! ## Texts cut at spaces and parentheses -/

/-- The characters that keep the parts of a parenthesized expression apart. -/
def isDelimiter (c : Char) : Bool :=
  c = ' ' || c = '(' || c = ')'

/-- The text is over, or the next part of it begins. -/
def Delimited (rest : List Char) : Prop :=
  ∀ c ∈ rest.head?, isDelimiter c = true

/-- A row of other characters ends where the first delimiter stands. -/
theorem append_inj_of_delimited {cs cs' rest rest' : List Char}
    (hcs : ∀ c ∈ cs, isDelimiter c = false) (hcs' : ∀ c ∈ cs', isDelimiter c = false)
    (hrest : Delimited rest) (hrest' : Delimited rest') (h : cs ++ rest = cs' ++ rest') :
    cs = cs' ∧ rest = rest' := by
  have htake {cs rest : List Char} (hcs : ∀ c ∈ cs, isDelimiter c = false)
      (hrest : Delimited rest) : (cs ++ rest).takeWhile (fun c => !isDelimiter c) = cs := by
    rw [List.takeWhile_append_of_pos fun c hc => by rw [hcs c hc]; rfl]
    cases rest with
    | nil => rw [List.takeWhile_nil, List.append_nil]
    | cons c rest =>
      rw [List.takeWhile_cons_of_neg (by rw [hrest c rfl]; decide), List.append_nil]
  have hsame : cs = cs' := by rw [← htake hcs hrest, h, htake hcs' hrest']
  subst hsame
  exact ⟨rfl, List.append_cancel_left h⟩

/-- No part of a word ends it. -/
theorem wordRest_not_delimiter {c : Char} (h : isWordRest c = true) : isDelimiter c = false := by
  refine Bool.eq_false_iff.mpr fun hdelimiter => ?_
  unfold isDelimiter at hdelimiter
  simp only [Bool.or_eq_true, decide_eq_true_eq] at hdelimiter
  rcases hdelimiter with (rfl | rfl) | rfl <;> exact absurd h (by decide)

/-- A mark is written in one way. -/
theorem Scan.Lexeme.eq_mark {m : Mark} {text : List Char} (h : Lexeme (.mark m) text) :
    text = m.spelling.toList := by
  cases h
  rfl

/-- A keyword is written in one way. -/
theorem Scan.Lexeme.eq_keyword {k : Keyword} {text : List Char} (h : Lexeme (.keyword k) text) :
    text = k.spelling.toList := by
  cases h
  rfl

/-- A name or keyword begins like a word and goes on like one. -/
theorem Scan.Lexeme.word {kind : Kind} {text : List Char} (h : Lexeme kind text)
    (hkind : kind = .identifier ∨ ∃ k, kind = .keyword k) :
    (∃ c ∈ text.head?, isWordStart c = true) ∧ ∀ c ∈ text, isDelimiter c = false := by
  have hword {c : Char} {cs : List Char} (hstart : isWordStart c = true)
      (hrest : ∀ d ∈ cs, isWordRest d = true) :
      (∃ d ∈ (c :: cs).head?, isWordStart d = true) ∧ ∀ d ∈ c :: cs, isDelimiter d = false := by
    refine ⟨⟨c, rfl, hstart⟩, fun d hd => wordRest_not_delimiter ?_⟩
    rcases List.mem_cons.mp hd with rfl | hd
    · exact isWordRest_of_isWordStart hstart
    · exact hrest d hd
  cases h with
  | identifier hstart hrest => exact hword hstart hrest
  | keyword k =>
    obtain ⟨c, cs, htext, hstart, hrest, -⟩ := keyword_word k
    rw [htext]
    exact hword hstart (List.all_eq_true.mp hrest)
  | mark | string | whole | fraction =>
    rcases hkind with hkind | ⟨_, hkind⟩ <;> cases hkind

/-! ## Heads and operands -/

/-- Kinds of expressions that have parentheses. -/
inductive Form where
  | assign
  | inherited
  | group
  | unary
  | binary
  | logical
  | conditional
  | call
  | get
  | set
  deriving DecidableEq

/-- The kind of an expression that has parentheses. -/
def Expr.form? : Expr → Option Form
  | .assign _ _ _ => some .assign
  | .inherited _ _ _ => some .inherited
  | .group _ => some .group
  | .unary _ _ => some .unary
  | .binary _ _ _ => some .binary
  | .logical _ _ _ => some .logical
  | .conditional _ _ _ => some .conditional
  | .call _ _ _ => some .call
  | .get _ _ => some .get
  | .set _ _ _ => some .set
  | .literal _ | .variable _ _ | .receiver _ _ | .function _ => none

/-- What stands right after the opening parenthesis. -/
def Expr.head? : Expr → Option String
  | .assign _ _ _ => some "="
  | .inherited _ _ _ => some "super"
  | .group _ => some "group"
  | .unary operator _ | .binary _ operator _ | .logical _ operator _ => some operator.lexeme
  | .conditional _ _ _ => some "?:"
  | .call _ _ _ => some "call"
  | .get _ _ => some "."
  | .set _ _ _ => some ".="
  | .literal _ | .variable _ _ | .receiver _ _ | .function _ => none

/-- What stands after the head. A name stands there as a variable of this name would. -/
def Expr.operands : Expr → List Expr
  | .assign _ name value => [.variable 0 name, value]
  | .inherited _ _ method => [.variable 0 method]
  | .group inner => [inner]
  | .unary _ operand => [operand]
  | .binary left _ right | .logical left _ right => [left, right]
  | .conditional condition whenTrue whenFalse => [condition, whenTrue, whenFalse]
  | .call callee _ arguments => callee :: arguments
  | .get object name => [object, .variable 0 name]
  | .set object name value => [object, .variable 0 name, value]
  | .literal _ | .variable _ _ | .receiver _ _ | .function _ => []

/-- The kind of the expression with this head and so many operands. -/
def Form.ofHead (head : String) (operands : Nat) : Form :=
  if head = "=" then .assign
  else if head = "super" then .inherited
  else if head = "group" then .group
  else if head = "?:" then .conditional
  else if head = "call" then .call
  else if head = "." then .get
  else if head = ".=" then .set
  else if head = "and" ∨ head = "or" then .logical
  else if operands = 1 then .unary
  else .binary

/-- The characters of an expression in a row with others. -/
def Expr.chars (e : Expr) : List Char :=
  e.parenthesized.toList

/-- The characters of expressions in a row, each after a space. -/
def Expr.charsAll : List Expr → List Char
  | [] => []
  | e :: es => ' ' :: (e.chars ++ Expr.charsAll es)

/-- Operands are written each after a space. -/
theorem Expr.parenthesizedAll_toList (es : List Expr) :
    (Expr.parenthesizedAll es).toList = Expr.charsAll es := by
  induction es with
  | nil => rfl
  | cons e es ih =>
    rw [Expr.parenthesizedAll, String.toList_append, String.toList_append, ih]
    rfl

/-- An expression that has parentheses is its head and its operands in them. -/
theorem Expr.chars_eq {e : Expr} {head : String} (h : e.head? = some head) :
    e.chars = '(' :: (head.toList ++ (Expr.charsAll e.operands ++ [')'])) := by
  cases e <;> cases h <;>
    simp [Expr.chars, Expr.parenthesized, Expr.operands, Expr.charsAll,
      Expr.parenthesizedAll_toList, String.toList_append]

/-- An operand has a shorter text than all operands with their spaces. -/
theorem Expr.chars_length_lt {e : Expr} {es : List Expr} (h : e ∈ es) :
    e.chars.length < (Expr.charsAll es).length := by
  induction es with
  | nil => cases h
  | cons e' es ih =>
    rw [Expr.charsAll, List.length_cons, List.length_append]
    rcases List.mem_cons.mp h with rfl | h
    · omega
    · have := ih h
      omega

/-- What has a head has an operand. -/
theorem Expr.operands_ne_nil {e : Expr} {head : String} (h : e.head? = some head) :
    e.operands ≠ [] := by
  cases e <;> first | exact List.cons_ne_nil _ _ | cases h

/-! ## The head says what kind of expression it is -/

namespace Token.Reads

variable {t t' : Token} {test test' : Token → Bool}

/-- Two tokens with the same text say the same. -/
theorem face_eq (h : t.Reads test) (h' : t'.Reads test') (heq : t.lexeme = t'.lexeme) :
    t.face = t'.face := by
  have hlexeme := h'.lexeme
  rw [← heq] at hlexeme
  exact Prod.ext (h.lexeme.kind_unique hlexeme) heq

/-- The text of a mark that is a lexeme. -/
theorem lexeme_of_mark {m : Mark} (h : t.Reads test) (hm : t.kind = .mark m) :
    t.lexeme = m.spelling := by
  have hlexeme := h.lexeme
  rw [hm] at hlexeme
  exact String.toList_inj.mp hlexeme.eq_mark

/-- The text of a keyword that is a lexeme. -/
theorem lexeme_of_keyword {k : Keyword} (h : t.Reads test) (hk : t.kind = .keyword k) :
    t.lexeme = k.spelling := by
  have hlexeme := h.lexeme
  rw [hk] at hlexeme
  exact String.toList_inj.mp hlexeme.eq_keyword

/-- Two tokens of one mark differ in their lines at most. -/
theorem face_of_mark {m : Mark} (h : t.Reads (Token.isMark m)) (h' : t'.Reads (Token.isMark m)) :
    t.face = t'.face := by
  have hm := Token.isMark_iff.mp h.passes
  have hm' := Token.isMark_iff.mp h'.passes
  exact h.face_eq h' ((h.lexeme_of_mark hm).trans (h'.lexeme_of_mark hm').symm)

/-- Two tokens of one keyword differ in their lines at most. -/
theorem face_of_keyword {k : Keyword} (h : t.Reads (Token.isKeyword k))
    (h' : t'.Reads (Token.isKeyword k)) : t.face = t'.face := by
  have hk := Token.isKeyword_iff.mp h.passes
  have hk' := Token.isKeyword_iff.mp h'.passes
  exact h.face_eq h' ((h.lexeme_of_keyword hk).trans (h'.lexeme_of_keyword hk').symm)

/-- The texts of unary operators. -/
theorem mem_unary (h : t.Reads Grammar.isUnaryOperator) : t.lexeme ∈ ["!", "-"] := by
  have hpasses := h.passes
  unfold Grammar.isUnaryOperator at hpasses
  rw [Bool.or_eq_true, Token.isMark_iff, Token.isMark_iff] at hpasses
  rcases hpasses with hm | hm <;> rw [h.lexeme_of_mark hm] <;> decide

/-- The texts of operators that evaluate both their operands. -/
theorem mem_binary (h : t.Reads Token.isBinaryOperator) :
    t.lexeme ∈ [",", "!=", "==", ">", ">=", "<", "<=", "-", "+", "/", "*"] := by
  obtain ⟨level, hlevel, hjoins⟩ := List.any_eq_true.mp h.passes
  unfold Level.joins at hjoins
  split at hjoins <;> first
    | (next hm => rw [h.lexeme_of_mark hm]; decide)
    | exact absurd hlevel (by decide)
    | cases hjoins

/-- The texts of operators that may leave out the right one. -/
theorem mem_logical (h : t.Reads Token.isLogicalOperator) : t.lexeme ∈ ["and", "or"] := by
  obtain ⟨level, hlevel, hjoins⟩ := List.any_eq_true.mp h.passes
  unfold Level.joins at hjoins
  split at hjoins <;> first
    | (next hk => rw [h.lexeme_of_keyword hk]; decide)
    | exact absurd hlevel (by decide)
    | cases hjoins

end Token.Reads

/-- The head of an expression and the number of its operands say of what kind it is. -/
theorem Expr.form?_eq {e : Expr} {head : String} (hwritten : e.Written)
    (h : e.head? = some head) : e.form? = some (Form.ofHead head e.operands.length) := by
  have hunary : ∀ head ∈ ["!", "-"], Form.unary = Form.ofHead head 1 := by decide
  have hbinary : ∀ head ∈ [",", "!=", "==", ">", ">=", "<", "<=", "-", "+", "/", "*"],
      Form.binary = Form.ofHead head 2 := by decide
  have hlogical : ∀ head ∈ ["and", "or"], Form.logical = Form.ofHead head 2 := by decide
  cases e with
  | unary =>
    cases h
    exact congrArg some (hunary _ hwritten.1.mem_unary)
  | binary =>
    cases h
    exact congrArg some (hbinary _ hwritten.1.mem_binary)
  | logical =>
    cases h
    exact congrArg some (hlogical _ hwritten.1.mem_logical)
  | _ => cases h <;> rfl

/-- A head ends where a space or a parenthesis comes. -/
theorem Expr.head_not_delimiter {e : Expr} {head : String} (hwritten : e.Written)
    (h : e.head? = some head) : ∀ c ∈ head.toList, isDelimiter c = false := by
  have hunary : ∀ head ∈ ["!", "-"], head.toList.any isDelimiter = false := by decide
  have hbinary : ∀ head ∈ [",", "!=", "==", ">", ">=", "<", "<=", "-", "+", "/", "*"],
      head.toList.any isDelimiter = false := by decide
  have hlogical : ∀ head ∈ ["and", "or"], head.toList.any isDelimiter = false := by decide
  suffices hnone : head.toList.any isDelimiter = false from
    fun c hc => Bool.eq_false_iff.mpr (List.any_eq_false.mp hnone c hc)
  cases e with
  | unary =>
    cases h
    exact hunary _ hwritten.1.mem_unary
  | binary =>
    cases h
    exact hbinary _ hwritten.1.mem_binary
  | logical =>
    cases h
    exact hlogical _ hwritten.1.mem_logical
  | _ => cases h <;> decide

/-! ## Atoms -/

/-- The kind of the word that the expression is. -/
def Expr.word? : Expr → Option Kind
  | .literal .true => some (.keyword .trueKw)
  | .literal .false => some (.keyword .falseKw)
  | .literal .nil => some (.keyword .nilKw)
  | .variable _ _ => some .identifier
  | .receiver _ _ => some (.keyword .thisKw)
  | _ => none

/-- A word in a tree is written as a lexeme, a name or a keyword. -/
theorem Expr.word_lexeme {e : Expr} {kind : Kind} (hwritten : e.Written)
    (h : e.word? = some kind) :
    Lexeme kind e.chars ∧ (kind = .identifier ∨ ∃ k, kind = .keyword k) := by
  unfold Expr.word? at h
  split at h <;> cases h
  · exact ⟨.keyword .trueKw, .inr ⟨_, rfl⟩⟩
  · exact ⟨.keyword .falseKw, .inr ⟨_, rfl⟩⟩
  · exact ⟨.keyword .nilKw, .inr ⟨_, rfl⟩⟩
  · refine ⟨?_, .inl rfl⟩
    rw [← Token.isIdentifier_iff.mp hwritten.passes]
    exact hwritten.lexeme
  · exact ⟨.keyword .thisKw, .inr ⟨_, rfl⟩⟩

/-- An expression without parentheses is a word or a finite number. -/
theorem Expr.atom_cases {e : Expr} (hlegible : e.isLegible = true) (h : e.head? = none) :
    (∃ kind, e.word? = some kind) ∨ ∃ x, e = .literal (.number x) ∧ x.isFinite = true := by
  cases e with
  | literal value =>
    cases value with
    | number x => exact .inr ⟨x, rfl, hlegible⟩
    | string => cases hlegible
    | _ => exact .inl ⟨_, rfl⟩
  | «variable» => exact .inl ⟨_, rfl⟩
  | receiver => exact .inl ⟨_, rfl⟩
  | function => cases hlegible
  | _ => cases h

/-- The text of a finite number begins like no word and holds no delimiter. -/
theorem number_chars {x : Float} (hx : x.isFinite = true) :
    (∃ c ∈ (Literal.numberText x).toList.head?, isWordStart c = false) ∧
      ∀ c ∈ (Literal.numberText x).toList, isDelimiter c = false := by
  obtain ⟨negative, m, e, hparts⟩ := Decimal.Parts.ofFloat_finite hx
  obtain ⟨cs, htext, hnumeral, -⟩ := Decimal.numberText_spelled hparts
  have hcs : ∀ c ∈ cs, isDelimiter c = false := by
    intro c hc
    rcases hnumeral.all c hc with hdigit | rfl
    · refine wordRest_not_delimiter ?_
      unfold isWordRest Char.isAlphanum
      rw [hdigit, Bool.or_true, Bool.true_or]
    · decide
  obtain ⟨c, hc, hdigit⟩ := hnumeral.head
  rw [htext]
  cases negative with
  | false => exact ⟨⟨c, hc, digit_not_wordStart hdigit⟩, hcs⟩
  | true => exact ⟨⟨'-', rfl, by decide⟩, List.forall_mem_cons.mpr ⟨by decide, hcs⟩⟩

/-- An atom is written with at least one character, and ends where a space or a parenthesis
comes. -/
theorem Expr.atom_chars {e : Expr} (hwritten : e.Written) (hlegible : e.isLegible = true)
    (h : e.head? = none) : e.chars ≠ [] ∧ ∀ c ∈ e.chars, isDelimiter c = false := by
  rcases Expr.atom_cases hlegible h with ⟨kind, hkind⟩ | ⟨x, rfl, hx⟩
  · obtain ⟨hlexeme, hword⟩ := Expr.word_lexeme hwritten hkind
    exact ⟨hlexeme.ne_nil, (hlexeme.word hword).2⟩
  · obtain ⟨⟨c, hc, -⟩, hall⟩ := number_chars hx
    refine ⟨fun hnil => ?_, hall⟩
    rw [show (Literal.numberText x).toList = [] from hnil] at hc
    cases hc

/-- A word is the same expression as another one with its text. -/
theorem Expr.word_sameTree {e e' : Expr} {kind : Kind} (hwritten : e.Written)
    (hwritten' : e'.Written) (h : e.word? = some kind) (h' : e'.word? = some kind)
    (heq : e.parenthesized = e'.parenthesized) : e.SameTree e' := by
  unfold Expr.word? at h h'
  split at h <;> cases h <;> split at h' <;> cases h'
  · exact .literal .true
  · exact .literal .false
  · exact .literal .nil
  · exact .variable (hwritten.face_eq hwritten' heq)
  · exact .receiver (hwritten.face_of_keyword hwritten')

/-- Atoms with the same text are the same: no number is written as a word is, nor as another
number. -/
theorem Expr.atom_sameTree {e e' : Expr} (hwritten : e.Written) (hwritten' : e'.Written)
    (hlegible : e.isLegible = true) (hlegible' : e'.isLegible = true) (h : e.head? = none)
    (h' : e'.head? = none) (heq : e.chars = e'.chars) : e.SameTree e' := by
  have htext : e.parenthesized = e'.parenthesized := String.toList_inj.mp heq
  -- a word and a number do not even begin with the same character
  have hdiffer {e : Expr} {x : Float} {kind : Kind} (hwritten : e.Written)
      (hkind : e.word? = some kind) (hx : x.isFinite = true)
      (heq : e.chars = (Literal.numberText x).toList) : False := by
    obtain ⟨hlexeme, hword⟩ := Expr.word_lexeme hwritten hkind
    obtain ⟨c, hc, hstart⟩ := (hlexeme.word hword).1
    obtain ⟨c', hc', hstart'⟩ := (number_chars hx).1
    rw [heq] at hc
    cases Option.some.inj (hc.symm.trans hc')
    rw [hstart] at hstart'
    cases hstart'
  rcases Expr.atom_cases hlegible h with ⟨kind, hkind⟩ | ⟨x, rfl, hx⟩ <;>
    rcases Expr.atom_cases hlegible' h' with ⟨kind', hkind'⟩ | ⟨x', rfl, hx'⟩
  · have hlexeme := (Expr.word_lexeme hwritten hkind).1
    rw [heq] at hlexeme
    obtain rfl := hlexeme.kind_unique (Expr.word_lexeme hwritten' hkind').1
    exact Expr.word_sameTree hwritten hwritten' hkind hkind' htext
  · exact (hdiffer hwritten hkind hx' heq).elim
  · exact (hdiffer hwritten' hkind' hx heq.symm).elim
  · obtain rfl := Decimal.numberText_inj hx hx' htext
    exact .literal _

/-! ## Unique reading -/

/-- What is said of expressions in a row is said of each. -/
theorem Expr.writtenAll_iff {es : List Expr} :
    Expr.WrittenAll es ↔ ∀ e ∈ es, e.Written := by
  induction es with
  | nil => simp [Expr.WrittenAll]
  | cons e es ih => simp [Expr.WrittenAll, ih]

/-- Expressions in a row are legible if each is. -/
theorem Expr.areLegible_iff {es : List Expr} :
    Expr.areLegible es = true ↔ ∀ e ∈ es, e.isLegible = true := by
  induction es with
  | nil => simp [Expr.areLegible]
  | cons e es ih => simp [Expr.areLegible, ih]

/-- The operands of an expression are written like the expression itself. -/
theorem Expr.operands_written {e : Expr} (hwritten : e.Written) :
    ∀ operand ∈ e.operands, operand.Written := by
  cases e <;> simp_all [Expr.operands, Expr.Written, Expr.writtenAll_iff]

/-- The operands of a legible expression are legible. -/
theorem Expr.operands_legible {e : Expr} (hlegible : e.isLegible = true) :
    ∀ operand ∈ e.operands, operand.isLegible = true := by
  cases e <;> simp_all [Expr.operands, Expr.isLegible, Expr.areLegible_iff]

/-- Expressions with the same head and the same operands are the same. -/
theorem Expr.sameTree_of_operands {e e' : Expr} {head : String} (hwritten : e.Written)
    (hwritten' : e'.Written) (h : e.head? = some head) (h' : e'.head? = some head)
    (hoperands : List.Forall₂ Expr.SameTree e.operands e'.operands) : e.SameTree e' := by
  have hform : e.form? = e'.form? := by
    rw [Expr.form?_eq hwritten h, Expr.form?_eq hwritten' h', hoperands.length_eq]
  have hheads : e.head? = e'.head? := h.trans h'.symm
  have hname {name name' : Token} (hname : name.Reads Token.isIdentifier)
      (hname' : name'.Reads Token.isIdentifier)
      (hsame : (Expr.variable 0 name).SameTree (.variable 0 name')) : name.face = name'.face := by
    cases hsame
    assumption
  -- `e'` can only be of the kind that `e` is of
  cases e with
  | assign =>
    cases e' <;> cases hform
    simp only [Expr.operands, List.forall₂_cons] at hoperands
    exact .assign (hname hwritten.1 hwritten'.1 hoperands.1) hoperands.2.1
  | inherited =>
    cases e' <;> cases hform
    simp only [Expr.operands, List.forall₂_cons] at hoperands
    exact .inherited (hwritten.1.face_of_keyword hwritten'.1)
      (hname hwritten.2 hwritten'.2 hoperands.1)
  | group =>
    cases e' <;> cases hform
    simp only [Expr.operands, List.forall₂_cons] at hoperands
    exact .group hoperands.1
  | unary =>
    cases e' <;> cases hform
    simp only [Expr.operands, List.forall₂_cons] at hoperands
    exact .unary (hwritten.1.face_eq hwritten'.1 (Option.some.inj hheads)) hoperands.1
  | binary =>
    cases e' <;> cases hform
    simp only [Expr.operands, List.forall₂_cons] at hoperands
    exact .binary (hwritten.1.face_eq hwritten'.1 (Option.some.inj hheads)) hoperands.1
      hoperands.2.1
  | logical =>
    cases e' <;> cases hform
    simp only [Expr.operands, List.forall₂_cons] at hoperands
    exact .logical (hwritten.1.face_eq hwritten'.1 (Option.some.inj hheads)) hoperands.1
      hoperands.2.1
  | conditional =>
    cases e' <;> cases hform
    simp only [Expr.operands, List.forall₂_cons] at hoperands
    exact .conditional hoperands.1 hoperands.2.1 hoperands.2.2.1
  | call =>
    cases e' <;> cases hform
    simp only [Expr.operands, List.forall₂_cons] at hoperands
    exact .call hoperands.1 (hwritten.1.face_of_mark hwritten'.1) hoperands.2
  | get =>
    cases e' <;> cases hform
    simp only [Expr.operands, List.forall₂_cons] at hoperands
    exact .get hoperands.1 (hname hwritten.1 hwritten'.1 hoperands.2.1)
  | set =>
    cases e' <;> cases hform
    simp only [Expr.operands, List.forall₂_cons] at hoperands
    exact .set hoperands.1 (hname hwritten.1 hwritten'.1 hoperands.2.1) hoperands.2.2.1
  | literal | «variable» | receiver | function => cases h

/-- Where the text of the expression begins a longer one, no other expression can be read there. -/
def Expr.Told (e : Expr) : Prop :=
  ∀ ⦃e' : Expr⦄ ⦃rest rest' : List Char⦄, e'.Written → e'.isLegible = true →
    Delimited rest → Delimited rest' → e.chars ++ rest = e'.chars ++ rest' →
    e.SameTree e' ∧ rest = rest'

/-- Operands are told apart one after the other, up to the parenthesis that closes them. -/
theorem Expr.charsAll_unique {es es' : List Expr} {rest rest' : List Char}
    (htold : ∀ e ∈ es, e.Told) (hwritten' : ∀ e ∈ es', e.Written)
    (hlegible' : ∀ e ∈ es', e.isLegible = true)
    (h : Expr.charsAll es ++ ')' :: rest = Expr.charsAll es' ++ ')' :: rest') :
    List.Forall₂ Expr.SameTree es es' ∧ rest = rest' := by
  -- an operand begins with a blank, and where there is none the parenthesis stands
  have hdelimited (es : List Expr) (rest : List Char) :
      Delimited (Expr.charsAll es ++ ')' :: rest) := by
    rintro c hc
    cases es <;> cases hc <;> rfl
  induction es generalizing es' with
  | nil =>
    cases es' with
    | nil => exact ⟨.nil, (List.cons.inj h).2⟩
    | cons => cases (List.cons.inj h).1
  | cons e es ih =>
    cases es' with
    | nil => cases (List.cons.inj h).1
    | cons e' es' =>
      obtain ⟨he, hes⟩ := List.forall_mem_cons.mp htold
      obtain ⟨hw, hws⟩ := List.forall_mem_cons.mp hwritten'
      obtain ⟨hl, hls⟩ := List.forall_mem_cons.mp hlegible'
      have hchars : e.chars ++ Expr.charsAll es ++ ')' :: rest =
          e'.chars ++ Expr.charsAll es' ++ ')' :: rest' := (List.cons.inj h).2
      rw [List.append_assoc, List.append_assoc] at hchars
      obtain ⟨hsame, hrest⟩ := he hw hl (hdelimited es rest) (hdelimited es' rest') hchars
      obtain ⟨hall, hend⟩ := ih hes hws hls hrest
      exact ⟨.cons hsame hall, hend⟩

/-- Every legible expression is told apart from all others. -/
theorem Expr.told {e : Expr} (hwritten : e.Written) (hlegible : e.isLegible = true) : e.Told := by
  -- operands have shorter texts than the expression, so the induction is on the length of the text
  induction hlength : e.chars.length using Nat.strongRecOn generalizing e with
  | _ n ih =>
    intro e' rest rest' hwritten' hlegible' hrest hrest' heq
    cases hhead : e.head? with
    | none =>
      obtain ⟨hne, hchars⟩ := Expr.atom_chars hwritten hlegible hhead
      cases hhead' : e'.head? with
      | none =>
        have hchars' := (Expr.atom_chars hwritten' hlegible' hhead').2
        obtain ⟨hsame, hends⟩ := append_inj_of_delimited hchars hchars' hrest hrest' heq
        exact ⟨Expr.atom_sameTree hwritten hwritten' hlegible hlegible' hhead hhead' hsame, hends⟩
      | some head' =>
        obtain ⟨c, cs, htext⟩ := List.exists_cons_of_ne_nil hne
        rw [htext, Expr.chars_eq hhead'] at heq
        have hparen := hchars c (htext ▸ List.mem_cons_self)
        -- an atom does not begin with a parenthesis
        rw [(List.cons.inj heq).1] at hparen
        cases hparen
    | some head =>
      cases hhead' : e'.head? with
      | none =>
        obtain ⟨hne, hchars⟩ := Expr.atom_chars hwritten' hlegible' hhead'
        obtain ⟨c, cs, htext⟩ := List.exists_cons_of_ne_nil hne
        rw [htext, Expr.chars_eq hhead] at heq
        have hparen := hchars c (htext ▸ List.mem_cons_self)
        rw [← (List.cons.inj heq).1] at hparen
        cases hparen
      | some head' =>
        -- both have the form `(head operands)`; a blank ends the head, so the heads are the same
        -- text
        have hspace {e : Expr} {head : String} (rest : List Char) (h : e.head? = some head) :
            Delimited (Expr.charsAll e.operands ++ ')' :: rest) := by
          obtain ⟨operand, operands, hoperands⟩ :=
            List.exists_cons_of_ne_nil (Expr.operands_ne_nil h)
          rw [hoperands]
          rintro c ⟨⟩
          rfl
        rw [Expr.chars_eq hhead, Expr.chars_eq hhead'] at heq
        have hinside : head.toList ++ (Expr.charsAll e.operands ++ ')' :: rest) =
            head'.toList ++ (Expr.charsAll e'.operands ++ ')' :: rest') := by
          simpa using heq
        obtain ⟨hsame, hafter⟩ := append_inj_of_delimited (Expr.head_not_delimiter hwritten hhead)
          (Expr.head_not_delimiter hwritten' hhead') (hspace rest hhead) (hspace rest' hhead')
          hinside
        obtain rfl := String.toList_inj.mp hsame
        have htold : ∀ operand ∈ e.operands, operand.Told := by
          intro operand hmem
          refine ih _ ?_ (Expr.operands_written hwritten operand hmem)
            (Expr.operands_legible hlegible operand hmem) rfl
          have hlt := Expr.chars_length_lt hmem
          rw [← hlength, Expr.chars_eq hhead]
          simp only [List.length_cons, List.length_append]
          omega
        -- the closing parenthesis ends the operands on both sides
        obtain ⟨hoperands, hends⟩ := Expr.charsAll_unique htold
          (Expr.operands_written hwritten') (Expr.operands_legible hlegible') hafter
        exact ⟨Expr.sameTree_of_operands hwritten hwritten' hhead hhead' hoperands, hends⟩

/-- An expression that a text parses to without errors is written with the tokens that belong in
it. -/
theorem Expr.parse_written {source : String} {nextSite : Site} {e : Expr}
    (he : (Expr.parse (scanTokens source) nextSite).tree = some e)
    (herrors : (Expr.parse (scanTokens source) nextSite).errors = []) : e.Written := by
  obtain ⟨ts, line, htokens, -, hts⟩ := scanTokens_lexemes source
  refine (Grammar.expression_derives he herrors).written_tokens fun t ht => ?_
  have hopen : (!t.isEnd) = true := List.all_eq_true.mp List.all_takeWhile t ht
  have hmem : t ∈ scanTokens source := (List.takeWhile_prefix _).mem ht
  rw [htokens] at hmem
  rcases List.mem_append.mp hmem with hmem | hmem
  · exact hts t hmem
  · rw [List.mem_singleton.mp hmem] at hopen
    cases hopen

/-- Two legible expressions with the same parenthesized text are the same tree, up to sites and
lines. -/
theorem Expr.parenthesized_unambiguous {source source' : String} {nextSite nextSite' : Site}
    {e e' : Expr} (he : (Expr.parse (scanTokens source) nextSite).tree = some e)
    (herrors : (Expr.parse (scanTokens source) nextSite).errors = [])
    (he' : (Expr.parse (scanTokens source') nextSite').tree = some e')
    (herrors' : (Expr.parse (scanTokens source') nextSite').errors = [])
    (hlegible : e.isLegible = true) (hlegible' : e'.isLegible = true)
    (h : e.parenthesized = e'.parenthesized) : e.SameTree e' := by
  have htold := Expr.told (Expr.parse_written he herrors) hlegible
  have hdelimited : Delimited [] := by
    rintro c ⟨⟩
  have hchars : e.chars ++ [] = e'.chars ++ [] := by rw [Expr.chars, Expr.chars, h]
  exact (htold (Expr.parse_written he' herrors') hlegible' hdelimited hdelimited hchars).1

/-- One expression in two texts, with other layout, other numerals and other sites. -/
theorem Expr.parenthesized_unambiguous_layout :
    ∃ e e', (Expr.parse (scanTokens
        "x.y = -f(1.50, this).z ? a and b : (c + 2, super.m)") 0).tree = some e ∧
      (Expr.parse (scanTokens
        "x.y =\n -f( 1.5 , this ) . z ? a and b\n : ( c+2.00, super.m )") 7).tree = some e' ∧
      e.parenthesized =
        "(.= x y (?: (- (. (call f 1.5 this) z)) (and a b) (group (, (+ c 2.0) (super m)))))" ∧
      e.parenthesized = e'.parenthesized ∧ e.isLegible = true ∧ e'.isLegible = true ∧
      e.SameTree e' := by
  obtain ⟨herrors, htree, hlegible⟩ :
      let parsed := Expr.parse (scanTokens
        "x.y = -f(1.50, this).z ? a and b : (c + 2, super.m)") 0
      parsed.errors = [] ∧ parsed.tree.map Expr.parenthesized = some
        "(.= x y (?: (- (. (call f 1.5 this) z)) (and a b) (group (, (+ c 2.0) (super m)))))" ∧
      parsed.tree.map Expr.isLegible = some true := by decide +kernel
  obtain ⟨herrors', htree', hlegible'⟩ :
      let parsed := Expr.parse (scanTokens
        "x.y =\n -f( 1.5 , this ) . z ? a and b\n : ( c+2.00, super.m )") 7
      parsed.errors = [] ∧ parsed.tree.map Expr.parenthesized = some
        "(.= x y (?: (- (. (call f 1.5 this) z)) (and a b) (group (, (+ c 2.0) (super m)))))" ∧
      parsed.tree.map Expr.isLegible = some true := by decide +kernel
  obtain ⟨e, he, htext⟩ := Option.map_eq_some_iff.mp htree
  obtain ⟨e', he', htext'⟩ := Option.map_eq_some_iff.mp htree'
  rw [he, Option.map_some, Option.some_inj] at hlegible
  rw [he', Option.map_some, Option.some_inj] at hlegible'
  have hsame : e.parenthesized = e'.parenthesized := htext.trans htext'.symm
  exact ⟨e, e', he, he', htext, hsame, hlegible, hlegible',
    Expr.parenthesized_unambiguous he herrors he' herrors' hlegible hlegible' hsame⟩

end Lox
