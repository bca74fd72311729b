import Mathlib.Data.List.Forall2
import Lox.Proofs.Grammar.Completeness
import Lox.Proofs.Grammar.Unparse
import Lox.Proofs.Lowered.Trees

/-!
# Loops in the tokens

`ForLoop.asWhile` writes the tokens of a `for` as those of a `while` in a block. The tokens of a
program read as a `for` in one way only (`ForLoop.Stands.unique`), and so it is said of the tokens
alone which loops of a program are written out (`Written`).

`Becomes ts rest P` follows tokens of one program into the other: whatever becomes of a row that
begins with `ts`, it begins with a row of which `P` holds. There is one law for a token and one for
rows in a row.
-/

namespace Lox

/-! ## A loop and its tokens -/

namespace Grammar

/-- The tokens of a `for`: its clauses and its body, and what stands between them. The first clause
has its semicolon, and a clause that is absent has no tokens. -/
structure ForLoop where
  keyword : Token
  opening : Token
  start : List Token
  condition : List Token
  separator : Token
  increment : List Token
  closing : Token
  body : List Token

namespace ForLoop

/-- The tokens of the loop in their order. -/
def tokens (loop : ForLoop) : List Token :=
  loop.keyword :: loop.opening :: (loop.start ++ (loop.condition ++ loop.separator ::
    (loop.increment ++ loop.closing :: loop.body)))

/-- What is added stands on the line of the `for`. -/
def spelling (loop : ForLoop) : Spelling :=
  .plain loop.keyword.line

/-- The condition of the `while`. -/
def whileCondition (loop : ForLoop) : List Token :=
  if loop.condition = [] then [loop.spelling.keyword .trueKw] else loop.condition

/-- The increment as a statement. -/
def whileIncrement (loop : ForLoop) : List Token :=
  if loop.increment = [] then [] else loop.increment ++ [loop.spelling.mark .semicolon]

/-- The `while` with the body and the increment in a block. -/
def whileLoop (loop : ForLoop) : List Token :=
  loop.spelling.keyword .whileKw :: loop.spelling.mark .leftParen :: (loop.whileCondition ++
    loop.spelling.mark .rightParen :: loop.spelling.mark .leftBrace :: (loop.body ++
      (loop.whileIncrement ++ [loop.spelling.mark .rightBrace])))

/-- The loop as a `while`, in a block behind the first clause unless that is a semicolon only. -/
def asWhile (loop : ForLoop) : List Token :=
  if loop.start.length = 1 then loop.whileLoop
  else loop.spelling.mark .leftBrace :: (loop.start ++ (loop.whileLoop ++
    [loop.spelling.mark .rightBrace]))

/-- Before the tokens `after`, these are the tokens of a `for` with this body: the clauses and the
body are phrases of the grammar, and an `else` that the body would take does not follow it. -/
structure Stands (loop : ForLoop) (body : Stmt) (after : List Token) : Prop where
  keyword : loop.keyword.isKeyword .forKw = true
  opening : loop.opening.isMark .leftParen = true
  start : ∃ s, Derives (.forStart s) loop.start
  condition : ∃ e, Derives (.optional e) loop.condition
  separator : loop.separator.isMark .semicolon = true
  increment : ∃ e, Derives (.optional e) loop.increment
  closing : loop.closing.isMark .rightParen = true
  body : ∃ isOpen, Derives (.statement isOpen body) loop.body ∧
    (isOpen = true → after.head?.any (Token.isKeyword .elseKw) = false)

end ForLoop

end Grammar

/-! ## There is one way to read a loop -/

/-- What a rule reads, and what it gives, is decided by the tokens. -/
theorem Parser.Reaches.unique {α : Type} {p : Parser α} {ts ts' rest rest' : List Token}
    {P P' : α → Prop} (h : Reaches p ts rest P) (h' : Reaches p ts' rest' P')
    (heq : ts' ++ rest' = ts ++ rest) : ts' = ts ∧ rest' = rest ∧ ∃ a, P a ∧ P' a := by
  let c : Cursor := ⟨ts ++ rest, Token.missingEnd, [], 0⟩
  obtain ⟨a, site, hrun, ha⟩ := h c rfl
  obtain ⟨a', site', hrun', ha'⟩ := h' c heq.symm
  rw [hrun] at hrun'
  cases hrun'
  exact ⟨List.append_cancel_right heq, rfl, a, ha, ha'⟩

namespace Grammar

section Unique

variable {ts ts' rest rest' : List Token}

/-- The fuel for a row of tokens covers it, however it is divided. -/
theorem covers_both (heq : ts' ++ rest' = ts ++ rest) (cost : Nat) (hcost : cost ≤ callsPerToken) :
    Covers (fuelFor (ts ++ rest).length) (ts.length + rest.length) cost ∧
      Covers (fuelFor (ts ++ rest).length) (ts'.length + rest'.length) cost := by
  rw [← List.length_append, ← List.length_append, heq]
  exact ⟨covers_fuelFor _ _ hcost, covers_fuelFor _ _ hcost⟩

/-- The first clause of a `for` ends in one place only. -/
theorem Derives.start_unique {start start' : Option Stmt} (h : Derives (.forStart start) ts)
    (h' : Derives (.forStart start') ts') (heq : ts' ++ rest' = ts ++ rest) :
    ts' = ts ∧ rest' = rest := by
  obtain ⟨hcover, hcover'⟩ := covers_both heq (rankCost .comma) (by decide)
  obtain ⟨hts, hrest, -⟩ := (h.recognized hcover).unique (h'.recognized hcover') heq
  exact ⟨hts, hrest⟩

/-- A clause that may be absent ends at a mark that no expression goes on with. -/
theorem Derives.optional_unique {e e' : Option Expr} (h : Derives (.optional e) ts)
    (h' : Derives (.optional e') ts') {mark : Mark} (hmark : mark = .semicolon ∨ mark = .rightParen)
    (heq : ts' ++ rest' = ts ++ rest) (hrest : rest.head?.any (Token.isMark mark) = true)
    (hrest' : rest'.head?.any (Token.isMark mark) = true) : ts' = ts ∧ rest' = rest := by
  obtain ⟨hcover, hcover'⟩ := covers_both heq (rankCost .comma) (by decide)
  obtain ⟨hts, hrest, -⟩ :=
    (h.recognized hmark hrest hcover).unique (h'.recognized hmark hrest' hcover') heq
  exact ⟨hts, hrest⟩

/-- A statement ends in one place only, if no `else` is left that it would take. -/
theorem Derives.statement_unique {isOpen isOpen' : Bool} {s s' : Stmt}
    (h : Derives (.statement isOpen s) ts) (h' : Derives (.statement isOpen' s') ts')
    (heq : ts' ++ rest' = ts ++ rest)
    (helse : isOpen = true → rest.head?.any (Token.isKeyword .elseKw) = false)
    (helse' : isOpen' = true → rest'.head?.any (Token.isKeyword .elseKw) = false) :
    ts' = ts ∧ rest' = rest ∧ s'.unsited = s.unsited := by
  obtain ⟨hcover, hcover'⟩ := covers_both heq 20 (by decide)
  obtain ⟨hts, hrest, tree, hs, hs'⟩ :=
    (h.recognized hcover helse).unique (h'.recognized hcover' helse') heq
  exact ⟨hts, hrest, hs'.symm.trans hs⟩

end Unique

/-- The tokens are read as a `for` in one way only. -/
theorem ForLoop.Stands.unique {loop loop' : ForLoop} {body body' : Stmt} {after after' : List Token}
    (h : loop.Stands body after) (h' : loop'.Stands body' after')
    (heq : loop'.tokens ++ after' = loop.tokens ++ after) :
    loop' = loop ∧ after' = after ∧ body'.unsited = body.unsited := by
  obtain ⟨keyword, opening, start, condition, separator, increment, closing, bodyTokens⟩ := loop
  obtain ⟨keyword', opening', start', condition', separator', increment', closing', bodyTokens'⟩ :=
    loop'
  obtain ⟨-, -, ⟨s, hs⟩, ⟨c, hc⟩, hseparator, ⟨i, hi⟩, hclosing, isOpen, hb, helse⟩ := h
  obtain ⟨-, -, ⟨s', hs'⟩, ⟨c', hc'⟩, hseparator', ⟨i', hi'⟩, hclosing', isOpen', hb', helse'⟩ := h'
  simp only [ForLoop.tokens, List.cons_append, List.append_assoc, List.cons.injEq] at *
  obtain ⟨rfl, rfl, hclauses⟩ := heq
  obtain ⟨rfl, hcondition⟩ := hs.start_unique hs' hclauses
  obtain ⟨rfl, hmore⟩ := hc.optional_unique hc' (.inl rfl) hcondition hseparator hseparator'
  obtain ⟨rfl, hincrement⟩ := List.cons.inj hmore
  obtain ⟨rfl, hend⟩ := hi.optional_unique hi' (.inr rfl) hincrement hclosing hclosing'
  obtain ⟨rfl, hbodies⟩ := List.cons.inj hend
  obtain ⟨rfl, rfl, hbody⟩ := hb.statement_unique hb' hbodies helse helse'
  exact ⟨rfl, rfl, hbody⟩

/-! ## Tokens of both programs -/

/-- The second row of tokens is the first one with some loops written out, up to lines. No
`continue` belongs to them, and none of them stands in another one. -/
inductive Written : List Token → List Token → Prop where
  | nil : Written [] []
  | next {t t' : Token} {ts ts' : List Token} (ht : t.Same t') (hts : Written ts ts') :
      Written (t :: ts) (t' :: ts')
  | loop {loop : ForLoop} {body : Stmt} {after after' ws : List Token}
      (hloop : loop.Stands body after) (hcontinues : body.continues = false)
      (hws : List.Forall₂ Token.Same loop.asWhile ws) (hafter : Written after after') :
      Written (loop.tokens ++ after) (ws ++ after')

namespace Written

variable {t : Token} {ts us vs ws : List Token}

/-- Nothing needs to be written out. -/
theorem of_same (h : List.Forall₂ Token.Same ts us) : Written ts us := by
  induction h with
  | nil => exact .nil
  | cons ht _ ih => exact .next ht ih

/-- Tokens that stay may stand before loops that are written out. -/
theorem append_same (h : List.Forall₂ Token.Same ts us) (hvs : Written vs ws) :
    Written (ts ++ vs) (us ++ ws) := by
  induction h with
  | nil => exact hvs
  | cons ht _ ih => exact .next ht ih

/-- An empty row has no loop, so it is written as an empty row. -/
theorem nil_left (h : Written [] us) : us = [] := by
  generalize hrow : [] = row at h
  cases h with
  | nil => rfl
  | next => cases hrow
  | loop => cases hrow

/-- What becomes of the first token: it stays, or it begins a loop that is written out. -/
theorem cons_left (h : Written (t :: ts) us) :
    (∃ t' us', us = t' :: us' ∧ t.Same t' ∧ Written ts us') ∨
      ∃ (loop : ForLoop) (body : Stmt) (after after' ws : List Token),
        loop.Stands body after ∧ body.continues = false ∧
          List.Forall₂ Token.Same loop.asWhile ws ∧ Written after after' ∧
          t :: ts = loop.tokens ++ after ∧ us = ws ++ after' := by
  obtain ⟨row, hrow⟩ : ∃ row, row = t :: ts := ⟨_, rfl⟩
  rw [← hrow] at h
  cases h with
  | nil => cases hrow
  | next ht hts =>
    cases hrow
    exact .inl ⟨_, _, rfl, ht, hts⟩
  | loop hloop hcontinues hws hafter =>
    exact .inr ⟨_, _, _, _, _, hloop, hcontinues, hws, hafter, hrow.symm, rfl⟩

end Written

/-! ## Following the tokens of a phrase -/

/-- Whatever becomes of a row that begins with `ts`, it begins with tokens of which `P` holds. -/
def Becomes (ts rest : List Token) (P : List Token → Prop) : Prop :=
  ∀ us, Written (ts ++ rest) us → ∃ ts' rest', us = ts' ++ rest' ∧ Written rest rest' ∧ P ts'

/-- A test that a token passes on every line, and that no `for` passes. -/
structure Blind (test : Token → Prop) : Prop where
  same : ∀ t t', t.Same t' → test t → test t'
  other : ∀ t, test t → t.isKeyword .forKw = false

namespace Blind

/-- A test on the kind of the token. -/
theorem of_kind {test : Token → Prop} (hkind : ∀ t t' : Token, t'.kind = t.kind → test t → test t')
    (hfor : ∀ t : Token, t.kind = .keyword .forKw → ¬ test t) : Blind test where
  same t t' ht := hkind t t' ht.kind
  other t ht := Bool.eq_false_iff.mpr fun hk => hfor t (Token.isKeyword_iff.mp hk) ht

/-- No mark begins a loop. -/
theorem mark (m : Mark) : Blind (fun t => t.isMark m = true) := by
  refine of_kind (fun t t' h => ?_) (fun t h => ?_)
  · rw [Token.isMark_iff, Token.isMark_iff, h]
    exact id
  · rw [Token.isMark_iff, h]
    exact fun h => nomatch h

/-- No keyword but `for` begins a loop. -/
theorem keyword {k : Keyword} (hk : k ≠ .forKw) : Blind (fun t => t.isKeyword k = true) := by
  refine of_kind (fun t t' h => ?_) (fun t h => ?_)
  · rw [Token.isKeyword_iff, Token.isKeyword_iff, h]
    exact id
  · rw [Token.isKeyword_iff, h]
    exact fun h => hk (Kind.keyword.inj h).symm

/-- No name begins a loop. -/
theorem identifier : Blind (fun t => t.isIdentifier = true) := by
  refine of_kind (fun t t' h => ?_) (fun t h => ?_)
  · rw [Token.isIdentifier_iff, Token.isIdentifier_iff, h]
    exact id
  · rw [Token.isIdentifier_iff, h]
    exact fun h => nomatch h

theorem marker (marker : String) : Blind (fun t => isMarker marker t = true) where
  same t t' ht h := by
    rw [isMarker_iff] at h ⊢
    exact ⟨ht.kind.trans h.1, ht.lexeme.trans h.2⟩
  other t h := identifier.other t (Token.isIdentifier_iff.mpr (isMarker_iff.mp h).1)

/-- No operator begins a loop. -/
theorem joins (level : Level) : Blind (fun t => level.joins t = true) := by
  refine of_kind (fun t t' h => ?_) (fun t h => ?_)
  · unfold Level.joins
    rw [h]
    exact id
  · unfold Level.joins
    rw [h]
    cases level <;> exact Bool.false_ne_true

theorem unaryOperator : Blind (fun t => isUnaryOperator t = true) := by
  refine of_kind (fun t t' h => ?_) (fun t h => ?_)
  · unfold isUnaryOperator Token.isMark
    rw [h]
    exact id
  · unfold isUnaryOperator Token.isMark
    rw [h]
    exact Bool.false_ne_true

/-- No literal begins a loop. -/
theorem literal (value : Literal) : Blind (fun t => t.literal? = some value) := by
  refine of_kind (fun t t' h => ?_) (fun t h => ?_)
  · unfold Token.literal?
    rw [h]
    exact id
  · unfold Token.literal?
    rw [h]
    exact fun h => nomatch h

end Blind

namespace Becomes

variable {t : Token} {ts us rest : List Token} {P Q : List Token → Prop}

/-- What follows may be weakened. -/
theorem imp (h : Becomes ts rest P) (hPQ : ∀ ts', P ts' → Q ts') : Becomes ts rest Q := by
  intro row hrow
  obtain ⟨ts', rest', rfl, hrest, hts⟩ := h row hrow
  exact ⟨ts', rest', rfl, hrest, hPQ ts' hts⟩

/-- A phrase without tokens leaves all that is written for what follows. -/
theorem done (h : P []) : Becomes [] rest P :=
  fun row hrow => ⟨[], row, rfl, hrow, h⟩

/-- Tokens are followed part by part. -/
theorem append (h : Becomes ts (us ++ rest) P)
    (hus : ∀ ts', P ts' → Becomes us rest fun us' => Q (ts' ++ us')) :
    Becomes (ts ++ us) rest Q := by
  intro row hrow
  rw [List.append_assoc] at hrow
  obtain ⟨ts', row', rfl, hrow', hts⟩ := h row hrow
  obtain ⟨us', rest', rfl, hrest, hall⟩ := hus ts' hts row' hrow'
  exact ⟨ts' ++ us', rest', (List.append_assoc ..).symm, hrest, hall⟩

/-- A token that stays what it is. -/
theorem next {test : Token → Prop} (hblind : Blind test) (ht : test t)
    (hts : ∀ t', t.Same t' → test t' → Becomes ts rest fun ts' => P (t' :: ts')) :
    Becomes (t :: ts) rest P := by
  intro row hrow
  rcases Written.cons_left hrow with ⟨t', row', rfl, hsame, hrow'⟩ |
    ⟨loop, body, after, after', ws, hloop, -, -, -, heq, -⟩
  · obtain ⟨ts', rest', rfl, hrest, hall⟩ := hts t' hsame (hblind.same t t' hsame ht) row' hrow'
    exact ⟨t' :: ts', rest', rfl, hrest, hall⟩
  · obtain rfl : t = loop.keyword := (List.cons.inj heq).1
    exact absurd (hblind.other _ ht) (by rw [hloop.keyword]; decide)

/-- What becomes of a whole row. -/
theorem whole (h : Becomes ts [] P) (hus : Written ts us) : P us := by
  obtain ⟨ts', rest', rfl, hrest, hts⟩ := h us (by rwa [List.append_nil])
  rw [hrest.nil_left, List.append_nil]
  exact hts

end Becomes

end Grammar

end Lox
