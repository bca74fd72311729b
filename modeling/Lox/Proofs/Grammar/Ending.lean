import Lox.Proofs.Grammar.Append
import Lox.Proofs.Grammar.Lookahead

/-!
# Where an expression ends

A rule for expressions looks at the token behind the expression to see whether it goes on. So where
a text ends with an expression, little can be said of a longer text (`Following`). This module says
what can: if the longer text goes on with a token that goes on no expression, such as a semicolon,
the expression is read as it is at the end of a text (`ending`). A row of tokens that is an
expression is therefore a statement that prints it, put between the keyword and a semicolon
(`parse_print`).
-/

namespace Lox.Grammar

open Lox.Parser

variable {S : Seam}

/-! ## One rule after another -/

section Rules

variable {conditional assignment or expression unary call : Parser Expr}
variable {conditional' assignment' or' expression' unary' call' : Parser Expr}

theorem assignmentRule_ends (hmore : Stops .comma S.more)
    (hc : S.Follows False (Expr.shifted S.toShift) conditional conditional')
    (ha : S.Follows False (Expr.shifted S.toShift) assignment assignment') :
    S.Follows False (Expr.shifted S.toShift) (assignmentRule conditional assignment)
      (assignmentRule conditional' assignment') := by
  have hequal := hmore.mark (m := .equal) ⟨.assignment, rfl, by decide⟩
  refine .bind hc fun target => .take? (fun _ _ => rfl) (fun equals _ => ?_) (.pure rfl)
    (.inr (.inr hequal))
  exact .bind ha fun value => assignTo_follows target equals value

theorem conditionalRule_ends (hmore : Stops .comma S.more)
    (ho : S.Follows False (Expr.shifted S.toShift) or or')
    (he : S.Follows True (Expr.shifted S.toShift) expression expression')
    (hc : S.Follows False (Expr.shifted S.toShift) conditional conditional') :
    S.Follows False (Expr.shifted S.toShift) (conditionalRule or expression conditional)
      (conditionalRule or' expression' conditional') := by
  have hquestion := hmore.mark (m := .question) ⟨.conditional, rfl, by decide⟩
  refine .bind ho fun condition => .takes (fun _ _ => rfl) ?_ (.pure rfl)
    (.inr (.inr hquestion))
  refine .ending he (fun whenTrue => ?_) fun whenTrue => .bind (.expect _ _)
  exact .bind (.expect (fun _ _ => rfl) _ _) fun _ => .bind hc fun whenFalse => .pure rfl

/-- Where nothing is left to read, there is no operand. -/
theorem unaryRule_ends (hu : S.Follows False (Expr.shifted S.toShift) unary unary')
    (hc : S.Follows False (Expr.shifted S.toShift) call call') (hend : Demands call) :
    S.Follows False (Expr.shifted S.toShift) (unaryRule unary call) (unaryRule unary' call') :=
  .take? (fun _ _ => rfl) (fun _ _ => .bind hu fun _ => .pure rfl) hc (.inr (.inl hend))

end Rules

theorem primary_demands (fuel : Nat) : Demands (primary fuel) := by
  cases fuel with
  | zero => exact .outOfFuel
  | succ fuel => exact .take? (.peek fun t => .refuse _ t _)

theorem call_demands (fuel : Nat) : Demands (call fuel) := by
  cases fuel with
  | zero => exact .outOfFuel
  | succ fuel => exact .bind (primary_demands fuel)

/-! ## The rules tied together -/

/-- With these fuels, every rule that may end with the text does in the second text what it does in
the first one, the end included. -/
structure Ending (S : Seam) (fuel fuel' : Nat) : Prop where
  binary (level : Level) :
    S.Follows False (Expr.shifted S.toShift) (binary fuel level) (binary fuel' level)
  binaryRest (level : Level) (left : Expr) :
    S.Follows False (Expr.shifted S.toShift) (binaryRest fuel level left)
      (binaryRest fuel' level (left.shifted S.toShift))
  operand (level : Level) :
    S.Follows False (Expr.shifted S.toShift) (operand fuel level) (operand fuel' level)
  assignment : S.Follows False (Expr.shifted S.toShift) (assignment fuel) (assignment fuel')
  conditional : S.Follows False (Expr.shifted S.toShift) (conditional fuel) (conditional fuel')
  unary : S.Follows False (Expr.shifted S.toShift) (unary fuel) (unary fuel')
  call : S.Follows False (Expr.shifted S.toShift) (call fuel) (call fuel')
  callRest (callee : Expr) :
    S.Follows False (Expr.shifted S.toShift) (callRest fuel callee)
      (callRest fuel' (callee.shifted S.toShift))

theorem ending_zero (fuel' : Nat) : Ending S 0 fuel' where
  binary _ := .outOfFuel
  binaryRest _ _ := .outOfFuel
  operand _ := .outOfFuel
  assignment := .outOfFuel
  conditional := .outOfFuel
  unary := .outOfFuel
  call := .outOfFuel
  callRest _ := .outOfFuel

section Step

variable {fuel fuel' : Nat} (hmore : Stops .comma S.more) (ends : Ending S fuel fuel')

include hmore ends

theorem Ending.binaryRest_step (level : Level) (left : Expr) :
    S.Follows False (Expr.shifted S.toShift) (Grammar.binaryRest (fuel + 1) level left)
      (Grammar.binaryRest (fuel' + 1) level (left.shifted S.toShift)) := by
  have hjoins : Token.Lineless level.joins := fun _ _ => rfl
  have hnone := hmore.head?_any (Nat.zero_le level.rank.index) fun _ => goesOn?_joins
  refine .take? hjoins (fun operator _ => ?_) (.pure rfl) (.inr (.inr hnone))
  refine .bind (ends.operand level) fun right => ?_
  rw [← Level.shifted_join]
  exact ends.binaryRest level _

omit hmore in
theorem Ending.operand_step (level : Level) :
    S.Follows False (Expr.shifted S.toShift) (Grammar.operand (fuel + 1) level)
      (Grammar.operand (fuel' + 1) level) := by
  cases level with
  | comma => exact ends.assignment
  | or => exact ends.binary .and
  | and => exact ends.binary .equality
  | equality => exact ends.binary .comparison
  | comparison => exact ends.binary .term
  | term => exact ends.binary .factor
  | factor => exact ends.unary

/-- Arguments end with a parenthesis, so it does not matter what they are followed by. -/
theorem Ending.callRest_step (hfuel : fuel ≤ fuel') (callee : Expr) :
    S.Follows False (Expr.shifted S.toShift) (Grammar.callRest (fuel + 1) callee)
      (Grammar.callRest (fuel' + 1) (callee.shifted S.toShift)) := by
  have hparen := hmore.mark (m := .leftParen) ⟨.call, rfl, by decide⟩
  have hdot := hmore.mark (m := .dot) ⟨.call, rfl, by decide⟩
  refine .takes (fun _ _ => rfl) ?_ ?_ (.inr (.inr hparen))
  · exact .bind (argumentsRule_follows ((following hfuel).arguments 0)) fun result =>
      ends.callRest (.call callee result.2 result.1)
  refine .takes (fun _ _ => rfl) ?_ (.pure rfl) (.inr (.inr hdot))
  exact .bind (.expect (fun _ _ => rfl) _ _) fun name => ends.callRest (.get callee name)

theorem Ending.step (hfuel : fuel ≤ fuel') : Ending S (fuel + 1) (fuel' + 1) where
  binary level := .bind (ends.operand level) fun left => ends.binaryRest level left
  binaryRest := ends.binaryRest_step hmore
  operand := ends.operand_step
  assignment := assignmentRule_ends hmore ends.conditional ends.assignment
  conditional :=
    conditionalRule_ends hmore (ends.binary .or) ((following hfuel).binary .comma)
      ends.conditional
  unary := unaryRule_ends ends.unary ends.call (call_demands fuel)
  call := .bind (following hfuel).primary fun callee => ends.callRest callee
  callRest := ends.callRest_step hmore hfuel

end Step

/-- Behind an expression at the end of a text there may as well be a token that goes on none. -/
theorem ending {fuel fuel' : Nat} (hmore : Stops .comma S.more) (hfuel : fuel ≤ fuel') :
    Ending S fuel fuel' := by
  induction fuel generalizing fuel' with
  | zero => exact ending_zero fuel'
  | succ fuel ih =>
    obtain ⟨fuel', rfl⟩ : ∃ n, fuel' = n + 1 := ⟨fuel' - 1, by omega⟩
    exact (ih (by omega)).step hmore (by omega)

/-! ## An expression and the statement that prints it -/

section Printing

variable {ts : List Token} {stop : Token} {n : Site} {e : Expr}

/-- Tokens that are parsed as an expression without errors are read to their end. -/
theorem binary_of_parse {tokens : List Token} (htree : (Expr.parse tokens n).tree = some e)
    (herrors : (Expr.parse tokens n).errors = []) :
    ∃ c, binary (fuelFor (Cursor.start tokens n).unread.length) .comma (Cursor.start tokens n) =
        .ok e c ∧
      c.unread = [] ∧ c.errors = [] ∧ c.nextSite = (Expr.parse tokens n).nextSite := by
  let start := Cursor.start tokens n
  let fuel := fuelFor start.unread.length
  unfold Expr.parse Parser.run at htree herrors ⊢
  dsimp only at htree herrors ⊢
  cases hbinary : binary fuel .comma start with
  | error refusal c =>
    rw [show wholeExpression fuel start = .error refusal c from bind_error hbinary] at htree
    cases refusal <;> cases htree
  | ok value c =>
    have hwhole : wholeExpression fuel start = (if c.unread.isEmpty then pure (some value) else _ :
      Parser (Option Expr)) c := bind_ok hbinary
    rw [hwhole] at htree herrors ⊢
    by_cases hempty : c.unread = []
    · rw [if_pos (List.isEmpty_iff.mpr hempty)] at htree herrors ⊢
      obtain rfl : value = e := Option.some.inj htree
      exact ⟨c, rfl, hempty, herrors, rfl⟩
    · rw [if_neg fun h => hempty (List.isEmpty_iff.mp h)] at htree
      cases htree

/-- An expression in front of tokens that go on none, so many lines later. -/
theorem binary_before (lines : Nat) (more : List Token) (c' : Cursor) {stop' : Token} {fuel' : Nat}
    (hopen : ∀ t ∈ ts, t.isEnd = false) (hstop : stop.isEnd = true)
    (htree : (Expr.parse (ts ++ [stop]) n).tree = some e)
    (herrors : (Expr.parse (ts ++ [stop]) n).errors = []) (hmore : Stops .comma more)
    (helse : more.head?.any (Token.isKeyword .elseKw) = false)
    (hunread : c'.unread = ts.map (Token.later lines) ++ more) (hstop' : c'.stop = stop')
    (hnone : c'.errors = []) (hnext : c'.nextSite = n) (hfuel : fuelFor ts.length ≤ fuel') :
    binary fuel' .comma c' = .ok (e.shifted ⟨lines, id⟩)
      ⟨more, stop', [], (Expr.parse (ts ++ [stop]) n).nextSite⟩ := by
  obtain ⟨hstart, hstartStop⟩ := start_open n hopen hstop
  obtain ⟨c, hbinary, hempty, hclean, hsite⟩ := binary_of_parse htree herrors
  rw [hstart] at hbinary
  -- the seam at which the expression ends and the other tokens begin; nothing is spoilt there,
  -- since no error is awaited
  let S : Seam := {
    lines
    sites := id
    before := []
    more
    stop
    stop'
    continued := True
    bad := fun _ => True
    whole := fun hno => absurd trivial hno
    atStop := fun _ _ _ => trivial
    noElse := helse }
  have hj : S.Joins (Cursor.start (ts ++ [stop]) n) c' :=
    ⟨by rw [hunread, hstart], hstartStop, hstop', hnone, fun i => by rw [hnext]; rfl,
      fun _ ⟨_, hno⟩ => absurd trivial hno⟩
  have hagree := ((ending (S := S) hmore hfuel).binary .comma).agree _ _ hj
  rw [hbinary] at hagree
  rcases hagree with ⟨e, he, -⟩ | ⟨hno, -⟩ | ⟨⟨unread, after, errors, next⟩, hbinary', hj'⟩
  · rw [hclean] at he
    cases he
  · exact hno.elim
  · obtain rfl : unread = [] ++ more := hempty ▸ hj'.unread
    have herrors' := hj'.errors
    rw [hclean] at herrors'
    obtain rfl : errors = [] := herrors'
    obtain rfl : after = stop' := hj'.stop'
    obtain rfl : c.nextSite = next := hj'.sites 0
    rw [hbinary', hsite]

variable {lines : Nat} {c : Cursor} {keyword semicolon : Token} {fuel : Nat}

/-- The statement that prints an expression, up to its semicolon. -/
theorem statement_print (hkeyword : keyword.isKeyword .printKw = true)
    (hsemicolon : semicolon.isMark .semicolon = true) (hopen : ∀ t ∈ ts, t.isEnd = false)
    (hstop : stop.isEnd = true) (htree : (Expr.parse (ts ++ [stop]) n).tree = some e)
    (herrors : (Expr.parse (ts ++ [stop]) n).errors = [])
    (hunread : c.unread = keyword :: (ts.map (Token.later lines) ++ [semicolon]))
    (hnone : c.errors = []) (hnext : c.nextSite = n) (hfuel : fuelFor ts.length ≤ fuel) :
    statement (fuel + 1) c = .ok (.print keyword (e.shifted ⟨lines, id⟩))
      ⟨[], c.stop, [], (Expr.parse (ts ++ [stop]) n).nextSite⟩ := by
  have hkind : keyword.kind = .keyword .printKw := Token.isKeyword_iff.mp hkeyword
  have hopens : opensStatement keyword = true := by
    unfold opensStatement
    rw [hkind]
  have hvalue := binary_before lines [semicolon]
    { c with unread := ts.map (Token.later lines) ++ [semicolon] } hopen hstop htree herrors
    (stops_mark hsemicolon fun r hr => nomatch hr) ?_ rfl rfl hnone hnext hfuel
  · have hprint : printRule (binary fuel .comma) keyword
        { c with unread := ts.map (Token.later lines) ++ [semicolon] } = _ :=
      (bind_ok hvalue).trans (bind_ok (expect_some rfl hsemicolon))
    refine (bind_ok (take?_some hunread hopens)).trans ?_
    dsimp only
    rw [hkind]
    exact hprint
  · show semicolon.isKeyword .elseKw = false
    unfold Token.isKeyword
    rw [Token.isMark_iff.mp hsemicolon]

/-- The keywords at which a declaration begins. -/
def declarationKeywords : List Keyword :=
  [.classKw, .funKw, .valKw, .varKw]

/-- Where no declaration begins, there is a statement. -/
theorem declarationRule_plain {expression : Parser Expr} {statement : Parser Stmt}
    {declarations : Parser (List Stmt)} {members : Parser Members}
    (h : ∀ k ∈ declarationKeywords, c.unread.head?.any (Token.isKeyword k) = false) :
    declarationRule fuel expression statement declarations members c = statement c := by
  have htakes : ∀ k ∈ declarationKeywords, takes (Token.isKeyword k) c = .ok false c :=
    fun k hk => bind_ok (take?_none (h k hk))
  refine (bind_ok (htakes .classKw (by decide))).trans ?_
  show (if (c.sees (Token.isKeyword .funKw) && c.seesSecond (Token.isMark .leftParen)) = true then
    statement else _ : Parser Stmt) c = _
  rw [show c.sees (Token.isKeyword .funKw) = false from h .funKw (by decide), Bool.false_and]
  refine (bind_ok (htakes .funKw (by decide))).trans ?_
  refine (bind_ok (htakes .valKw (by decide))).trans ?_
  exact bind_ok (htakes .varKw (by decide))

/-- A row of tokens that is an expression is a statement that prints it, put between the keyword
and a semicolon. -/
theorem parse_print {stop' : Token} (hkeyword : keyword.isKeyword .printKw = true)
    (hsemicolon : semicolon.isMark .semicolon = true) (hopen : ∀ t ∈ ts, t.isEnd = false)
    (hstop : stop.isEnd = true) (hstop' : stop'.isEnd = true)
    (htree : (Expr.parse (ts ++ [stop]) n).tree = some e)
    (herrors : (Expr.parse (ts ++ [stop]) n).errors = []) :
    Program.parse (keyword :: (ts.map (Token.later lines) ++ [semicolon]) ++ [stop']) n =
      ⟨[.print keyword (e.shifted ⟨lines, id⟩)], [], (Expr.parse (ts ++ [stop]) n).nextSite⟩ := by
  have hinner : ∀ t ∈ keyword :: (ts.map (Token.later lines) ++ [semicolon]), t.isEnd = false := by
    intro t ht
    rcases List.mem_cons.mp ht with rfl | ht
    · exact inner_of_isKeyword hkeyword
    rcases List.mem_append.mp ht with ht | ht
    · obtain ⟨u, hu, rfl⟩ := List.mem_map.mp ht
      exact hopen u hu
    · rw [List.mem_singleton.mp ht]
      exact inner_of_isMark hsemicolon
  obtain ⟨hunread, -⟩ := start_open n hinner hstop'
  generalize hc : Cursor.start (keyword :: (ts.map (Token.later lines) ++ [semicolon]) ++ [stop']) n
    = c at hunread
  have hnone : c.errors = [] := by rw [← hc]; rfl
  have hnext : c.nextSite = n := by rw [← hc]; rfl
  obtain ⟨fuel, hfuel, hle⟩ : ∃ fuel, fuelFor c.unread.length = fuel + 3 ∧
      fuelFor ts.length ≤ fuel := by
    refine ⟨fuelFor c.unread.length - 3, ?_⟩
    rw [hunread]
    simp only [fuelFor, callsPerToken, List.length_cons, List.length_append, List.length_map]
    omega
  have hprint := statement_print hkeyword hsemicolon hopen hstop htree herrors hunread hnone hnext
    hle
  -- the keyword begins a statement and no declaration
  have hplain : ∀ k ∈ declarationKeywords, c.unread.head?.any (Token.isKeyword k) = false := by
    intro k hk
    rw [hunread]
    show keyword.isKeyword k = false
    unfold Token.isKeyword
    rw [Token.isKeyword_iff.mp hkeyword, decide_eq_false_iff_not]
    rintro rfl
    exact absurd hk (by decide)
  have hfirst : recovering (declaration (fuel + 2)) c =
      .ok (some (.print keyword (e.shifted ⟨lines, id⟩)))
        ⟨[], c.stop, [], (Expr.parse (ts ++ [stop]) n).nextSite⟩ := by
    unfold recovering
    rw [show declaration (fuel + 2) c = statement (fuel + 1) c from declarationRule_plain hplain,
      hprint]
  have hdeclarations := declarations_next (by rw [hunread]; exact List.cons_ne_nil _ _) hfirst
    (declarations_end rfl)
  rw [show fuel + 2 + 1 = fuel + 3 from rfl, ← hfuel, ← hc] at hdeclarations
  exact parse_of_declarations hdeclarations

end Printing

end Lox.Grammar
