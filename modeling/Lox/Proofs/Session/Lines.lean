import Lox.Session
import Lox.Proofs.Grammar.Append
import Lox.Proofs.Grammar.Completeness
import Lox.Proofs.Token.Joined

/-!
# Lines are programs with an expression behind them

A line typed at a prompt is cut behind its last semicolon or closing brace, before anything is
parsed. The cut is where its statements end, since that is how every program ends that has no errors
(`Derives.ends`), and the end put behind the statements is as good as any other (`parse_anyEnd`). So
a line does what its statements do as a program and then what its expression does
(`Session.runLine_splits`).
-/

namespace Lox

/-! ## The last token of a program -/

/-- The last token is one that statements end with. -/
def Ended (ts : List Token) : Prop :=
  ∃ last, Session.endsStatement last = true ∧ [last] <:+ ts

namespace Ended

variable {ts us : List Token} {t : Token}

/-- Whatever stands before it, a row ends as it does. -/
theorem append (ts : List Token) (h : Ended us) : Ended (ts ++ us) := by
  obtain ⟨last, hlast, hsuffix⟩ := h
  exact ⟨last, hlast, hsuffix.trans (List.suffix_append ts us)⟩

theorem cons (t : Token) (h : Ended ts) : Ended (t :: ts) :=
  h.append [t]

/-- A semicolon ends a statement. -/
theorem of_semicolon (h : t.isMark .semicolon = true) : Ended [t] :=
  ⟨t, by rw [Session.endsStatement, h]; rfl, List.suffix_refl _⟩

/-- A closing brace ends a statement. -/
theorem of_brace (h : t.isMark .rightBrace = true) : Ended [t] :=
  ⟨t, by rw [Session.endsStatement, h, Bool.or_true], List.suffix_refl _⟩

end Ended

namespace Grammar

/-- How the tokens of a phrase end: those of statements and bodies with a semicolon or a brace. Of
the other phrases nothing is said. -/
def Phrase.Ends : Phrase → List Token → Prop
  | .block _, ts | .function _, ts | .getter _, ts | .setter _, ts | .varDecl _, ts
  | .expressionStatement _, ts | .statement _ _, ts | .declaration _, ts => Ended ts
  | .declarations _, ts => ts = [] ∨ Ended ts
  | _, _ => True

/-- Statements and bodies end with a semicolon or a brace. -/
theorem Derives.ends {phrase : Phrase} {ts : List Token} (h : Derives phrase ts) :
    phrase.Ends ts := by
  induction h with
  | tighter | joined | assign | set | conditional | unary | call | get | literal | name | receiver
  | inherited | group | functionLiteral | absent | present | noArguments | someArguments
  | lastArgument | nextArgument | noParameters | someParameters | lastParameter | nextParameter
  | noMembers | nextMethod | nextClassMethod | nextGetter | nextSetter | startNothing | startVar
  | startExpression => trivial
  -- bodies end with a brace
  | block ho hb hc => exact ((Ended.of_brace hc).append _).cons _
  | function hn ho hp hc hb ihp ihb => exact (((ihb.cons _).append _).cons _).cons _
  | getter hn hb ih => exact ih.cons _
  | getterParens hn ho hc hb ih => exact ((ih.cons _).cons _).cons _
  | setter hn ho hp hc hb ih => exact (((ih.cons _).cons _).cons _).cons _
  | classDecl hk hn ho hm hc => exact (((Ended.of_brace hc).append _).cons _).cons _ |>.cons _
  | derivedClass hk hn hl hp ho hm hc =>
    exact (((((Ended.of_brace hc).append _).cons _).cons _).cons _).cons _ |>.cons _
  -- simple statements end with a semicolon
  | varDecl hk hn he | input hk hn he => exact ((Ended.of_semicolon he).cons _).cons _
  | varDeclValue hk hn hq hv he | constant hk hn hq hv he =>
    exact ((((Ended.of_semicolon he).append _).cons _).cons _).cons _
  | expressionStatement h he => exact (Ended.of_semicolon he).append _
  | continueLoop hk he | breakLoop hk he => exact (Ended.of_semicolon he).cons _
  | empty he => exact .of_semicolon he
  | print hk hv he | returnValue hk hv he => exact ((Ended.of_semicolon he).append _).cons _
  -- the others end as their last part does
  | forLoop hk ho hs hc he hi hp hb ihs ihc ihi ihb =>
    exact (((((ihb.cons _).append _).cons _).append _).append _).cons _ |>.cons _
  | ifThen hk ho hc hp ht ihc iht => exact (((iht.cons _).append _).cons _).cons _
  | ifThenElse hk ho hc hp ht he hf ihc iht ihf =>
    exact (((((ihf.cons _).append _).cons _).append _).cons _).cons _
  | whileLoop hk ho hc hp hb ihc ihb => exact (((ihb.cons _).append _).cons _).cons _
  | blockStatement hb ih => exact ih
  | plain hs ih => exact ih
  | functionDecl hk hd ih => exact ih.cons _
  | var hs ih => exact ih
  | statement hs ih => exact ih
  | noDeclarations => exact .inl rfl
  | nextDeclaration hs hr ihs ihr =>
    refine .inr ?_
    obtain rfl | hended := ihr
    · rw [List.append_nil]
      exact ihs
    · exact hended.append _

/-! ## The end behind a program -/

section AnyEnd

variable {ts : List Token} {stop : Token} {n : Site}

/-- What is parsed without errors in front of one end and from one site on is so in front of every
end and from every site on. -/
theorem errors_anyEnd (hopen : ∀ t ∈ ts, t.isEnd = false) (hstop : stop.isEnd = true)
    (herrors : (Program.parse (ts ++ [stop]) n).errors = []) (stop' : Token) (n' : Site)
    (hstop' : stop'.isEnd = true) : (Program.parse (ts ++ [stop']) n').errors = [] := by
  have hderives := program_derives herrors
  rw [beforeEnd_stop hopen hstop, ← beforeEnd_stop hopen hstop'] at hderives
  exact (parse_complete hderives n').1

/-- A program without errors is parsed the same in front of every end. -/
theorem parse_anyEnd (hopen : ∀ t ∈ ts, t.isEnd = false) (hstop : stop.isEnd = true)
    (herrors : (Program.parse (ts ++ [stop]) n).errors = []) (line : Nat) :
    Program.parse (ts ++ [.endOf line]) n = Program.parse (ts ++ [stop]) n := by
  -- the other end is a text of its own, in which there is nothing
  have hnothing : Program.parse [Token.endOf line] n = ⟨[], [], n⟩ := rfl
  have hjoined := parse_joined 0 n n n hstop (rfl : [Token.endOf line].head?.any _ = false) hopen
    (.inl herrors) (fun e he => by rw [herrors] at he; cases he) (.inl rfl)
  dsimp only at hjoined
  rw [Token.map_later_zero, hnothing, renumber_self, Stmt.shiftedAll_same] at hjoined
  rw [hjoined]
  generalize Program.parse (ts ++ [stop]) n = one at herrors ⊢
  obtain ⟨tree, errors, nextSite⟩ := one
  obtain rfl : errors = [] := herrors
  show (⟨tree ++ [], [], renumber n nextSite (n + 0)⟩ : Parsed (List Stmt)) =
    ⟨tree, [], nextSite + 0⟩
  rw [List.append_nil, renumber_add]

end AnyEnd

end Grammar

namespace Session

open Grammar

/-! ## The cut -/

variable {ts us : List Token}

/-- The cut is behind the last token that ends a statement. -/
theorem splitStatements_eq (hts : ts = [] ∨ Ended ts) (hus : ∀ t ∈ us, endsStatement t = false) :
    splitStatements (ts ++ us) = (ts, us) := by
  have hskip : ∀ t ∈ us.reverse, (!endsStatement t) = true := fun t ht => by
    rw [hus t (List.mem_reverse.mp ht)]
    rfl
  unfold splitStatements
  rw [List.reverse_append, List.takeWhile_append_of_pos hskip, List.dropWhile_append_of_pos hskip]
  have hstop : ts.reverse.takeWhile (fun t => !endsStatement t) = [] ∧
      ts.reverse.dropWhile (fun t => !endsStatement t) = ts.reverse := by
    obtain rfl | ⟨last, hlast, front, rfl⟩ := hts
    · exact ⟨rfl, rfl⟩
    · rw [List.reverse_append, List.reverse_singleton, List.singleton_append]
      exact ⟨List.takeWhile_cons_of_neg (by rw [hlast]; decide),
        List.dropWhile_cons_of_neg (by rw [hlast]; decide)⟩
  rw [hstop.1, hstop.2, List.append_nil, List.reverse_reverse, List.reverse_reverse]

/-! ## Statements, then an expression -/

/-- Statements run as a program, up to an end on any line; and then, unless they met an error, what
is behind them evaluated as an expression, unless there is nothing. -/
def runThenEvaluate (fuel line : Nat) (statements expression : List Token) (stop : Token)
    (s : Session) : Outcome :=
  match s.runTokens fuel (statements ++ [.endOf line]) with
  | some ([], s) =>
    if expression.isEmpty then some ([], s) else s.evaluateTokens fuel (expression ++ [stop])
  | outcome => outcome

theorem runThenEvaluate_nothing (fuel line : Nat) (statements : List Token) (stop : Token)
    (s : Session) :
    s.runThenEvaluate fuel line statements [] stop =
      s.runTokens fuel (statements ++ [.endOf line]) := by
  unfold runThenEvaluate
  cases s.runTokens fuel (statements ++ [.endOf line]) with
  | none => rfl
  | some result =>
    obtain ⟨errors, after⟩ := result
    cases errors with
    | nil => rfl
    | cons e es => rfl

variable {stop : Token} {n : Site}

/-- The line of the end does not matter to a program without errors. -/
theorem runTokens_anyEnd (hopen : ∀ t ∈ ts, t.isEnd = false) (hstop : stop.isEnd = true)
    (herrors : (Program.parse (ts ++ [stop]) n).errors = []) (fuel line : Nat) (s : Session) :
    s.runTokens fuel (ts ++ [.endOf line]) = s.runTokens fuel (ts ++ [stop]) := by
  have hsite := errors_anyEnd hopen hstop herrors stop s.nextSite hstop
  unfold runTokens
  rw [parse_anyEnd hopen hstop hsite]

/-! ## Lines -/

/-- Tokens of a line are statements without errors and an expression without a token that statements
end with: they do what the statements do and then what the expression does. -/
theorem runLineTokens_splits (fuel line : Nat) (s : Session) (ts us : List Token)
    (hts : ∀ t ∈ ts, t.isEnd = false) (hus : ∀ t ∈ us, endsStatement t = false)
    (hstop : stop.isEnd = true) (herrors : (Program.parse (ts ++ [stop]) n).errors = []) :
    s.runLineTokens fuel (ts ++ us ++ [stop]) = s.runThenEvaluate fuel line ts us stop := by
  have hended : ts = [] ∨ Ended ts := by
    have hends := (program_derives herrors).ends
    rw [beforeEnd_stop hts hstop] at hends
    exact hends
  have hbehind : ∀ t ∈ us ++ [stop], endsStatement t = false := by
    intro t ht
    obtain ht | ht := List.mem_append.mp ht
    · exact hus t ht
    · obtain rfl := List.mem_singleton.mp ht
      unfold endsStatement Token.isMark
      rw [Token.isEnd_iff.mp hstop]
      rfl
  unfold runLineTokens
  rw [List.append_assoc, splitStatements_eq hended hbehind]
  dsimp only
  cases us with
  | nil =>
    -- nothing is behind the statements
    have hshort : [stop].length ≤ 1 := Nat.le_refl 1
    rw [List.nil_append, if_pos hshort, runThenEvaluate_nothing, runTokens_anyEnd hts hstop herrors]
  | cons u us =>
    have hlong : ¬(u :: us ++ [stop]).length ≤ 1 := by
      rw [List.length_append, List.length_cons, List.length_singleton]
      omega
    rw [if_neg hlong]
    cases hlast : ts.getLast? with
    | none =>
      -- nothing is in front of the expression
      obtain rfl := List.getLast?_eq_none_iff.mp hlast
      rfl
    | some last =>
      dsimp only
      unfold runThenEvaluate
      rw [runTokens_anyEnd hts hstop herrors, runTokens_anyEnd hts hstop herrors]
      rfl

/-- Running a line is running the statements in front as a program, with an end on any line behind
them, and evaluating the expression behind them, well-formed or not, if there is one and the
statements met no error. A line that is a program without errors does what it does as a program, and
one that is an expression without semicolons and closing braces what it does as an expression. -/
theorem runLine_splits (fuel : Nat) (s : Session) (source : String)
    (hscan : scanErrors source = []) :
    (∀ statements expression stop n line, scanTokens source = statements ++ expression ++ [stop] →
      (Program.parse (statements ++ [stop]) n).errors = [] →
      (∀ t ∈ expression, endsStatement t = false) →
        s.runLine fuel source = s.runThenEvaluate fuel line statements expression stop) ∧
    (∀ n, (Program.parse (scanTokens source) n).errors = [] →
      s.runLine fuel source = s.run fuel source) ∧
    (∀ n, (Expr.parse (scanTokens source) n).tree.isSome = true →
      (Expr.parse (scanTokens source) n).errors = [] →
      (∀ t ∈ scanTokens source, endsStatement t = false) →
        s.runLine fuel source = s.evaluate fuel source) := by
  obtain ⟨ts, htokens, hopen⟩ := scanTokens_end hscan
  have hstop : (Token.endOf (1 + Scan.newlines source.toList)).isEnd = true := rfl
  unfold runLine run evaluate scanned
  rw [hscan]
  dsimp only
  refine ⟨fun statements expression stop n line hsplit hprogram hexpression => ?_,
    fun n hprogram => ?_, fun n htree hexpression hplain => ?_⟩
  · rw [htokens] at hsplit ⊢
    obtain ⟨rfl, hstops⟩ := List.append_inj' hsplit rfl
    obtain rfl := (List.cons.inj hstops).1
    exact runLineTokens_splits fuel line s _ _
      (fun t ht => hopen t (List.mem_append_left _ ht)) hexpression hstop hprogram
  · rw [htokens] at hprogram ⊢
    have hline := runLineTokens_splits fuel 0 s ts [] hopen (fun _ ht => by cases ht) hstop hprogram
    rw [List.append_nil, runThenEvaluate_nothing, runTokens_anyEnd hopen hstop hprogram] at hline
    exact hline
  · rw [htokens] at htree hexpression hplain ⊢
    have hline := runLineTokens_splits (n := n) fuel 0 s [] ts (fun _ ht => by cases ht)
      (fun t ht => hplain t (List.mem_append_left _ ht)) hstop rfl
    rw [List.nil_append] at hline
    rw [hline]
    cases ts with
    | nil => cases htree
    | cons t ts => rfl

/-- A block with a name behind it that is not declared there, a line that is all statements, and one
that is all expression. -/
theorem runLine_splits_trailing_name :
    let s := Session.start ⟨[]⟩ {} ⟨fun _ => 0, fun _ => 0, 0, 0⟩
    let tokens := scanTokens "\x7bvar a = nil;\x7d a"
    (scanErrors "\x7bvar a = nil;\x7d a" = [] ∧
        tokens = tokens.take 7 ++ (tokens.drop 7).take 1 ++ [.endOf 1] ∧
        (Program.parse (tokens.take 7 ++ [.endOf 1]) 0).errors = [] ∧
        (∀ t ∈ (tokens.drop 7).take 1, endsStatement t = false) ∧
        s.runLine 14 "\x7bvar a = nil;\x7d a" =
          s.runThenEvaluate 14 9 (tokens.take 7) ((tokens.drop 7).take 1) (.endOf 1)) ∧
      s.runLine 14 "print a;" = s.run 14 "print a;" ∧
      s.runLine 14 "a = nil" = s.evaluate 14 "a = nil" := by
  intro s tokens
  have hscan : scanErrors "\x7bvar a = nil;\x7d a" = [] := by decide +kernel
  have htokens : tokens = tokens.take 7 ++ (tokens.drop 7).take 1 ++ [.endOf 1] := by decide +kernel
  have hparsed : (Program.parse (tokens.take 7 ++ [.endOf 1]) 0).errors = [] := by decide +kernel
  have hplain : ∀ t ∈ (tokens.drop 7).take 1, endsStatement t = false := by decide +kernel
  have hprogram := runLine_splits 14 s "print a;" (by decide +kernel)
  have hexpression := runLine_splits 14 s "a = nil" (by decide +kernel)
  exact ⟨⟨hscan, htokens, hparsed, hplain,
      (runLine_splits 14 s _ hscan).1 _ _ _ 0 9 htokens hparsed hplain⟩,
    hprogram.2.1 0 (by decide +kernel),
    hexpression.2.2 0 (by decide +kernel) (by decide +kernel) (by decide +kernel)⟩

end Session

end Lox
