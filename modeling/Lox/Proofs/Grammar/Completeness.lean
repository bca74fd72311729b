import Lox.Proofs.Grammar.Recognized.Statements

/-!
# Parsing is complete

Whatever row of tokens the grammar derives, parsing accepts: it reports nothing and gives the tree
of the derivation, up to sites (`parse_complete`).
-/

namespace Lox.Grammar

open Lox.Parser

/-! ## Every phrase -/

/-- Whatever the grammar derives, its rule reads. -/
theorem Derives.recognized {phrase : Phrase} {ts : List Token} (h : Derives phrase ts) :
    Recognized phrase ts := by
  -- one lemma per rule; the hypothesis for a part says what may stand behind it, and `completes` is
  -- used where the next token of the rule closes the part
  induction h with
  | tighter hnext hd ih => exact Begins.tighter hnext hd ih
  | joined _ ho _ ihl ihr => exact Begins.joined ho ihl ihr.completes
  | assign hn he _ ih => exact completes_assign hn he ih.completes
  | set ho hd hn he _ iho ihv => exact completes_set ho iho hd hn he ihv.completes
  | conditional _ hq _ hm _ ihc iht ihf =>
    exact completes_conditional ihc.completes hq iht.completes hm ihf.completes
  | unary ho _ ih => exact completes_unary ho ih.completes
  | call _ ho _ hp ihc iha => exact begins_call ihc ho iha hp
  | get _ hd hn ih => exact begins_get ih hd hn
  | literal ht => exact begins_literal ht
  | name hn => exact begins_name hn
  | receiver hk => exact begins_receiver hk
  | inherited hk hd hm => exact begins_inherited hk hd hm
  | group ho _ hc ih => exact begins_group ho ih.completes hc
  | functionLiteral hk ho _ hc _ ihp ihb => exact begins_functionLiteral hk ho ihp hc ihb
  | absent => exact recognized_absent
  | present hd ih => exact recognized_present hd ih.completes
  | noArguments => exact recognized_noArguments
  | someArguments hd hl ih => exact recognized_someArguments hd ih hl
  | lastArgument _ ih => exact recognized_lastArgument ih.completes
  | nextArgument _ hc _ ihe ihes => exact recognized_nextArgument ihe.completes hc ihes
  | noParameters => exact recognized_noParameters
  | someParameters hd hl ih => exact recognized_someParameters hd ih hl
  | lastParameter hn => exact recognized_lastParameter hn
  | nextParameter hn hc _ ih => exact recognized_nextParameter hn hc ih
  | block ho _ hc ih => exact recognized_block ho ih hc
  | function hn ho _ hc _ ihp ihb => exact recognized_function hn ho ihp hc ihb
  | getter hn _ ih => exact recognized_getter hn ih
  | getterParens hn ho hc _ ih => exact recognized_getterParens hn ho hc ih
  | setter hn ho hp hc _ ih => exact recognized_setter hn ho hp hc ih
  | noMembers => exact recognized_noMembers
  | nextMethod hd _ ihd ihr => exact recognized_nextMethod hd ihd ihr
  | nextClassMethod hk _ _ ihd ihr => exact recognized_nextClassMethod hk ihd ihr
  | nextGetter hk hd _ ihd ihr => exact recognized_nextGetter hk hd ihd ihr
  | nextSetter hk hd _ ihd ihr => exact recognized_nextSetter hk hd ihd ihr
  | varDecl hk hn he => exact recognized_varDecl hk hn he
  | varDeclValue hk hn hq _ he ih => exact recognized_varDeclValue hk hn hq ih.completes he
  | expressionStatement _ he ih => exact recognized_expressionStatement ih.completes he
  | continueLoop hk he => exact recognized_continueLoop hk he
  | breakLoop hk he => exact recognized_breakLoop hk he
  | empty he => exact recognized_empty he
  | startNothing he => exact recognized_startNothing he
  | startVar _ ih => exact recognized_startVar ih
  | startExpression hd ih => exact recognized_startExpression hd ih
  | forLoop hk ho _ _ he _ hp _ ihs ihc ihi ihb =>
    exact recognized_forLoop hk ho ihs ihc he ihi hp ihb
  | ifThen hk ho _ hp _ ihc iht => exact recognized_ifThen hk ho ihc.completes hp iht
  | ifThenElse hk ho _ hp _ he _ ihc iht ihf =>
    exact recognized_ifThenElse hk ho ihc.completes hp iht he ihf
  | input hk hn he => exact recognized_input hk hn he
  | print hk _ he ih => exact recognized_print hk ih.completes he
  | returnValue hk _ he ih => exact recognized_returnValue hk ih he
  | whileLoop hk ho _ hp _ ihc ihb => exact recognized_whileLoop hk ho ihc.completes hp ihb
  | blockStatement _ ih => exact recognized_blockStatement ih
  | plain hd ih => exact recognized_plain hd ih
  | classDecl hk hn ho _ hc ih => exact recognized_classDecl hk hn ho ih hc
  | derivedClass hk hn hl hp ho _ hc ih => exact recognized_derivedClass hk hn hl hp ho ih hc
  | functionDecl hk hd ih => exact recognized_functionDecl hk hd ih
  | constant hk hn hq _ he ih => exact recognized_constant hk hn hq ih.completes he
  | var _ ih => exact recognized_var ih
  | statement hd ih => exact recognized_statement hd ih
  | noDeclarations => exact recognized_noDeclarations
  | nextDeclaration hd hds ihd ihr => exact recognized_nextDeclaration hd hds ihd ihr

/-! ## Programs -/

/-- A program of the grammar is parsed without an error, and the tree is its tree up to sites. -/
theorem parse_complete {tokens : List Token} {ss : List Stmt}
    (h : Derives (.declarations ss) (beforeEnd tokens)) (nextSite : Site) :
    (Program.parse tokens nextSite).errors = [] ∧
      Stmt.unsitedAll (Program.parse tokens nextSite).tree = Stmt.unsitedAll ss := by
  have hcover := covers_fuelFor (beforeEnd tokens).length 22 (by decide)
  have hreaches := @Derives.recognized _ _ h (fuelFor (beforeEnd tokens).length) false [] rfl hcover
  obtain ⟨herrors, ss', htree, hss⟩ :=
    @Reaches.run _ _ _ (fun fuel => declarations fuel false) tokens nextSite rfl hreaches
  refine ⟨herrors, ?_⟩
  rw [show (Program.parse tokens nextSite).tree = ss' from congrArg (·.getD []) htree]
  exact hss

theorem beforeEnd_append {ts us : List Token} (h : ∀ t ∈ ts, Inner t) :
    beforeEnd (ts ++ us) = ts ++ beforeEnd us := by
  refine List.takeWhile_append_of_pos fun t ht => ?_
  rw [h t ht]
  rfl

theorem beforeEnd_stop {ts : List Token} {stop : Token} (h : ∀ t ∈ ts, t.isEnd = false)
    (hstop : stop.isEnd = true) : beforeEnd (ts ++ [stop]) = ts := by
  rw [beforeEnd_append h, beforeEnd, List.takeWhile_cons_of_neg (by rw [hstop]; decide),
    List.append_nil]

end Lox.Grammar
