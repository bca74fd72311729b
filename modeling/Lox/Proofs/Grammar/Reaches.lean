import Lox.Grammar
import Lox.Proofs.Grammar.Reads

/-!
# Where a rule is sure to get

`Reaches p ts rest P`: a rule that finds the tokens `ts` and `rest` behind them reads exactly `ts`,
reports nothing, and gives a result of which `P` holds. Here the tokens are known beforehand, where
`Reads` speaks of whatever tokens a rule turns out to read. There is again one law for each step
that rules are made of.
-/

namespace Lox.Parser

variable {α β : Type}

/-- Where `ts` and then `rest` are unread, the rule reads `ts` and gives a result with `P`. -/
def Reaches (p : Parser α) (ts rest : List Token) (P : α → Prop) : Prop :=
  ∀ c : Cursor, c.unread = ts ++ rest →
    ∃ a site, p c = .ok a { c with unread := rest, nextSite := site } ∧ P a

namespace Reaches

variable {p : Parser α} {ts us rest : List Token} {P : α → Prop} {Q : β → Prop}
  {test : Token → Bool} {t : Token}

/-- Of a result less may be claimed. -/
theorem mono {P' : α → Prop} (h : Reaches p ts rest P) (hP : ∀ a, P a → P' a) :
    Reaches p ts rest P' := by
  intro c hc
  obtain ⟨a, site, hrun, ha⟩ := h c hc
  exact ⟨a, site, hrun, hP a ha⟩

theorem pure {a : α} (h : P a) : Reaches (pure a) [] rest P := by
  intro c hc
  rw [List.nil_append] at hc
  exact ⟨a, c.nextSite, by subst hc; rfl, h⟩

/-- Rules in a row read their tokens in a row. -/
theorem bind {f : α → Parser β} (hp : Reaches p ts (us ++ rest) P)
    (hf : ∀ a, P a → Reaches (f a) us rest Q) : Reaches (p >>= f) (ts ++ us) rest Q := by
  intro c hc
  rw [List.append_assoc] at hc
  obtain ⟨a, site, hrun, ha⟩ := hp c hc
  obtain ⟨b, site', hrun', hb⟩ := hf a ha { c with unread := us ++ rest, nextSite := site } rfl
  exact ⟨b, site', by rw [bind_ok hrun, hrun'], hb⟩

/-- A rule that ends another one takes over what is left to read. -/
theorem last {f : α → Parser β} (hp : Reaches p ts rest P)
    (hf : ∀ a, P a → Reaches (f a) [] rest Q) : Reaches (p >>= f) ts rest Q := by
  have hbind : Reaches (p >>= f) (ts ++ []) rest Q := bind hp hf
  rw [List.append_nil] at hbind
  exact hbind

/-- What is made of a result. -/
theorem map {f : α → β} (h : Reaches p ts rest fun a => Q (f a)) : Reaches (f <$> p) ts rest Q :=
  last (f := fun a => Pure.pure (f a)) h fun _ ha => pure ha

/-- A token that passes is read. -/
theorem take?_some {f : Option Token → Parser α} (ht : test t = true)
    (h : Reaches (f (some t)) ts rest P) : Reaches (take? test >>= f) (t :: ts) rest P := by
  intro c hc
  rw [bind_ok (Parser.take?_some hc ht)]
  exact h { c with unread := ts ++ rest } rfl

/-- Where the next token does not pass, nothing is read. -/
theorem take?_none {f : Option Token → Parser α}
    (hno : (ts ++ rest).head?.any test = false) (h : Reaches (f none) ts rest P) :
    Reaches (take? test >>= f) ts rest P := by
  intro c hc
  rw [bind_ok (Parser.take?_none (by rw [hc]; exact hno))]
  exact h c hc

/-- A token that passes is read, where only it matters whether one was. -/
theorem takes_true {f : Bool → Parser α} (ht : test t = true)
    (h : Reaches (f true) ts rest P) : Reaches (takes test >>= f) (t :: ts) rest P := by
  rw [takes, bind_assoc]
  simp only [pure_bind]
  exact take?_some ht h

/-- Where the next token does not pass, the rule goes on without it. -/
theorem takes_false {f : Bool → Parser α} (hno : (ts ++ rest).head?.any test = false)
    (h : Reaches (f false) ts rest P) : Reaches (takes test >>= f) ts rest P := by
  rw [takes, bind_assoc]
  simp only [pure_bind]
  exact take?_none hno h

/-- A token that is asked for is there. -/
theorem expect {f : Token → Parser α} {rule : Rule} {problem : Problem} (ht : test t = true)
    (h : Reaches (f t) ts rest P) :
    Reaches (expect test rule problem >>= f) (t :: ts) rest P := by
  rw [Parser.expect, bind_assoc]
  refine take?_some ht ?_
  rw [pure_bind]
  exact h

/-- A look at the next token goes by what is there. -/
theorem sees {f : Bool → Parser α} (h : Reaches (f ((ts ++ rest).head?.any test)) ts rest P) :
    Reaches (sees test >>= f) ts rest P := by
  intro c hc
  show ∃ a site, f (c.sees test) c = _ ∧ P a
  rw [Cursor.sees, hc]
  exact h c hc

/-- A look at the token after it goes by what is there. -/
theorem seesSecond {f : Bool → Parser α}
    (h : Reaches (f ((ts ++ rest).tail.head?.any test)) ts rest P) :
    Reaches (seesSecond test >>= f) ts rest P := by
  intro c hc
  show ∃ a site, f (c.seesSecond test) c = _ ∧ P a
  rw [Cursor.seesSecond, hc]
  exact h c hc

/-- A rule that ends with the tokens or at a sign goes on where tokens begin with no such sign. -/
theorem continues {q : Parser α} {k : Bool → Bool} (hk : k false = false) (hpos : 0 < ts.length)
    (hno : ts.head?.any test = false) (h : Reaches p ts rest P) :
    Reaches (get >>= fun c => Parser.sees test >>= fun b =>
      if c.unread.isEmpty || k b then q else p) ts rest P := by
  intro c hc
  obtain ⟨t, us, rfl⟩ := List.exists_cons_of_length_pos hpos
  have hsees : c.sees test = false := by
    rw [Cursor.sees, hc]
    exact hno
  show ∃ a site, (if c.unread.isEmpty || k (c.sees test) then q else p) c = _ ∧ P a
  rw [hsees, hk, hc]
  exact h c hc

/-- A site may be any. -/
theorem freshSite {f : Site → Parser α} (h : ∀ site, Reaches (f site) ts rest P) :
    Reaches (freshSite >>= f) ts rest P :=
  fun c hc => h c.nextSite { c with nextSite := c.nextSite + 1 } hc

/-- A rule that is not refused goes on as if nothing were there to recover from. -/
theorem recovering (h : Reaches p ts rest P) :
    Reaches p.recovering ts rest fun result => ∃ a, result = some a ∧ P a := by
  intro c hc
  obtain ⟨a, site, hrun, ha⟩ := h c hc
  exact ⟨some a, site, by rw [Parser.recovering, hrun], a, rfl, ha⟩

/-- The whole of a run in which a rule reaches the end of the tokens. -/
theorem run {rule : Nat → Parser α} {tokens : List Token} {nextSite : Site}
    (htokens : tokens.takeWhile (fun t => !t.isEnd) = ts)
    (h : Reaches (rule (Grammar.fuelFor ts.length)) ts [] P) :
    (Parser.run rule tokens nextSite).errors = [] ∧
      ∃ a, (Parser.run rule tokens nextSite).tree = some a ∧ P a := by
  have hstart : (Cursor.start tokens nextSite).unread = ts := htokens
  obtain ⟨a, site, hrun, ha⟩ := h (Cursor.start tokens nextSite) (by rw [hstart, List.append_nil])
  unfold Parser.run
  dsimp only
  rw [hstart, hrun]
  exact ⟨rfl, a, rfl, ha⟩

end Reaches

end Lox.Parser
