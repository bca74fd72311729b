import Lox.Proofs.Grammar.Reaches

/-!
# Where a rule is sure to be refused

`Breaks p ts rest e`: a rule that finds the tokens `ts` and `rest` behind them reads exactly `ts`,
reports nothing on the way, and is refused with `e`. It is the counterpart of `Reaches`, with a law
for each step that rules are made of; a rule is refused behind what it reaches (`Breaks.after`).
-/

namespace Lox.Parser

variable {α β : Type}

/-- Where `ts` and then `rest` are unread, the rule reads `ts` and is refused with `e`. -/
def Breaks (p : Parser α) (ts rest : List Token) (e : SyntaxError) : Prop :=
  ∀ c : Cursor, c.unread = ts ++ rest →
    ∃ site, p c = .error (.problem e) { c with unread := rest, nextSite := site }

namespace Breaks

variable {p : Parser α} {ts us rest : List Token} {P : α → Prop} {e : SyntaxError}
  {test : Token → Bool} {t : Token}

/-- A rule is refused where its first step is. -/
theorem bind {f : α → Parser β} (h : Breaks p ts rest e) : Breaks (p >>= f) ts rest e := by
  intro c hc
  obtain ⟨site, hrun⟩ := h c hc
  exact ⟨site, bind_error hrun⟩

/-- A rule is refused behind what its first step reads. -/
theorem after {f : α → Parser β} (hp : Reaches p ts (us ++ rest) P)
    (hf : ∀ a, P a → Breaks (f a) us rest e) : Breaks (p >>= f) (ts ++ us) rest e := by
  intro c hc
  rw [List.append_assoc] at hc
  obtain ⟨a, site, hrun, ha⟩ := hp c hc
  obtain ⟨site', hrun'⟩ := hf a ha { c with unread := us ++ rest, nextSite := site } rfl
  exact ⟨site', by rw [bind_ok hrun, hrun']⟩

theorem take?_some {f : Option Token → Parser α} (ht : test t = true)
    (h : Breaks (f (some t)) ts rest e) : Breaks (take? test >>= f) (t :: ts) rest e := by
  intro c hc
  rw [bind_ok (Parser.take?_some hc ht)]
  exact h { c with unread := ts ++ rest } rfl

theorem take?_none {f : Option Token → Parser α} (hno : (ts ++ rest).head?.any test = false)
    (h : Breaks (f none) ts rest e) : Breaks (take? test >>= f) ts rest e := by
  intro c hc
  rw [bind_ok (Parser.take?_none (by rw [hc]; exact hno))]
  exact h c hc

theorem takes_true {f : Bool → Parser α} (ht : test t = true) (h : Breaks (f true) ts rest e) :
    Breaks (takes test >>= f) (t :: ts) rest e := by
  rw [takes, bind_assoc]
  simp only [pure_bind]
  exact take?_some ht h

theorem takes_false {f : Bool → Parser α} (hno : (ts ++ rest).head?.any test = false)
    (h : Breaks (f false) ts rest e) : Breaks (takes test >>= f) ts rest e := by
  rw [takes, bind_assoc]
  simp only [pure_bind]
  exact take?_none hno h

theorem expect {f : Token → Parser α} {rule : Rule} {problem : Problem} (ht : test t = true)
    (h : Breaks (f t) ts rest e) : Breaks (expect test rule problem >>= f) (t :: ts) rest e := by
  rw [Parser.expect, bind_assoc]
  refine take?_some ht ?_
  rw [pure_bind]
  exact h

theorem sees {f : Bool → Parser α} (h : Breaks (f ((ts ++ rest).head?.any test)) ts rest e) :
    Breaks (sees test >>= f) ts rest e := by
  intro c hc
  show ∃ site, f (c.sees test) c = _
  rw [Cursor.sees, hc]
  exact h c hc

theorem seesSecond {f : Bool → Parser α}
    (h : Breaks (f ((ts ++ rest).tail.head?.any test)) ts rest e) :
    Breaks (seesSecond test >>= f) ts rest e := by
  intro c hc
  show ∃ site, f (c.seesSecond test) c = _
  rw [Cursor.seesSecond, hc]
  exact h c hc

/-- The next token is refused. -/
theorem refuseNext (rule : Rule) (problem : Problem) :
    Breaks (peek >>= fun next => refuse (α := α) rule next problem) [] (t :: rest)
      ⟨rule, t, problem⟩ := by
  intro c hc
  obtain ⟨unread, stop, errors, nextSite⟩ := c
  obtain rfl : unread = t :: rest := hc
  exact ⟨nextSite, rfl⟩

/-- A token that is asked for is not there. -/
theorem missing (rule : Rule) (problem : Problem) (hno : test t = false) {f : Token → Parser α} :
    Breaks (Parser.expect test rule problem >>= f) [] (t :: rest) ⟨rule, t, problem⟩ :=
  bind (take?_none hno (refuseNext rule problem))

/-- A rule that is refused is given up; parsing goes on behind the token in error. -/
theorem recovering {c : Cursor} (h : Breaks p ts (t :: rest) e) (hc : c.unread = ts ++ t :: rest) :
    ∃ site, p.recovering c =
      .ok none ⟨resumeAfter t rest, c.stop, c.errors ++ [e], site⟩ := by
  obtain ⟨site, hrun⟩ := h c hc
  exact ⟨site, by rw [Parser.recovering, hrun]; rfl⟩

end Breaks

end Lox.Parser
