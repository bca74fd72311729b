import Lox.Proofs.Grammar.Reads
import Lox.Proofs.Tree.Shifted

/-!
# Parsing the same tokens in two texts

A rule is run twice: on some tokens up to their end, and on the same tokens inside another text,
where they are on later lines and where more tokens may follow. A `Seam` says how the two texts lie.
`S.Follows o φ p q` says that the second run `q` does what the first one `p` does, with `φ` applied
to the result, up to two cases in which the second text goes on: the first run has met an error at
its end, or, if `o` holds, it has read everything there was. Rules that end with a token of their
own, such as those for statements, do not need the second case.

There is one law for each step that rules are made of.
-/

namespace Lox

/-! ## What a rule does by itself -/

/-- Parsing went on from one cursor to the other. -/
structure Cursor.Onward (c c' : Cursor) : Prop where
  stop : c'.stop = c.stop
  errors : ∀ e ∈ c.errors, e ∈ c'.errors
  unread : c.unread = [] → c'.unread = []

namespace Cursor

variable {c c' c'' : Cursor}

/-- Standing still is going onward. -/
theorem Onward.refl : c.Onward c :=
  ⟨rfl, fun _ h => h, id⟩

/-- Going onward twice is going onward. -/
theorem Onward.trans (h : c.Onward c') (h' : c'.Onward c'') : c.Onward c'' :=
  ⟨h'.stop.trans h.stop, fun e he => h'.errors e (h.errors e he), fun hc => h'.unread (h.unread hc)⟩

/-- A report adds an error. -/
theorem report_onward (e : SyntaxError) : c.Onward (c.report e) :=
  ⟨rfl, fun _ he => List.mem_append_left _ he, id⟩

/-- Recovery only takes tokens away. -/
theorem resume_onward : c.Onward c.resume := by
  unfold resume
  split
  next => exact .refl
  next t ts hu => exact ⟨rfl, fun _ he => he, fun hempty => nomatch hu.symm.trans hempty⟩

end Cursor

namespace Parser

variable {α β : Type}

/-- A token that passes is read. -/
theorem expect_some {test : Token → Bool} {rule : Rule} {problem : Problem} {c : Cursor} {t : Token}
    {ts : List Token} (hu : c.unread = t :: ts) (ht : test t = true) :
    expect test rule problem c = .ok t { c with unread := ts } :=
  bind_ok (take?_some hu ht)

/-- If there is none, the error is at the token that comes next. -/
theorem expect_none {test : Token → Bool} {rule : Rule} {problem : Problem} {c : Cursor}
    (h : c.unread.head?.any test = false) :
    expect test rule problem c = .error (.problem ⟨rule, c.next, problem⟩) c :=
  bind_ok (take?_none h)

/-- Wherever it starts, the rule goes onward, and if it is refused where nothing is left to read,
then at the end. -/
def Steady (p : Parser α) : Prop :=
  ∀ c, match p c with
    | .ok _ c' => c.Onward c'
    | .error (.problem e) c' => c.Onward c' ∧ (c'.unread = [] → e.token = c'.stop)
    | .error .outOfFuel _ => True

/-- The rule gives no result where nothing is left to read. -/
def Demands (p : Parser α) : Prop :=
  ∀ c, c.unread = [] → ∀ a c', p c ≠ .ok a c'

namespace Steady

variable {p : Parser α} {f : α → Parser β} {test : Token → Bool}

/-- Giving back a value reads nothing. -/
theorem pure (a : α) : Steady (pure a : Parser α) :=
  fun _ => .refl

theorem outOfFuel : Steady (outOfFuel : Parser α) :=
  fun _ => trivial

/-- Rules in a row are steady if each is, whatever the first gives. -/
theorem bind (hp : Steady p) (hf : ∀ a, Steady (f a)) : Steady (p >>= f) := by
  intro c
  have hc := hp c
  cases hpc : p c with
  | error e c' =>
    rw [hpc] at hc
    rw [bind_error hpc]
    cases e with
    | problem e => exact hc
    | outOfFuel => trivial
  | ok a c₁ =>
    rw [hpc] at hc
    rw [bind_ok hpc]
    have hc₁ := hf a c₁
    cases hfc : f a c₁ with
    | ok b c' =>
      rw [hfc] at hc₁
      exact hc.trans hc₁
    | error e c' =>
      rw [hfc] at hc₁
      cases e with
      | problem e => exact ⟨hc.trans hc₁.1, hc₁.2⟩
      | outOfFuel => trivial

/-- A token is taken or none is, and the rule goes on. -/
theorem take? {f : Option Token → Parser β} (hsome : ∀ t, test t = true → Steady (f (some t)))
    (hnone : Steady (f none)) : Steady (take? test >>= f) := by
  intro c
  cases hu : c.unread with
  | nil =>
    rw [bind_ok (take?_none (by rw [hu]; rfl))]
    exact hnone c
  | cons t ts =>
    by_cases ht : test t = true
    · rw [bind_ok (take?_some hu ht)]
      have hstep : c.Onward { c with unread := ts } :=
        ⟨rfl, fun _ he => he, fun hempty => nomatch hu.symm.trans hempty⟩
      have hc := hsome t ht { c with unread := ts }
      cases hfc : f (some t) { c with unread := ts } with
      | ok b c' =>
        rw [hfc] at hc
        exact hstep.trans hc
      | error e c' =>
        rw [hfc] at hc
        cases e with
        | problem e => exact ⟨hstep.trans hc.1, hc.2⟩
        | outOfFuel => trivial
    · rw [bind_ok (take?_none (by rw [hu]; simpa using ht))]
      exact hnone c

theorem sees {f : Bool → Parser β} (hf : ∀ b, Steady (f b)) : Steady (sees test >>= f) :=
  fun c => hf (c.sees test) c

theorem seesSecond {f : Bool → Parser β} (hf : ∀ b, Steady (f b)) :
    Steady (seesSecond test >>= f) :=
  fun c => hf (c.seesSecond test) c

theorem get {f : Cursor → Parser β} (hf : ∀ c, Steady (f c)) : Steady (get >>= f) :=
  fun c => hf c c

theorem peek {f : Token → Parser β} (hf : ∀ t, Steady (f t)) : Steady (peek >>= f) :=
  fun c => hf c.next c

/-- Reporting an error takes back none that was reported. -/
theorem report (rule : Rule) (t : Token) (problem : Problem) : Steady (report rule t problem) :=
  fun _ => Cursor.report_onward _

/-- A site leaves the tokens as they are. -/
theorem freshSite : Steady freshSite :=
  fun _ => ⟨rfl, fun _ he => he, id⟩

/-- A refusal at the token that comes next. -/
theorem refuseNext (rule : Rule) (problem : Problem) :
    Steady (Parser.peek >>= fun t => refuse rule t problem : Parser α) := by
  intro c
  refine ⟨.refl, fun hempty => ?_⟩
  show c.next = c.stop
  unfold Cursor.next
  rw [hempty]
  rfl

/-- What a rule is refused for is reported where it stands, and recovery goes on. -/
theorem recovering (hp : Steady p) : Steady (recovering p) := by
  intro c
  have hc := hp c
  unfold Parser.recovering
  cases hpc : p c with
  | ok a c' =>
    rw [hpc] at hc
    exact hc
  | error e c' =>
    rw [hpc] at hc
    cases e with
    | problem e => exact hc.1.trans ((Cursor.report_onward e).trans Cursor.resume_onward)
    | outOfFuel => trivial

end Steady

namespace Demands

variable {p : Parser α} {f : α → Parser β} {test : Token → Bool}

/-- A rule that begins with one that gives no result. -/
theorem bind (hp : Demands p) : Demands (p >>= f) := by
  intro c hempty b c' hok
  cases hpc : p c with
  | ok a c₁ => exact hp c hempty a c₁ hpc
  | error e c₁ =>
    rw [bind_error hpc] at hok
    cases hok

/-- A rule that goes on with one that gives no result. -/
theorem after (hp : Steady p) (hf : ∀ a, Demands (f a)) : Demands (p >>= f) := by
  intro c hempty b c' hok
  have hc := hp c
  cases hpc : p c with
  | ok a c₁ =>
    rw [hpc] at hc
    rw [bind_ok hpc] at hok
    exact hf a c₁ (hc.unread hempty) b c' hok
  | error e c₁ =>
    rw [bind_error hpc] at hok
    cases hok

theorem outOfFuel : Demands (outOfFuel : Parser α) :=
  fun _ _ _ _ h => nomatch h

/-- A rule that is refused gives no result anywhere. -/
theorem refuse (rule : Rule) (t : Token) (problem : Problem) :
    Demands (refuse rule t problem : Parser α) :=
  fun _ _ _ _ h => nomatch h

/-- Where nothing is left no token is taken. -/
theorem take? {f : Option Token → Parser β} (hnone : Demands (f none)) :
    Demands (take? test >>= f) := by
  intro c hempty
  rw [bind_ok (take?_none (by rw [hempty]; rfl))]
  exact hnone c hempty

/-- Where nothing is left no token is taken, if only it matters whether one was. -/
theorem takes {f : Bool → Parser β} (hfalse : Demands (f false)) : Demands (takes test >>= f) := by
  rw [Parser.takes, bind_assoc]
  simp only [pure_bind]
  exact take? hfalse

theorem sees {f : Bool → Parser β} (hfalse : Demands (f false)) : Demands (sees test >>= f) := by
  intro c hempty
  show ∀ b c', f (c.sees test) c ≠ .ok b c'
  have hsees : c.sees test = false := by
    unfold Cursor.sees
    rw [hempty]
    rfl
  rw [hsees]
  exact hfalse c hempty

theorem seesSecond {f : Bool → Parser β} (hf : ∀ b, Demands (f b)) :
    Demands (seesSecond test >>= f) :=
  fun c hempty => hf (c.seesSecond test) c hempty

theorem peek {f : Token → Parser β} (hf : ∀ t, Demands (f t)) : Demands (peek >>= f) :=
  fun c hempty => hf c.next c hempty

/-- Where a token is asked for there must be one. -/
theorem expect (rule : Rule) (problem : Problem) : Demands (expect test rule problem) :=
  take? (peek fun t => refuse rule t problem)

end Demands

end Parser

/-! ## Two texts -/

/-- How the tokens of one text lie in another one. -/
structure Seam extends Shift where
  /-- The errors that the second run has met before. -/
  before : List SyntaxError
  /-- The tokens that follow in the second text. -/
  more : List Token
  stop : Token
  stop' : Token
  /-- The second text may go on where the first one ends. -/
  continued : Prop
  /-- Errors of the first run after which nothing is said of the second one. -/
  bad : SyntaxError → Prop
  whole : ¬continued → more = [] ∧ stop' = stop.later lines
  atStop : continued → ∀ e, e.token = stop → bad e
  noElse : more.head?.any (Token.isKeyword .elseKw) = false

namespace Seam

open Lox.Parser

/-- The cursor of the second run is at the same place as that of the first one. -/
structure Joins (S : Seam) (c c' : Cursor) : Prop where
  unread : c'.unread = c.unread.map (Token.later S.lines) ++ S.more
  stop : c.stop = S.stop
  stop' : c'.stop = S.stop'
  errors : c'.errors = S.before ++ c.errors.map (SyntaxError.later S.lines)
  sites : ∀ i, S.sites (c.nextSite + i) = c'.nextSite + i
  /-- If the first run may go on after an error, its tokens end with a semicolon. -/
  closes : S.continued → (∃ e, ¬S.bad e) → ∀ t ∈ c.unread.getLast?, t.isMark .semicolon = true

/-- An error after which nothing is said was met. -/
def Spoilt (S : Seam) (errors : List SyntaxError) : Prop :=
  ∃ e ∈ errors, S.bad e

variable {α β : Type}

/-- The second run ended as the first one did, as far as something is said of it. -/
def Agree (S : Seam) (o : Prop) (φ : α → α) :
    EStateM.Result Refusal Cursor α → EStateM.Result Refusal Cursor α → Prop
  | .ok a c, r' =>
    S.Spoilt c.errors ∨ (o ∧ S.continued ∧ c.stop = S.stop ∧ c.unread = []) ∨
      ∃ c', r' = .ok (φ a) c' ∧ S.Joins c c'
  | .error (.problem e) c, r' =>
    S.bad e ∨ S.Spoilt c.errors ∨ ∃ c', r' = .error (.problem (e.later S.lines)) c' ∧ S.Joins c c'
  | .error .outOfFuel _, _ => True

/-- The second rule does in the second text what the first one does in the first. -/
structure Follows (S : Seam) (o : Prop) (φ : α → α) (p q : Parser α) : Prop where
  steady : Steady p
  agree : ∀ c c', S.Joins c c' → S.Agree o φ (p c) (q c')

variable {S : Seam} {o : Prop} {φ : α → α} {ψ : β → β} {p q : Parser α} {c c' : Cursor}
variable {test : Token → Bool}

/-- Nothing is said once an error at the end was met. -/
theorem agree_spoilt (hp : Steady p) (h : S.Spoilt c.errors)
    (r' : EStateM.Result Refusal Cursor α) :
    S.Agree o φ (p c) r' := by
  have hc := hp c
  obtain ⟨e₀, he₀, hbad⟩ := h
  cases hpc : p c with
  | ok a c₁ =>
    rw [hpc] at hc
    exact .inl ⟨e₀, hc.errors e₀ he₀, hbad⟩
  | error e c₁ =>
    rw [hpc] at hc
    cases e with
    | problem e => exact .inr (.inl ⟨e₀, hc.1.errors e₀ he₀, hbad⟩)
    | outOfFuel => trivial

/-- Where the first run has read everything, it is refused at the end, or it may say nothing. -/
theorem agree_ended (hp : Steady p) (hcontinued : S.continued) (hstop : c.stop = S.stop)
    (hempty : c.unread = []) (hend : o ∨ Demands p) (r' : EStateM.Result Refusal Cursor α) :
    S.Agree o φ (p c) r' := by
  have hc := hp c
  cases hpc : p c with
  | ok a c₁ =>
    rw [hpc] at hc
    rcases hend with ho | hdemands
    · exact .inr (.inl ⟨ho, hcontinued, hc.stop.trans hstop, hc.unread hempty⟩)
    · exact absurd hpc (hdemands c hempty a c₁)
  | error e c₁ =>
    rw [hpc] at hc
    cases e with
    | problem e =>
      refine .inl (S.atStop hcontinued e ?_)
      rw [hc.2 (hc.1.unread hempty), hc.1.stop, hstop]
    | outOfFuel => trivial

/-! ## Laws -/

namespace Follows

/-- A result in the first text has its place in the second. -/
theorem pure {a b : α} (h : b = φ a) : S.Follows o φ (pure a) (pure b) := by
  refine ⟨.pure a, fun c c' hj => .inr (.inr ⟨c', ?_, hj⟩)⟩
  rw [h]
  rfl

theorem outOfFuel : S.Follows o φ (Parser.outOfFuel) q :=
  ⟨.outOfFuel, fun _ _ _ => trivial⟩

/-- Rules in a row follow if each does. If the first may end where its text does, the second must
need more tokens, or the whole may end there too. -/
theorem bind_of {o' : Prop} {f g : α → Parser β} (hp : S.Follows o' φ p q)
    (hf : ∀ a, S.Follows o ψ (f a) (g (φ a))) (hend : o' → o ∨ ∀ a, Demands (f a)) :
    S.Follows o ψ (p >>= f) (q >>= g) := by
  refine ⟨hp.steady.bind fun a => (hf a).steady, fun c c' hj => ?_⟩
  have hc := hp.agree c c' hj
  cases hpc : p c with
  | error e c₁ =>
    rw [hpc] at hc
    rw [bind_error hpc]
    cases e with
    | outOfFuel => trivial
    | problem e =>
      refine hc.imp_right fun hc => hc.imp_right ?_
      rintro ⟨c₁', hq, hj'⟩
      exact ⟨c₁', bind_error hq, hj'⟩
  | ok a c₁ =>
    rw [hpc] at hc
    rw [bind_ok hpc]
    rcases hc with hspoilt | ⟨ho', hcontinued, hstop, hempty⟩ | ⟨c₁', hq, hj'⟩
    -- of a rule behind one that has spoilt the run, or ended it, there is nothing more to show
    · exact agree_spoilt (hf a).steady hspoilt _
    · exact agree_ended (hf a).steady hcontinued hstop hempty ((hend ho').imp_right fun h => h a) _
    · rw [bind_ok hq]
      exact (hf a).agree c₁ c₁' hj'

/-- A rule that ends with a token of its own, and then another one. -/
theorem bind {f g : α → Parser β} (hp : S.Follows False φ p q)
    (hf : ∀ a, S.Follows o ψ (f a) (g (φ a))) : S.Follows o ψ (p >>= f) (q >>= g) :=
  bind_of hp hf False.elim

/-- A rule, and then one that wants a token. -/
theorem ending {f g : α → Parser β} (hp : S.Follows True φ p q)
    (hf : ∀ a, S.Follows o ψ (f a) (g (φ a))) (hend : ∀ a, Demands (f a)) :
    S.Follows o ψ (p >>= f) (q >>= g) :=
  bind_of hp hf fun _ => .inr hend

/-- One rule and then another, of which nothing is said where everything was read. -/
theorem andThen {f g : α → Parser β} (hp : S.Follows True φ p q)
    (hf : ∀ a, S.Follows True ψ (f a) (g (φ a))) : S.Follows True ψ (p >>= f) (q >>= g) :=
  bind_of hp hf fun _ => .inl trivial

/-- What is made of a result is made of its place in the second text. -/
theorem map {f g : α → β} (hp : S.Follows o φ p q) (h : ∀ a, g (φ a) = ψ (f a)) :
    S.Follows o ψ (f <$> p) (g <$> q) :=
  bind_of hp (fun a => .pure (h a)) .inl

end Follows

/-! ## Looking at the next token -/

/-- What a test finds at the two cursors: the same, unless the first text has ended. -/
theorem Joins.any (hj : S.Joins c c') (htest : Token.Lineless test) :
    c'.unread.head?.any test = c.unread.head?.any test ∨
      (c.unread = [] ∧ S.continued ∧ S.more.head?.any test = true) := by
  rw [hj.unread]
  cases hu : c.unread with
  | cons t ts => exact .inl (htest S.lines t)
  | nil =>
    by_cases hcontinued : S.continued
    · cases hmore : S.more.head?.any test with
      | true => exact .inr ⟨rfl, hcontinued, rfl⟩
      | false => exact .inl hmore
    · rw [(S.whole hcontinued).1]
      exact .inl rfl

/-- The token that comes next for the second run. -/
theorem Joins.next (hj : S.Joins c c') :
    c'.next = c.next.later S.lines ∨ (S.continued ∧ c.next = S.stop) := by
  unfold Cursor.next
  rw [hj.unread]
  cases hu : c.unread with
  | cons t ts => exact .inl rfl
  | nil =>
    by_cases hcontinued : S.continued
    · exact .inr ⟨hcontinued, hj.stop⟩
    · obtain ⟨hmore, hstop⟩ := S.whole hcontinued
      rw [hmore, hj.stop, hj.stop', hstop]
      exact .inl rfl

/-- Both runs read a token. -/
theorem Joins.read {t : Token} {ts : List Token} (hj : S.Joins c c') (hu : c.unread = t :: ts) :
    c'.unread = t.later S.lines :: (ts.map (Token.later S.lines) ++ S.more) ∧
      S.Joins { c with unread := ts }
        { c' with unread := ts.map (Token.later S.lines) ++ S.more } := by
  have hunread := hj.unread
  rw [hu] at hunread
  refine ⟨hunread, rfl, hj.stop, hj.stop', hj.errors, hj.sites, fun hcontinued hbad t' ht' => ?_⟩
  refine hj.closes hcontinued hbad t' ?_
  rw [hu]
  cases ts with
  | nil => cases ht'
  | cons u us => rwa [List.getLast?_cons_cons]

namespace Follows

/-- A test that does not look at lines finds the same token in both texts. At the end of the first,
the second text comes next: it must not pass, or the rule needs more. -/
theorem take? {f g : Option Token → Parser β} (htest : Token.Lineless test)
    (hsome : ∀ t, test t = true → S.Follows o ψ (f (some t)) (g (some (t.later S.lines))))
    (hnone : S.Follows o ψ (f none) (g none))
    (hend : o ∨ Demands (f none) ∨ S.more.head?.any test = false) :
    S.Follows o ψ (take? test >>= f) (take? test >>= g) := by
  refine ⟨.take? (fun t ht => (hsome t ht).steady) hnone.steady, fun c c' hj => ?_⟩
  cases hhead : c.unread.head?.any test with
  | true =>
    cases hu : c.unread with
    | nil =>
      rw [hu] at hhead
      cases hhead
    | cons t ts =>
      rw [hu] at hhead
      have ht : test t = true := hhead
      obtain ⟨hu', hj'⟩ := hj.read hu
      rw [bind_ok (take?_some hu ht), bind_ok (take?_some hu' ((htest S.lines t).trans ht))]
      exact (hsome t ht).agree _ _ hj'
  | false =>
    rw [bind_ok (take?_none hhead)]
    rcases hj.any htest with hsame | ⟨hempty, hcontinued, hmore⟩
    · rw [bind_ok (take?_none (hsame.trans hhead))]
      exact hnone.agree c c' hj
    · refine agree_ended hnone.steady hcontinued hj.stop hempty (hend.imp_right fun h => ?_) _
      refine h.resolve_right fun hno => ?_
      rw [hno] at hmore
      cases hmore

/-- Taking a token where it only matters whether one was taken. -/
theorem takes {f g : Bool → Parser β} (htest : Token.Lineless test)
    (htrue : S.Follows o ψ (f true) (g true)) (hfalse : S.Follows o ψ (f false) (g false))
    (hend : o ∨ Demands (f false) ∨ S.more.head?.any test = false) :
    S.Follows o ψ (takes test >>= f) (takes test >>= g) := by
  rw [Parser.takes, bind_assoc, bind_assoc]
  simp only [pure_bind]
  exact take? htest (fun _ _ => htrue) hfalse hend

/-- Looking at a token, which at the end of the first text is one of the second. -/
theorem sees {f g : Bool → Parser β} (htest : Token.Lineless test)
    (htrue : S.Follows o ψ (f true) (g true)) (hfalse : S.Follows o ψ (f false) (g false))
    (hend : o ∨ Demands (f false)) :
    S.Follows o ψ (sees test >>= f) (sees test >>= g) := by
  have hf : ∀ b, S.Follows o ψ (f b) (g b) := by
    intro b
    cases b with
    | true => exact htrue
    | false => exact hfalse
  refine ⟨.sees fun b => (hf b).steady, fun c c' hj => ?_⟩
  show S.Agree o ψ (f (c.sees test) c) (g (c'.sees test) c')
  rcases hj.any htest with hsame | ⟨hempty, hcontinued, _⟩
  · rw [show c'.sees test = c.sees test from hsame]
    exact (hf _).agree c c' hj
  · have hsees : c.sees test = false := by
      unfold Cursor.sees
      rw [hempty]
      rfl
    rw [hsees]
    exact agree_ended hfalse.steady hcontinued hj.stop hempty hend _

/-- Looking at two tokens. If only one is left for the first run, it is refused at the end. -/
theorem seesBoth {test' : Token → Bool} {f g : Bool → Parser β} (htest : Token.Lineless test)
    (htest' : Token.Lineless test') (htrue : S.Follows o ψ (f true) (g true))
    (hfalse : S.Follows o ψ (f false) (g false)) (hend : Demands (f false))
    (hlast : ∀ c t, c.unread = [t] → test t = true → ∃ e c₁, f false c = .error (.problem e) c₁ ∧
      e.token = c.stop) :
    S.Follows o ψ (Parser.sees test >>= fun a => seesSecond test' >>= fun b => f (a && b))
      (Parser.sees test >>= fun a => seesSecond test' >>= fun b => g (a && b)) := by
  have hf : ∀ b, S.Follows o ψ (f b) (g b) := by
    intro b
    cases b with
    | true => exact htrue
    | false => exact hfalse
  refine ⟨.sees fun a => .seesSecond fun b => (hf _).steady, fun c c' hj => ?_⟩
  show S.Agree o ψ (f (c.sees test && c.seesSecond test') c)
    (g (c'.sees test && c'.seesSecond test') c')
  -- either the first run has a token to look at, and then both see the same, or it is at its end
  rcases hj.any htest with hsame | ⟨hempty, hcontinued, _⟩
  · rw [show c'.sees test = c.sees test from hsame]
    cases hsees : c.sees test with
    | false => exact hfalse.agree c c' hj
    | true =>
      cases hu : c.unread with
      | nil =>
        unfold Cursor.sees at hsees
        rw [hu] at hsees
        cases hsees
      | cons t ts =>
        obtain ⟨hu', hj'⟩ := hj.read hu
        have hsecond := hj'.any htest'
        have hc : c.seesSecond test' = ts.head?.any test' := by
          unfold Cursor.seesSecond
          rw [hu]
          rfl
        have hc' : c'.seesSecond test' =
            (ts.map (Token.later S.lines) ++ S.more).head?.any test' := by
          unfold Cursor.seesSecond
          rw [hu']
          rfl
        -- the same for the token behind
        rcases hsecond with hsecond | ⟨hempty, hcontinued, _⟩
        · rw [hc, hc', hsecond, Bool.true_and]
          exact (hf _).agree c c' hj
        · -- the first run is refused behind its last token
          obtain rfl : ts = [] := hempty
          have ht : test t = true := by
            unfold Cursor.sees at hsees
            rwa [hu] at hsees
          obtain ⟨e, c₁, hrefused, htoken⟩ := hlast c t hu ht
          rw [hc, Bool.true_and]
          show S.Agree o ψ (f false c) _
          rw [hrefused]
          exact .inl (S.atStop hcontinued e (htoken.trans hj.stop))
  · have hsees : c.sees test = false := by
      unfold Cursor.sees
      rw [hempty]
      rfl
    rw [hsees]
    exact agree_ended hfalse.steady hcontinued hj.stop hempty (.inr hend) _

/-- Asking whether anything is left. -/
theorem isEmpty {k : Bool → Bool} {f g : Bool → Parser β} (htest : Token.Lineless test)
    (htrue : S.Follows True ψ (f true) (g true)) (hfalse : S.Follows True ψ (f false) (g false)) :
    S.Follows True ψ
      (get >>= fun c => Parser.sees test >>= fun b => f (c.unread.isEmpty || k b))
      (get >>= fun c => Parser.sees test >>= fun b => g (c.unread.isEmpty || k b)) := by
  have hf : ∀ b, S.Follows True ψ (f b) (g b) := by
    intro b
    cases b with
    | true => exact htrue
    | false => exact hfalse
  refine ⟨.get fun c => .sees fun b => (hf _).steady, fun c c' hj => ?_⟩
  show S.Agree True ψ (f (c.unread.isEmpty || k (c.sees test)) c)
    (g (c'.unread.isEmpty || k (c'.sees test)) c')
  -- only where the first text has ended and the second goes on do the runs part
  by_cases hended : c.unread = [] ∧ S.continued
  · exact agree_ended (hf _).steady hended.2 hj.stop hended.1 (.inl trivial) _
  · have hempty : c'.unread.isEmpty = c.unread.isEmpty := by
      rw [hj.unread]
      cases hu : c.unread with
      | cons t ts => rfl
      | nil =>
        rw [(S.whole fun hcontinued => hended ⟨hu, hcontinued⟩).1]
        rfl
    have hsees : c'.sees test = c.sees test :=
      (hj.any htest).resolve_right fun h => hended ⟨h.1, h.2.1⟩
    rw [hempty, hsees]
    exact (hf _).agree c c' hj

/-- A refusal at the token that comes next. -/
theorem refuseNext (rule : Rule) (problem : Problem) :
    S.Follows o φ (peek >>= fun t => refuse rule t problem)
      (peek >>= fun t => refuse rule t problem) := by
  refine ⟨.refuseNext rule problem, fun c c' hj => ?_⟩
  show S.Agree o φ (.error (.problem ⟨rule, c.next, problem⟩) c)
    (.error (.problem ⟨rule, c'.next, problem⟩) c')
  rcases hj.next with hsame | ⟨hcontinued, hnext⟩
  · rw [hsame]
    exact .inr (.inr ⟨c', rfl, hj⟩)
  · exact .inl (S.atStop hcontinued _ hnext)

/-- A token that is asked for: at the end of the first text this is an error, and nothing is said
after it. -/
theorem expect (htest : Token.Lineless test) (rule : Rule) (problem : Problem) :
    S.Follows o (Token.later S.lines) (expect test rule problem) (expect test rule problem) :=
  take? htest (fun _ _ => .pure rfl) (.refuseNext rule problem)
    (.inr (.inl (.peek fun t => .refuse rule t problem)))

/-- An error is reported at a token that was read. -/
theorem report (rule : Rule) (t : Token) (problem : Problem) :
    S.Follows o id (report rule t problem) (report rule (t.later S.lines) problem) := by
  refine ⟨.report rule t problem, fun c c' hj => .inr (.inr ⟨_, rfl, ?_⟩)⟩
  refine ⟨hj.unread, hj.stop, hj.stop', ?_, hj.sites, hj.closes⟩
  show c'.errors ++ _ = _ ++ (c.errors ++ [_]).map _
  rw [hj.errors, List.map_append, List.append_assoc]
  rfl

/-- An error is reported at the token that comes next. -/
theorem reportNext {f g : Unit → Parser β} (rule : Rule) (problem : Problem)
    (hf : S.Follows o ψ (f ()) (g ())) :
    S.Follows o ψ (peek >>= fun t => Parser.report rule t problem >>= f)
      (peek >>= fun t => Parser.report rule t problem >>= g) := by
  refine ⟨.peek fun t => (Steady.report rule t problem).bind fun _ => hf.steady, fun c c' hj => ?_⟩
  show S.Agree o ψ ((Parser.report rule c.next problem >>= f) c)
    ((Parser.report rule c'.next problem >>= g) c')
  rcases hj.next with hsame | ⟨hcontinued, hnext⟩
  · rw [hsame]
    exact (bind (Follows.report (o := False) rule c.next problem) fun _ => hf).agree c c' hj
  · refine agree_spoilt (p := f ()) (c := c.report ⟨rule, c.next, problem⟩) hf.steady ?_ _
    exact ⟨⟨rule, c.next, problem⟩, List.mem_append_right _ (List.mem_singleton_self _),
      S.atStop hcontinued _ hnext⟩

/-- A site of the first text is the one of the second in its place. -/
theorem freshSite : S.Follows o S.sites freshSite freshSite := by
  refine ⟨.freshSite, fun c c' hj => .inr (.inr ⟨{ c' with nextSite := c'.nextSite + 1 }, ?_, ?_⟩)⟩
  · have hsite := hj.sites 0
    rw [Nat.add_zero, Nat.add_zero] at hsite
    rw [hsite]
    rfl
  · refine ⟨hj.unread, hj.stop, hj.stop', hj.errors, fun i => ?_, hj.closes⟩
    show S.sites (c.nextSite + 1 + i) = c'.nextSite + 1 + i
    rw [Nat.add_assoc, Nat.add_assoc]
    exact hj.sites (1 + i)

/-! ## Going on after an error -/

end Follows

/-- Passing over tokens up to the next statement does not go beyond the first text, if that ends
with a semicolon or nothing follows. -/
theorem resumeAfter_joined (last : Token) (ts : List Token)
    (hclosed : S.continued → ∀ t ∈ (last :: ts).getLast?, t.isMark .semicolon = true) :
    resumeAfter (last.later S.lines) (ts.map (Token.later S.lines) ++ S.more) =
      (resumeAfter last ts).map (Token.later S.lines) ++ S.more := by
  induction ts generalizing last with
  | nil =>
    show resumeAfter (last.later S.lines) S.more = S.more
    cases hmore : S.more with
    | nil => rfl
    | cons t more =>
      have hcontinued : S.continued := by
        refine Classical.not_not.mp fun hno => ?_
        rw [(S.whole hno).1] at hmore
        cases hmore
      -- the statement that was refused ends with the text, so nothing of the rest is passed over
      have hlast : (last.later S.lines).isMark .semicolon = true := hclosed hcontinued last rfl
      rw [resumeAfter, hlast, Bool.true_or, if_pos rfl]
  | cons t ts ih =>
    show resumeAfter (last.later S.lines)
      (t.later S.lines :: (ts.map (Token.later S.lines) ++ S.more)) = _
    have hsame : ((last.later S.lines).isMark .semicolon || (t.later S.lines).beginsStatement) =
        (last.isMark .semicolon || t.beginsStatement) := rfl
    rw [resumeAfter, resumeAfter, hsame]
    split
    next => rfl
    next =>
      refine ih t fun hcontinued u hu => hclosed hcontinued u ?_
      rwa [List.getLast?_cons_cons]

/-- Both runs go on at the next statement. -/
theorem Joins.resume (hj : S.Joins c c') (hbad : ∃ e, ¬S.bad e)
    (hends : c.unread = [] → ¬S.continued) : S.Joins c.resume c'.resume := by
  cases hu : c.unread with
  | nil =>
    have hu' : c'.unread = [] := by
      rw [hj.unread, hu, (S.whole (hends hu)).1]
      rfl
    have hresume : c.resume = c := by
      unfold Cursor.resume
      rw [hu]
    have hresume' : c'.resume = c' := by
      unfold Cursor.resume
      rw [hu']
    rwa [hresume, hresume']
  | cons t ts =>
    obtain ⟨hu', hread⟩ := hj.read hu
    have hclosed : S.continued → ∀ u ∈ (t :: ts).getLast?, u.isMark .semicolon = true := by
      intro hcontinued
      rw [← hu]
      exact hj.closes hcontinued hbad
    have hresume : c.resume = { c with unread := resumeAfter t ts } := by
      unfold Cursor.resume
      rw [hu]
    have hresume' : c'.resume =
        { c' with unread := (resumeAfter t ts).map (Token.later S.lines) ++ S.more } := by
      unfold Cursor.resume
      rw [hu']
      dsimp only
      rw [resumeAfter_joined t ts hclosed]
    rw [hresume, hresume']
    refine ⟨rfl, hj.stop, hj.stop', hj.errors, hj.sites, fun hcontinued _ u hlast => ?_⟩
    obtain ⟨us, hus⟩ := Cursor.resumeAfter_eq t ts
    refine hclosed hcontinued u ?_
    have hwhole : t :: ts = (t :: us) ++ resumeAfter t ts := by rw [List.cons_append, ← hus]
    rw [hwhole, List.getLast?_append, Option.mem_def.mp hlast]
    rfl

namespace Follows

/-- A rule that is refused, and the next statement after it. -/
theorem recovering (hp : S.Follows False φ p q) :
    S.Follows o (Option.map φ) (recovering p) (recovering q) := by
  refine ⟨hp.steady.recovering, fun c c' hj => ?_⟩
  have hc := hp.agree c c' hj
  have hsteady := hp.steady c
  unfold Parser.recovering
  cases hpc : p c with
  | ok a c₁ =>
    rw [hpc] at hc
    rcases hc with hspoilt | ⟨hno, _⟩ | ⟨c₁', hq, hj'⟩
    · exact .inl hspoilt
    · exact hno.elim
    · refine .inr (.inr ⟨c₁', ?_, hj'⟩)
      rw [hq]
      rfl
  | error e c₁ =>
    rw [hpc] at hc hsteady
    cases e with
    | outOfFuel => trivial
    | problem e =>
      have herrors : (c₁.report e).resume.errors = c₁.errors ++ [e] := by
        unfold Cursor.resume
        split <;> rfl
      -- a refusal at the end of the first text is reported there, and what the second text does
      -- in its place is left open
      by_cases hbad : S.bad e
      · refine .inl ⟨e, ?_, hbad⟩
        rw [herrors]
        exact List.mem_append_right _ (List.mem_singleton_self e)
      rcases hc.resolve_left hbad with ⟨e₀, he₀, hbad₀⟩ | ⟨c₁', hq, hj'⟩
      · refine .inl ⟨e₀, ?_, hbad₀⟩
        rw [herrors]
        exact List.mem_append_left _ he₀
      · rw [hq]
        have hreport : S.Joins (c₁.report e) (c₁'.report (e.later S.lines)) := by
          refine ⟨hj'.unread, hj'.stop, hj'.stop', ?_, hj'.sites, hj'.closes⟩
          show c₁'.errors ++ _ = _ ++ (c₁.errors ++ [e]).map _
          rw [hj'.errors, List.map_append, List.append_assoc]
          rfl
        refine .inr (.inr ⟨_, rfl, hreport.resume ⟨e, hbad⟩ fun hempty hcontinued => hbad ?_⟩)
        exact S.atStop hcontinued e ((hsteady.2 hempty).trans hj'.stop)

end Follows

end Seam

end Lox
