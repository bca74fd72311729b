import Lox.Grammar.Rules

/-!
# What a rule reads

A rule of the grammar moves a cursor forward: it reads some tokens, and it may report errors on
the way. `Reads n m p D` says what rule `p` does at every cursor with at most `n` unread tokens. It
never runs out of fuel; it only reads forward and only adds errors; and where it gives a result it
has read at least `m` tokens, and `D read result rest` holds of them unless errors were reported.

There is one law for each step that rules are made of. The laws for steps that look at a token take
the rest of the rule along and hand it the token, so a rule is worked through from its first step
to its last, and what was read is put together on the way.
-/

namespace Lox

/-- From one cursor to another `read` was read and `errors` was added. -/
structure Cursor.Moves (c c' : Cursor) (read : List Token) (errors : List SyntaxError) : Prop where
  unread : c.unread = read ++ c'.unread
  errors : c'.errors = c.errors ++ errors

namespace Cursor

/-- Nothing is read on the spot. -/
theorem Moves.refl {c : Cursor} : c.Moves c [] [] :=
  ⟨rfl, (List.append_nil _).symm⟩

/-- What was read and what was reported in two steps. -/
theorem Moves.trans {c₁ c₂ c₃ : Cursor} {ts us : List Token} {es fs : List SyntaxError}
    (h₁ : c₁.Moves c₂ ts es) (h₂ : c₂.Moves c₃ us fs) : c₁.Moves c₃ (ts ++ us) (es ++ fs) :=
  ⟨by rw [h₁.unread, h₂.unread, List.append_assoc],
    by rw [h₂.errors, h₁.errors, List.append_assoc]⟩

/-- Reading forward leaves no more unread than there was. -/
theorem Moves.length_eq {c c' : Cursor} {ts : List Token} {es : List SyntaxError}
    (h : c.Moves c' ts es) : c.unread.length = ts.length + c'.unread.length := by
  rw [h.unread, List.length_append]

/-- Recovery passes over tokens at the front. -/
theorem resumeAfter_eq (last : Token) (ts : List Token) :
    ∃ us, ts = us ++ resumeAfter last ts := by
  induction ts generalizing last with
  | nil => exact ⟨[], rfl⟩
  | cons t ts ih =>
    rw [resumeAfter]
    split
    · exact ⟨[], rfl⟩
    · obtain ⟨us, hus⟩ := ih t
      exact ⟨t :: us, by rw [List.cons_append, ← hus]⟩

/-- Going on at the next statement passes over tokens, over one at least if there is one. -/
theorem resume_moves (c : Cursor) :
    ∃ ts, c.Moves c.resume ts [] ∧ (c.unread ≠ [] → 1 ≤ ts.length) := by
  unfold resume
  cases h : c.unread with
  | nil => exact ⟨[], .refl, fun hne => absurd rfl hne⟩
  | cons t ts =>
    obtain ⟨us, hus⟩ := resumeAfter_eq t ts
    refine ⟨t :: us, ⟨?_, (List.append_nil _).symm⟩, fun _ => by simp⟩
    rw [h, List.cons_append, ← hus]

end Cursor

namespace Parser

variable {α β : Type}

/-! ## Steps that are known to succeed -/

/-- A step that succeeds goes on from its result. -/
theorem bind_ok {p : Parser α} {f : α → Parser β} {c c' : Cursor} {a : α} (h : p c = .ok a c') :
    (p >>= f) c = f a c' := by
  show EStateM.bind p f c = f a c'
  unfold EStateM.bind
  rw [h]

/-- A step that fails is the end. -/
theorem bind_error {p : Parser α} {f : α → Parser β} {c c' : Cursor} {e : Refusal}
    (h : p c = .error e c') : (p >>= f) c = .error e c' := by
  show EStateM.bind p f c = .error e c'
  unfold EStateM.bind
  rw [h]

/-- A token that passes is taken. -/
theorem take?_some {test : Token → Bool} {c : Cursor} {t : Token} {ts : List Token}
    (hu : c.unread = t :: ts) (ht : test t = true) :
    take? test c = .ok (some t) { c with unread := ts } := by
  unfold take?
  rw [hu]
  exact if_pos ht

/-- Where none passes, none is taken. -/
theorem take?_none {test : Token → Bool} {c : Cursor} (h : c.unread.head?.any test = false) :
    take? test c = .ok none c := by
  unfold take?
  split
  next t ts hu =>
    rw [hu] at h
    exact if_neg (by simpa using h)
  next => rfl

/-! ## What rules do wherever they start -/

/-- What a rule has done once it ends, from the cursor `c` on. -/
def Done (c : Cursor) (m : Nat) (D : List Token → α → List Token → Prop) :
    EStateM.Result Refusal Cursor α → Prop
  | .ok a c' =>
    ∃ ts es, c.Moves c' ts es ∧ m ≤ ts.length ∧ (es = [] → D ts a c'.unread)
  | .error (.problem _) c' => ∃ ts es, c.Moves c' ts es
  | .error .outOfFuel _ => False

/-- What a rule does at every cursor with at most `n` unread tokens. -/
def Reads (n m : Nat) (p : Parser α) (D : List Token → α → List Token → Prop) : Prop :=
  ∀ c : Cursor, c.unread.length ≤ n → Done c m D (p c)

/-- A promise may be weakened, also with the help of what stood at the cursor. -/
theorem Done.mono {c : Cursor} {m m' : Nat} {D D' : List Token → α → List Token → Prop}
    {r : EStateM.Result Refusal Cursor α} (h : Done c m D r) (hm : m' ≤ m)
    (hD : ∀ ts a rest, c.unread = ts ++ rest → D ts a rest → D' ts a rest) :
    Done c m' D' r := by
  unfold Done at h ⊢
  split at h
  next a c' =>
    obtain ⟨ts, es, hmove, hlen, himp⟩ := h
    exact ⟨ts, es, hmove, Nat.le_trans hm hlen, fun he => hD _ _ _ hmove.unread (himp he)⟩
  next => exact h
  next => exact h

/-- What was read before a rule started counts as read by the whole. -/
theorem Done.after {c c₁ : Cursor} {m k : Nat} {us : List Token} {es : List SyntaxError}
    {D : List Token → α → List Token → Prop} {r : EStateM.Result Refusal Cursor α}
    (hmove : c.Moves c₁ us es) (hm : m ≤ us.length + k)
    (h : Done c₁ k (fun ts a rest => es = [] → D (us ++ ts) a rest) r) : Done c m D r := by
  unfold Done at h ⊢
  split at h
  next a c' =>
    obtain ⟨ts, fs, hmove', hlen, himp⟩ := h
    refine ⟨_, _, hmove.trans hmove', by rw [List.length_append]; omega, fun he => ?_⟩
    obtain ⟨hes, hfs⟩ := List.append_eq_nil_iff.mp he
    exact himp hfs hes
  next =>
    obtain ⟨ts, fs, hmove'⟩ := h
    exact ⟨_, _, hmove.trans hmove'⟩
  next => exact h

/-- One rule and then another, at one cursor. -/
theorem Done.bind {p : Parser α} {f : α → Parser β} {c : Cursor} {m k : Nat}
    {D : List Token → α → List Token → Prop} {E : List Token → β → List Token → Prop}
    (hp : Done c k D (p c))
    (hf : ∀ a c₁, c₁.unread.length + k ≤ c.unread.length →
      Done c₁ 0 (fun ts b rest => ∀ us, D us a (ts ++ rest) → E (us ++ ts) b rest) (f a c₁))
    (hm : m ≤ k) : Done c m E ((p >>= f) c) := by
  cases hpc : p c with
  | error e c' =>
    rw [hpc] at hp
    rw [bind_error hpc]
    cases e with
    | problem e => exact hp
    | outOfFuel => exact hp.elim
  | ok a c₁ =>
    rw [hpc] at hp
    rw [bind_ok hpc]
    obtain ⟨us, es, hmove, hlen, himp⟩ := hp
    have hsize := hmove.length_eq
    refine Done.after hmove (by omega) ((hf a c₁ (by omega)).mono (Nat.le_refl _) ?_)
    intro ts b rest hrest hE hes
    exact hE us (by rw [← hrest]; exact himp hes)

namespace Reads

variable {n m k j : Nat} {p : Parser α} {D D' : List Token → α → List Token → Prop}
  {E : List Token → β → List Token → Prop} {test : Token → Bool}

/-- Of a rule less may be claimed, and of fewer tokens. -/
theorem mono (h : Reads n m p D) (hk : k ≤ n) (hj : j ≤ m)
    (hD : ∀ ts a rest, D ts a rest → D' ts a rest) : Reads k j p D' :=
  fun c hc => (h c (Nat.le_trans hc hk)).mono hj fun ts a rest _ => hD ts a rest

/-- What holds wherever `n` tokens are unread holds where fewer are. -/
theorem le (h : Reads n m p D) (hk : k ≤ n) : Reads k m p D :=
  h.mono hk (Nat.le_refl _) fun _ _ _ hD => hD

/-- A result for which nothing is read. -/
theorem pure {a : α} (h : ∀ rest, D [] a rest) : Reads n 0 (pure a) D :=
  fun _ _ => ⟨[], [], .refl, Nat.le_refl _, fun _ => h _⟩

/-- A refusal promises nothing. -/
theorem refuse {rule : Rule} {t : Token} {problem : Problem} :
    Reads n m (refuse (α := α) rule t problem) D :=
  fun _ _ => ⟨[], [], .refl⟩

/-- One rule and then another. The second one is told what the first one read. -/
theorem bind {f : α → Parser β} (hp : Reads n k p D)
    (hf : ∀ a, k ≤ n → Reads (n - k) 0 (f a) fun ts b rest =>
      ∀ us, D us a (ts ++ rest) → E (us ++ ts) b rest)
    (hm : m ≤ k) : Reads n m (p >>= f) E :=
  fun c hc => (hp c hc).bind (fun a c₁ hsize => hf a (by omega) c₁ (by omega)) hm

/-- What is claimed of what is made of a result. -/
theorem map {f : α → β} (h : Reads n m p fun ts a rest => E ts (f a) rest) :
    Reads n m (f <$> p) E :=
  bind h
    (fun _ _ => pure (n := n - m) fun rest us hD => by rw [List.append_nil]; exact hD)
    (Nat.le_refl _)

/-- A token is read if the test holds of it. -/
theorem take? {f : Option Token → Parser α}
    (hsome : ∀ t, 0 < n → test t = true →
      Reads (n - 1) (m - 1) (f (some t)) fun ts a rest => D (t :: ts) a rest)
    (hnone : Reads n m (f none) fun ts a rest =>
      (ts ++ rest).head?.any test = false → D ts a rest) :
    Reads n m (take? test >>= f) D := by
  intro c hc
  cases hhead : c.unread.head?.any test with
  | false =>
    rw [bind_ok (take?_none hhead)]
    refine (hnone c hc).mono (Nat.le_refl _) fun ts a rest hrest hD => hD ?_
    rw [← hrest]
    exact hhead
  | true =>
    cases hu : c.unread with
    | nil => rw [hu] at hhead; exact absurd hhead Bool.false_ne_true
    | cons t ts =>
      rw [hu] at hhead hc
      rw [List.length_cons] at hc
      have ht : test t = true := hhead
      rw [bind_ok (take?_some hu ht)]
      have hstep : c.Moves { c with unread := ts } [t] [] :=
        ⟨by rw [hu]; rfl, (List.append_nil _).symm⟩
      refine Done.after hstep (by rw [List.length_singleton]; omega)
        ((hsome t (by omega) ht { c with unread := ts } (by simp only; omega)).mono
          (Nat.le_refl _) ?_)
      exact fun us a rest _ hD _ => hD

/-- The same as taking a token, where only it matters whether one was. -/
theorem takes {f : Bool → Parser α}
    (htrue : ∀ t, 0 < n → test t = true →
      Reads (n - 1) (m - 1) (f true) fun ts a rest => D (t :: ts) a rest)
    (hfalse : Reads n m (f false) fun ts a rest =>
      (ts ++ rest).head?.any test = false → D ts a rest) :
    Reads n m (takes test >>= f) D := by
  rw [Parser.takes, bind_assoc]
  simp only [pure_bind]
  exact take? (fun t hn ht => htrue t hn ht) hfalse

/-- Where a token is asked for, the rule goes on with it or is refused. -/
theorem expect {f : Token → Parser α} {rule : Rule} {problem : Problem}
    (h : ∀ t, 0 < n → test t = true →
      Reads (n - 1) (m - 1) (f t) fun ts a rest => D (t :: ts) a rest) :
    Reads n m (expect test rule problem >>= f) D := by
  rw [Parser.expect, bind_assoc]
  refine take? (fun t hn ht => by simpa only [pure_bind] using h t hn ht) fun c hc => ?_
  exact ⟨[], [], .refl⟩

/-- Looking at a token tells with what the rest begins. -/
theorem sees {f : Bool → Parser α}
    (htrue : Reads n m (f true) fun ts a rest =>
      (ts ++ rest).head?.any test = true → D ts a rest)
    (hfalse : Reads n m (f false) D) :
    Reads n m (sees test >>= f) D := by
  intro c hc
  show Done c m D (f (c.sees test) c)
  cases hs : c.sees test with
  | false => exact hfalse c hc
  | true =>
    refine (htrue c hc).mono (Nat.le_refl _) fun ts a rest hrest hD => hD ?_
    rw [← hrest]
    exact hs

theorem seesSecond {f : Bool → Parser α} (h : ∀ b, Reads n m (f b) D) :
    Reads n m (seesSecond test >>= f) D :=
  fun c hc => h (c.seesSecond test) c hc

/-- Looking at the next token claims nothing of it. -/
theorem peek {f : Token → Parser α} (h : ∀ t, Reads n m (f t) D) :
    Reads n m (peek >>= f) D :=
  fun c hc => h c.next c hc

/-- A site may be any. -/
theorem freshSite {f : Site → Parser α} (h : ∀ site, Reads n m (f site) D) :
    Reads n m (freshSite >>= f) D := by
  intro c hc
  have hstep : c.Moves { c with nextSite := c.nextSite + 1 } [] [] :=
    ⟨rfl, (List.append_nil _).symm⟩
  refine Done.after hstep (Nat.le_of_eq (by rw [List.length_nil, Nat.zero_add]))
    ((h c.nextSite { c with nextSite := c.nextSite + 1 } hc).mono (Nat.le_refl _) ?_)
  exact fun ts a rest _ hD _ => hD

/-- After a reported error the tokens need not be what the rule is for. -/
theorem report {f : Unit → Parser α} {rule : Rule} {t : Token} {problem : Problem}
    (h : Reads n m (f ()) fun _ _ _ => True) : Reads n m (report rule t problem >>= f) D := by
  intro c hc
  have hstep : c.Moves (c.report ⟨rule, t, problem⟩) [] [⟨rule, t, problem⟩] := ⟨rfl, rfl⟩
  refine Done.after hstep (Nat.le_of_eq (by rw [List.length_nil, Nat.zero_add]))
    ((h (c.report ⟨rule, t, problem⟩) hc).mono (Nat.le_refl _) ?_)
  exact fun ts a rest _ _ he => absurd he (List.cons_ne_nil _ _)

/-- A rule that is refused is followed by the next statement; then no promise is left, but
something was read. -/
theorem recovering (h : Reads n 1 p D) {c : Cursor} (hc : c.unread.length ≤ n)
    (hne : c.unread ≠ []) :
    Done c 1 (fun ts result rest => ∃ a, result = some a ∧ D ts a rest)
      (p.recovering c) := by
  have hd := h c hc
  unfold Parser.recovering
  cases hpc : p c with
  | ok a c' =>
    rw [hpc] at hd
    obtain ⟨ts, es, hmove, hlen, himp⟩ := hd
    exact ⟨ts, es, hmove, hlen, fun he => ⟨a, rfl, himp he⟩⟩
  | error e c' =>
    rw [hpc] at hd
    cases e with
    | outOfFuel => exact hd.elim
    | problem e =>
      obtain ⟨ts, es, hmove⟩ := hd
      obtain ⟨us, hresume, hus⟩ := (c'.report e).resume_moves
      have hreport : c'.Moves (c'.report e) [] [e] := ⟨rfl, rfl⟩
      refine ⟨_, _, hmove.trans (hreport.trans hresume), ?_, fun he => absurd he (by simp)⟩
      rw [List.nil_append, List.length_append]
      -- the refused rule read everything there was, or a token is passed over
      by_cases hempty : c'.unread = []
      · have hsize := hmove.length_eq
        have hpos := List.length_pos_iff.mpr hne
        rw [hempty, List.length_nil] at hsize
        omega
      · have := hus hempty
        omega

end Reads

end Parser

end Lox
