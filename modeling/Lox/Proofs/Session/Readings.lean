import Lox.Proofs.Channel.Lines
import Lox.Proofs.Session.History

/-!
# Every line is read once

The lines of input are read one after the other, at prompts and by `input` statements. The moments
of the log at which a statement reads are known, all others leave input alone, and so the readings
of a session get line after line, whatever is done with them (`Chronicle.lines_in_order`).
-/

namespace Lox

open Eval

/-! ## Readings -/

/-- A line is read. -/
inductive Reading where
  /-- At a prompt of the session. -/
  | prompt (s : Session)
  /-- For an `input` statement, at the moment. -/
  | statement (ev : Event) (keyword : Token) (target : Expr)

/-- What stops an `input` statement at a line. -/
def Line.refusal? (keyword : Token) : Line → Option Halt
  | .absent | .text _ => none
  | .unreadable => some (.fault ⟨keyword, .inputUnreadable⟩)

/-- What an `input` statement does with a line: its target gets `nil` if there is none, else the
value that the line spells. -/
def Line.answer (keyword : Token) (target : Expr) : Line → Exec Unit
  | .absent => assignInput keyword target .nil
  | .text s => assignInput keyword target (.ofTyped (withoutLineEnd s))
  | .unreadable => Exec.fail keyword .inputUnreadable

namespace Reading

/-- The input before the reading. -/
def unread : Reading → Input
  | .prompt s => s.machine.input
  | .statement ev _ _ => ev.machine.input

/-- The moment of a statement's reading. -/
def event? : Reading → Option Event
  | .prompt _ => none
  | .statement ev _ _ => some ev

/-- The reading gets the line and leaves the rest of input. -/
def Gets (line : Line) (rest : Input) : Reading → Prop
  | .prompt s =>
    (Command.promptedLine s).1 = line ∧ (Command.promptedLine s).2.machine.input = rest
  | .statement ev keyword target =>
    ev.reading? = some (keyword, target) ∧
      ev.occurrence = .step .nothing (line.refusal? keyword) { ev.machine with input := rest } ∧
      Eval.input keyword target ev.machine =
        line.answer keyword target { ev.machine with input := rest }

/-- The readings follow one another: each gets the first line of what the one before has left. -/
def Follow (i : Input) : List Reading → Input → Prop
  | [], i' => i' = i
  | r :: rs, i' =>
    r.unread = i ∧ r.Gets i.takeLine.1 i.takeLine.2 ∧ Follow i.takeLine.2 rs i'

theorem Follow.append {i i' i'' : Input} {rs rs' : List Reading} (h : Follow i rs i')
    (h' : Follow i' rs' i'') : Follow i (rs ++ rs') i'' := by
  induction rs generalizing i with
  | nil =>
    cases h
    exact h'
  | cons r rs ih => exact ⟨h.1, h.2.1, ih h.2.2⟩

/-- Readings that follow each other get line after line of the stream, and all lines behind those
are left. -/
theorem Follow.lines {i i' : Input} {k : Nat} {rs : List Reading} (h : Follow (i.after k) rs i') :
    i' = i.after (k + rs.length) ∧ ∀ n r, rs[n]? = some r →
      r.unread = i.after (k + n) ∧ r.Gets (i.lineAt (k + n)) (i.after (k + n + 1)) := by
  induction rs generalizing k with
  | nil => exact ⟨h, fun n r hr => nomatch hr⟩
  | cons first rs ih =>
    obtain ⟨hunread, hgets, hrest⟩ := h
    rw [Input.takeLine_after] at hgets hrest
    obtain ⟨hlast, hlines⟩ := ih hrest
    refine ⟨?_, fun n r hr => ?_⟩
    · rw [hlast, List.length_cons, Nat.add_right_comm, Nat.add_assoc]
    · cases n with
      | zero =>
        cases hr
        exact ⟨hunread, hgets⟩
      | succ n =>
        have hn := hlines n r hr
        rwa [Nat.add_right_comm k 1 n] at hn

end Reading

/-! ## Moments -/

namespace Eval

/-- Reading a line for an `input` statement. -/
theorem typedLine_eq (keyword : Token) (m : Machine) :
    (Exec.takeLine >>= typedValue keyword) m = match m.input.takeLine with
      | (.absent, i) => .ok .nil { m with input := i }
      | (.text s, i) => .ok (.ofTyped (withoutLineEnd s)) { m with input := i }
      | (.unreadable, i) => .error (.fault ⟨keyword, .inputUnreadable⟩) { m with input := i } := by
  show EStateM.bind Exec.takeLine (typedValue keyword) m = _
  unfold EStateM.bind Exec.takeLine
  obtain ⟨line, i⟩ := m.input.takeLine
  cases line <;> rfl

/-- What an `input` statement does is up to the line that it reads. -/
theorem input_eq (keyword : Token) (target : Expr) (m : Machine) :
    Eval.input keyword target m =
      m.input.takeLine.1.answer keyword target { m with input := m.input.takeLine.2 } := by
  have hinput : Eval.input keyword target =
      (Exec.takeLine >>= typedValue keyword) >>= assignInput keyword target := by
    rw [bind_assoc]
    rfl
  rw [hinput]
  show EStateM.bind _ (assignInput keyword target) m = _
  unfold EStateM.bind
  rw [typedLine_eq]
  obtain ⟨line, i⟩ := m.input.takeLine
  cases line <;> rfl

/-- The reading of a moment at which a line is read. -/
def Event.reading (ev : Event) : Option Reading :=
  ev.reading?.map fun statement => .statement ev statement.1 statement.2

theorem Event.reading_event? (ev : Event) :
    ev.reading.bind Reading.event? = if ev.reading?.isSome then some ev else none := by
  unfold Event.reading
  cases ev.reading? <;> rfl

variable {P : Token → Prop} {ev : Event}

/-- A statement gets the first line of the input there is. -/
theorem Event.Proper.gets (h : ev.Proper P) {keyword : Token} {target : Expr}
    (hreading : ev.reading? = some (keyword, target)) :
    (Reading.statement ev keyword target).Gets ev.machine.input.takeLine.1
        ev.machine.input.takeLine.2 ∧ ev.after.input = ev.machine.input.takeLine.2 := by
  have hreads := h.reads keyword target hreading
  have hstep : ev.occurrence = .step .nothing (ev.machine.input.takeLine.1.refusal? keyword)
      { ev.machine with input := ev.machine.input.takeLine.2 } := by
    unfold Event.Reads at hreads
    rw [typedLine_eq] at hreads
    generalize ev.machine.input.takeLine = taken at hreads ⊢
    obtain ⟨line, i⟩ := taken
    cases line <;> exact hreads
  refine ⟨⟨hreading, hstep, input_eq keyword target ev.machine⟩, ?_⟩
  unfold Event.after
  rw [hstep]

/-- Where input is used up along moments, the readings among them follow one another. -/
theorem Fed.follow {i i' : Input} {evs : List Event} (h : Fed i evs i')
    (hproper : ∀ ev ∈ evs, ev.Proper P) : Reading.Follow i (evs.filterMap Event.reading) i' := by
  induction evs generalizing i with
  | nil => exact h
  | cons ev evs ih =>
    obtain ⟨rfl, hrest⟩ := h
    obtain ⟨hev, hevs⟩ := List.forall_mem_cons.mp hproper
    have hfollow := ih hrest hevs
    rw [List.filterMap_cons]
    cases hreading : ev.reading? with
    | none =>
      rw [hev.silent hreading] at hfollow
      rw [Event.reading, hreading]
      exact hfollow
    | some statement =>
      obtain ⟨hgets, hafter⟩ := hev.gets hreading
      rw [hafter] at hfollow
      rw [Event.reading, hreading]
      exact ⟨rfl, hgets, hfollow⟩

end Eval

/-! ## Sessions -/

/-- The reading that a deed begins with, if it is one at a prompt. -/
def Deed.reading? (s : Session) : Deed → Option Reading
  | .prompt => some (.prompt s)
  | .take _ | .runLeniently _ _ | .evaluateLeniently _ _ _ => none

namespace Chronicle

/-- All readings while deeds are done, in order. -/
def readings : Deeds → Chronicle → List Reading
  | [], _ => []
  | (fuel, deed) :: deeds, c =>
    let c' := (c.perform fuel deed).2
    let moments := c'.run.history.log.drop c.run.history.log.length
    (deed.reading? c.session).toList ++ moments.filterMap Event.reading ++ readings deeds c'

variable {P : Token → Prop} {c : Chronicle}

theorem listening_log (deed : Deed) :
    (c.listening deed).run.history.log = c.run.history.log := by
  cases deed <;> rfl

/-- The readings of a deed follow one another, and its moments are added to the log. -/
theorem perform_follow (fuel : Nat) (deed : Deed) (h : c.Orderly P)
    (htext : ∀ source ∈ deed.text? c.session, ∀ t ∈ scanTokens source, P t) :
    ∃ evs, (c.perform fuel deed).2.run.history.log = c.run.history.log ++ evs ∧
      Reading.Follow c.run.machine.input
        ((deed.reading? c.session).toList ++ evs.filterMap Event.reading)
        (c.perform fuel deed).2.run.machine.input := by
  have hcontinues := (perform_keeps fuel deed h htext).continues
  obtain ⟨evs, hlog, hfed⟩ := hcontinues.fed
  rw [listening_log] at hlog
  have hproper : ∀ ev ∈ evs, ev.Proper P := fun ev hev =>
    (hcontinues.orderly.log ev (hlog ▸ List.mem_append_right _ hev)).proper
  have hprompt : Reading.Follow c.run.machine.input (deed.reading? c.session).toList
      (c.listening deed).run.machine.input := by
    cases deed with
    | prompt => exact ⟨rfl, ⟨rfl, rfl⟩, rfl⟩
    | _ => rfl
  exact ⟨evs, hlog, hprompt.append (hfed.follow hproper)⟩

/-- The readings of deeds in order follow each other, and they tell of all moments at which a
statement reads. -/
theorem performAll_follow (deeds : Deeds) (h : c.Orderly P)
    (htexts : ∀ source ∈ texts deeds c, ∀ t ∈ scanTokens source, P t) :
    Reading.Follow c.run.machine.input (readings deeds c) (performAll deeds c).run.machine.input ∧
      (performAll deeds c).run.history.log.filter (fun ev => ev.reading?.isSome) =
        c.run.history.log.filter (fun ev => ev.reading?.isSome) ++
          (readings deeds c).filterMap Reading.event? := by
  induction deeds generalizing c with
  | nil => exact ⟨rfl, (List.append_nil _).symm⟩
  | cons d deeds ih =>
    obtain ⟨fuel, deed⟩ := d
    have htext : ∀ source ∈ deed.text? c.session, ∀ t ∈ scanTokens source, P t :=
      fun source hs => htexts source (List.mem_append_left _ (Option.mem_toList.mpr hs))
    obtain ⟨evs, hlog, hfollow⟩ := perform_follow fuel deed h htext
    obtain ⟨hrest, hevents⟩ := ih (perform_later fuel deed h htext).orderly
      fun source hs => htexts source (List.mem_append_right _ hs)
    have hprompt : (deed.reading? c.session).toList.filterMap Reading.event? = [] := by
      cases deed <;> rfl
    have hmoments : (evs.filterMap Event.reading).filterMap Reading.event? =
        evs.filter fun ev => ev.reading?.isSome := by
      rw [List.filterMap_filterMap, ← List.filterMap_eq_filter]
      exact congrArg (List.filterMap · evs) (funext Event.reading_event?)
    unfold readings performAll
    dsimp only
    rw [hlog, List.drop_left]
    refine ⟨hfollow.append hrest, ?_⟩
    rw [hevents, hlog, List.filterMap_append, List.filterMap_append, hprompt, hmoments,
      List.filter_append, List.append_assoc]
    rfl

/-- No line of input is lost, read twice or divided. The lines that make up the stream end where
their line ends are. Reading `k` of a session, at a prompt or by an `input` statement, wherever the
statement stands and whatever became of those before, gets line `k`, passed over even if it is no
text, or nothing if the lines are used up; and the lines behind are left. Prompt and statements get
the same lines in any order of turns if statements read by way of a buffer, in which no byte is left
over. -/
theorem lines_in_order (input : Input) (output : Output) (host : Host) (deeds : Deeds)
    (askers : List Asker) :
    let c := performAll deeds (start input output host)
    let rs := readings deeds (start input output host)
    (Input.lines input.unread).flatten = input.unread ∧
    (∀ k line, (Input.lines input.unread)[k]? = some line → line ≠ [] ∧
      ((∃ text, Input.lineEnd ∉ text ∧ line = text ++ [Input.lineEnd]) ∨
        Input.lineEnd ∉ line ∧ k + 1 = (Input.lines input.unread).length)) ∧
    (∀ k r, rs[k]? = some r → r.unread = input.after k ∧
      r.Gets (input.lineAt k) (input.after (k + 1))) ∧
    c.run.machine.input = input.after rs.length ∧
    rs.filterMap Reading.event? = c.run.history.log.filter (fun ev => ev.reading?.isSome) ∧
    ∃ b : LineBuffer, b.isUsedUp = true ∧ Asker.takeLines askers .empty input =
      ((List.range askers.length).map input.lineAt, b, input.after askers.length) := by
  intro c rs
  -- what errors name does not matter here
  obtain ⟨hfollow, hevents⟩ := performAll_follow (P := fun _ => True) deeds
    (start_orderly _ input output host) fun _ _ _ _ => trivial
  change Reading.Follow input rs c.run.machine.input at hfollow
  rw [← input.after_zero] at hfollow
  obtain ⟨hlast, hlines⟩ := hfollow.lines
  simp only [Nat.zero_add] at hlast hlines
  exact ⟨Input.lines_flatten _, fun k line h => Input.lines_getElem? h, hlines, hlast, hevents.symm,
    Asker.takeLines_eq askers input⟩

end Chronicle

end Lox
