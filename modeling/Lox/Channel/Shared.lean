import Lox.Channel

/-!
# Input shared with a prompt

A program that is run at a prompt reads the same input as the prompt. The program reads by way of a
buffer and takes bytes out of it piece by piece. So that nothing gets stuck there that the prompt is
to read, the buffer is filled with no more than a line at a time.
-/

namespace Lox

/-- A line taken from input, and how many bytes of it were used. -/
structure LineBuffer where
  line : List UInt8
  used : Nat
  deriving DecidableEq, Repr

namespace Input

/-- What bytes encode is encoded by them. -/
theorem decode?_some {bytes : List UInt8} {s : String} (h : decode? bytes = some s) :
    s.toUTF8.data.toList = bytes := by
  unfold decode? String.fromUTF8? at h
  split at h
  next =>
    cases h
    rfl
  next => cases h

/-- The bytes that a line takes from input. -/
theorem takeLine_text {i i' : Input} {s : String} (h : i.takeLine = (.text s, i')) :
    s.toUTF8.data.toList ++ i'.unread = i.unread := by
  obtain ⟨_ | ⟨b, bs⟩⟩ := i
  · cases h
  unfold takeLine at h
  dsimp only at h
  split at h
  next t htext =>
    cases h
    rw [decode?_some htext]
    exact splitLine_append (b :: bs)
  next => cases h

end Input

namespace LineBuffer

/-- A buffer with nothing in it. -/
def empty : LineBuffer :=
  ⟨[], 0⟩

/-- The bytes not used. -/
def rest (b : LineBuffer) : List UInt8 :=
  b.line.drop b.used

/-- Was the whole line used? -/
def isUsedUp (b : LineBuffer) : Bool :=
  b.line.length ≤ b.used

/-- The bytes at hand: those of the line not used, else those of the next line. There are none at
the end of input, and the next line may be no text; that line is passed over. -/
def fill (b : LineBuffer) (i : Input) : Option (List UInt8) × LineBuffer × Input :=
  if b.isUsedUp then
    match i.takeLine with
    | (.absent, i) => (some [], ⟨[], 0⟩, i)
    | (.text s, i) => (some s.toUTF8.data.toList, ⟨s.toUTF8.data.toList, 0⟩, i)
    | (.unreadable, i) => (none, b, i)
  else (some b.rest, b, i)

/-- Uses some bytes, as far as they go. -/
def consume (b : LineBuffer) (amount : Nat) : LineBuffer :=
  { b with used := min (b.used + amount) b.line.length }

@[simp] theorem consume_rest (b : LineBuffer) (amount : Nat) :
    (b.consume amount).rest = b.rest.drop amount := by
  unfold rest consume
  rw [List.drop_drop]
  by_cases h : b.used + amount ≤ b.line.length
  · rw [Nat.min_eq_left h]
  · rw [Nat.min_eq_right (Nat.le_of_not_le h), List.drop_length,
      List.drop_of_length_le (Nat.le_of_not_le h)]

/-- Filling makes no bytes up. -/
theorem fill_rest {b b' : LineBuffer} {i i' : Input} {available : List UInt8}
    (h : b.fill i = (some available, b', i')) :
    available = b'.rest ∧ b'.rest ++ i'.unread = b.rest ++ i.unread := by
  unfold fill at h
  split at h
  next hused =>
    have hrest : b.rest = [] := List.drop_of_length_le (of_decide_eq_true hused)
    split at h
    next hline =>
      cases h
      obtain ⟨_ | ⟨c, cs⟩⟩ := i
      · cases hline
        exact ⟨rfl, by rw [hrest]; rfl⟩
      · unfold Input.takeLine at hline
        dsimp only at hline
        split at hline <;> cases hline
    next hline =>
      cases h
      exact ⟨rfl, by rw [hrest]; exact Input.takeLine_text hline⟩
    next => cases h
  next =>
    cases h
    exact ⟨rfl, rfl⟩

/-- The bytes up to and with the next line end, taken from the buffer, which is filled as often as
that takes; to the end of input if there is no line end. -/
def readUntilLineEnd (b : LineBuffer) (i : Input) : Option (List UInt8) × LineBuffer × Input :=
  match _hfill : b.fill i with
  | (none, b, i) => (none, b, i)
  | (some available, b', i') =>
    match available.findIdx? (· == Input.lineEnd) with
    | some place => (some (available.take (place + 1)), b'.consume (place + 1), i')
    | none =>
      if available.isEmpty then (some [], b', i')
      else
        match readUntilLineEnd (b'.consume available.length) i' with
        | (some more, b, i) => (some (available ++ more), b, i)
        | (none, b, i) => (none, b, i)
  termination_by b.rest.length + i.unread.length
  decreasing_by
    rename_i hnonempty
    obtain ⟨havailable, hrest⟩ := fill_rest _hfill
    have hlength := congrArg List.length hrest
    rw [List.length_append, List.length_append] at hlength
    rw [consume_rest, havailable, List.drop_length, ← hlength, ← havailable, List.length_nil,
      Nat.zero_add]
    have hpos : 0 < available.length :=
      List.length_pos_iff.mpr fun hnil => hnonempty (List.isEmpty_iff.mpr hnil)
    exact Nat.lt_add_of_pos_left hpos

/-- Reads a line by way of the buffer. -/
def takeLine (b : LineBuffer) (i : Input) : Line × LineBuffer × Input :=
  match b.readUntilLineEnd i with
  | (none, b, i) => (.unreadable, b, i)
  | (some [], b, i) => (.absent, b, i)
  | (some bytes, b, i) =>
    match Input.decode? bytes with
    | some s => (.text s, b, i)
    | none => (.unreadable, b, i)

end LineBuffer

/-! ## Taking turns -/

/-- Who reads a line. -/
inductive Asker where
  /-- The prompt reads past the buffer. -/
  | prompt
  /-- An `input` statement reads by way of the buffer. -/
  | statement
  deriving DecidableEq, Repr

/-- Reads a line of shared input. -/
def Asker.takeLine (b : LineBuffer) (i : Input) : Asker → Line × LineBuffer × Input
  | .prompt =>
    let (line, i) := i.takeLine
    (line, b, i)
  | .statement => b.takeLine i

/-- Reads a line for each asker. -/
def Asker.takeLines : List Asker → LineBuffer → Input → List Line × LineBuffer × Input
  | [], b, i => ([], b, i)
  | asker :: askers, b, i =>
    let (line, b, i) := asker.takeLine b i
    let (lines, b, i) := takeLines askers b i
    (line :: lines, b, i)

end Lox
