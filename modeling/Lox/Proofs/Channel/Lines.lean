import Lox.Channel.Shared

/-!
# Lines of a stream

A stream of bytes is cut into lines behind each line end (`Input.lines`). Reading takes the first of
them, whether or not it is a text, and leaves the rest as it is. Reading by way of a buffer does the
same, and never leaves a byte in it; so a prompt and a program that share the stream get line after
line of it, in whatever order they ask (`Asker.takeLines_eq`).
-/

namespace Lox

namespace Input

/-! ## Cutting a stream into lines -/

/-- Bytes cut behind each line end. The last line may lack one. -/
def lines : List UInt8 → List (List UInt8)
  | [] => []
  | b :: bs =>
    if b = lineEnd then [b] :: lines bs
    else
      match lines bs with
      | [] => [[b]]
      | line :: rest => (b :: line) :: rest

/-- The stream after its first `k` lines. -/
def after (i : Input) (k : Nat) : Input :=
  ⟨((lines i.unread).drop k).flatten⟩

/-- What line `k` of the stream, counted from zero, is to a reader. -/
def lineAt (i : Input) (k : Nat) : Line :=
  match (lines i.unread)[k]? with
  | none => .absent
  | some bytes =>
    match decode? bytes with
    | some s => .text s
    | none => .unreadable

/-- The lines make up the stream: none is lost and none is there twice. -/
theorem lines_flatten (bytes : List UInt8) : (lines bytes).flatten = bytes := by
  induction bytes with
  | nil => rfl
  | cons b bs ih =>
    unfold lines
    split
    next => exact congrArg (b :: ·) ih
    next =>
      cases hlines : lines bs with
      | nil =>
        rw [hlines] at ih
        exact congrArg (b :: ·) ih
      | cons line rest =>
        rw [hlines] at ih
        exact congrArg (b :: ·) ih

/-- The first line, and those of what follows it. -/
theorem lines_splitLine {bytes : List UInt8} (h : bytes ≠ []) :
    lines bytes = (splitLine bytes).1 :: lines (splitLine bytes).2 := by
  induction bytes with
  | nil => exact absurd rfl h
  | cons b bs ih =>
    rw [lines, splitLine]
    split
    next => rfl
    next =>
      cases bs with
      | nil => rfl
      | cons c cs => rw [ih (List.cons_ne_nil c cs)]

/-- The first line has its line end behind it, or it has none and nothing follows. -/
theorem splitLine_ends (bytes : List UInt8) :
    (∃ text, lineEnd ∉ text ∧ (splitLine bytes).1 = text ++ [lineEnd]) ∨
      lineEnd ∉ (splitLine bytes).1 ∧ (splitLine bytes).2 = [] := by
  induction bytes with
  | nil => exact .inr ⟨List.not_mem_nil, rfl⟩
  | cons b bs ih =>
    unfold splitLine
    split
    next hb => exact .inl ⟨[], List.not_mem_nil, congrArg ([·]) hb⟩
    next hb =>
      have hcons : ∀ {text : List UInt8}, lineEnd ∉ text → lineEnd ∉ b :: text :=
        fun htext hmem => (List.mem_cons.mp hmem).elim (fun he => hb he.symm) htext
      rcases ih with ⟨text, htext, hline⟩ | ⟨hline, hrest⟩
      · exact .inl ⟨b :: text, hcons htext, congrArg (b :: ·) hline⟩
      · exact .inr ⟨hcons hline, hrest⟩

/-- Lines are not empty. Each has its line end at its end and nowhere else; only the last one may
lack it. -/
theorem lines_getElem? {bytes : List UInt8} {k : Nat} {line : List UInt8}
    (h : (lines bytes)[k]? = some line) :
    line ≠ [] ∧ ((∃ text, lineEnd ∉ text ∧ line = text ++ [lineEnd]) ∨
      lineEnd ∉ line ∧ k + 1 = (lines bytes).length) := by
  induction k generalizing bytes with
  | zero =>
    cases bytes with
    | nil => cases h
    | cons b bs =>
      rw [lines_splitLine (List.cons_ne_nil b bs)] at h ⊢
      cases h
      refine ⟨?_, (splitLine_ends (b :: bs)).imp_right fun hlast => ⟨hlast.1, ?_⟩⟩
      · unfold splitLine
        split <;> exact List.cons_ne_nil _ _
      · rw [hlast.2]
        rfl
  | succ k ih =>
    cases bytes with
    | nil => cases h
    | cons b bs =>
      rw [lines_splitLine (List.cons_ne_nil b bs)] at h ⊢
      obtain ⟨hne, hends⟩ := ih h
      exact ⟨hne, hends.imp_right fun hlast => ⟨hlast.1, congrArg (· + 1) hlast.2⟩⟩

/-- The lines behind some lines are cut as before. -/
theorem lines_drop (bytes : List UInt8) (k : Nat) :
    lines ((lines bytes).drop k).flatten = (lines bytes).drop k := by
  induction k generalizing bytes with
  | zero => exact congrArg lines (lines_flatten bytes)
  | succ k ih =>
    cases bytes with
    | nil => rfl
    | cons b bs =>
      rw [lines_splitLine (List.cons_ne_nil b bs), List.drop_succ_cons]
      exact ih _

/-! ## Reading line after line -/

theorem after_zero (i : Input) : i.after 0 = i :=
  congrArg Input.mk (lines_flatten i.unread)

/-- Reading gives the first line and leaves the others. -/
theorem takeLine_eq (i : Input) : i.takeLine = (i.lineAt 0, i.after 1) := by
  obtain ⟨_ | ⟨b, bs⟩⟩ := i
  · rfl
  have hlines := lines_splitLine (List.cons_ne_nil b bs)
  -- bs)).2 :: what is left behind the first line is the lines from the second on
  have hrest := lines_flatten (splitLine (b :: bs)).2
  unfold takeLine lineAt after
  dsimp only
  rw [hlines, List.drop_succ_cons, List.drop_zero, hrest, List.getElem?_cons_zero]
  dsimp only
  cases decode? (splitLine (b :: bs)).1 <;> rfl

theorem lineAt_after (i : Input) (k : Nat) : (i.after k).lineAt 0 = i.lineAt k := by
  unfold lineAt after
  rw [lines_drop, List.getElem?_drop, Nat.add_zero]

theorem after_after (i : Input) (k : Nat) : (i.after k).after 1 = i.after (k + 1) := by
  unfold after
  rw [lines_drop, List.drop_drop]

/-- After `k` lines, reading gives line `k`. -/
theorem takeLine_after (i : Input) (k : Nat) :
    (i.after k).takeLine = (i.lineAt k, i.after (k + 1)) := by
  rw [takeLine_eq, lineAt_after, after_after]

end Input

/-! ## Reading by way of a buffer -/

namespace LineBuffer

variable {b : LineBuffer}

theorem isUsedUp_consume {line : List UInt8} :
    ((⟨line, 0⟩ : LineBuffer).consume line.length).isUsedUp = true := by
  simp [consume, isUsedUp]

/-- At the end of input there are no bytes. -/
theorem readUntilLineEnd_absent {i : Input} (hb : b.isUsedUp = true)
    (hline : i.takeLine = (.absent, i)) :
    b.readUntilLineEnd i = (some [], empty, i) := by
  have hfill : b.fill i = (some [], empty, i) := by
    rw [fill, if_pos hb, hline]
    rfl
  rw [readUntilLineEnd, hfill]
  rfl

/-- A line is taken as a whole, and with it all that is in the buffer. -/
theorem readUntilLineEnd_text {i i' : Input} {s : String} {bytes : List UInt8}
    (hb : b.isUsedUp = true) (hline : i.takeLine = (.text s, i'))
    (hbytes : s.toUTF8.data.toList = bytes) (hne : bytes ≠ [])
    (hends : (∃ text, Input.lineEnd ∉ text ∧ bytes = text ++ [Input.lineEnd]) ∨
      Input.lineEnd ∉ bytes ∧ i'.unread = []) :
    ∃ b' : LineBuffer, b'.isUsedUp = true ∧ b.readUntilLineEnd i = (some bytes, b', i') := by
  have hfill : b.fill i = (some bytes, ⟨bytes, 0⟩, i') := by
    rw [fill, if_pos hb, hline]
    dsimp only
    rw [hbytes]
  rw [readUntilLineEnd, hfill]
  dsimp only
  rcases hends with ⟨text, htext, rfl⟩ | ⟨hnone, hlast⟩
  · have hfind : (text ++ [Input.lineEnd]).findIdx? (· == Input.lineEnd) = some text.length := by
      have hnot : text.findIdx? (· == Input.lineEnd) = none :=
        List.findIdx?_eq_none_iff.mpr fun c hc => beq_eq_false_iff_ne.mpr fun he => htext (he ▸ hc)
      rw [List.findIdx?_append, hnot]
      simp
    have hlength : text.length + 1 = (text ++ [Input.lineEnd]).length := by
      rw [List.length_append, List.length_singleton]
    rw [hfind]
    dsimp only
    rw [hlength, List.take_length]
    exact ⟨_, isUsedUp_consume, rfl⟩
  · have hfind : bytes.findIdx? (· == Input.lineEnd) = none :=
      List.findIdx?_eq_none_iff.mpr fun c hc => beq_eq_false_iff_ne.mpr fun he => hnone (he ▸ hc)
    -- the buffer is filled once more, and finds the end of input
    obtain ⟨_⟩ := i'
    cases hlast
    have hempty : bytes.isEmpty = false :=
      Bool.eq_false_iff.mpr fun h => hne (List.isEmpty_iff.mp h)
    rw [hfind]
    dsimp only
    rw [hempty, readUntilLineEnd_absent isUsedUp_consume rfl]
    refine ⟨empty, rfl, ?_⟩
    show (some (bytes ++ []), empty, (⟨[]⟩ : Input)) = _
    rw [List.append_nil]

/-- At a line that is no text reading stops, behind the line. -/
theorem readUntilLineEnd_unreadable {i i' : Input} (hb : b.isUsedUp = true)
    (hline : i.takeLine = (.unreadable, i')) : b.readUntilLineEnd i = (none, b, i') := by
  have hfill : b.fill i = (none, b, i') := by
    rw [fill, if_pos hb, hline]
  rw [readUntilLineEnd, hfill]

/-- Reading by way of a buffer that is used up is reading, and the buffer is used up again. -/
theorem takeLine_eq (hb : b.isUsedUp = true) (i : Input) :
    ∃ b' : LineBuffer, b'.isUsedUp = true ∧ b.takeLine i = (i.takeLine.1, b', i.takeLine.2) := by
  obtain ⟨_ | ⟨c, cs⟩⟩ := i
  · refine ⟨empty, rfl, ?_⟩
    rw [takeLine, readUntilLineEnd_absent hb rfl]
    rfl
  have hends := Input.splitLine_ends (c :: cs)
  have hfirst : (Input.lines (c :: cs))[0]? = some (Input.splitLine (c :: cs)).1 := by
    rw [Input.lines_splitLine (List.cons_ne_nil c cs)]
    rfl
  have hne := (Input.lines_getElem? hfirst).1
  have htake : Input.takeLine ⟨c :: cs⟩ = match Input.decode? (Input.splitLine (c :: cs)).1 with
      | some s => (.text s, ⟨(Input.splitLine (c :: cs)).2⟩)
      | none => (.unreadable, ⟨(Input.splitLine (c :: cs)).2⟩) := rfl
  unfold takeLine
  cases hdecode : Input.decode? (Input.splitLine (c :: cs)).1 with
  | none =>
    rw [hdecode] at htake
    rw [readUntilLineEnd_unreadable hb htake, htake]
    exact ⟨b, hb, rfl⟩
  | some s =>
    rw [hdecode] at htake
    obtain ⟨b', hb', hread⟩ :=
      readUntilLineEnd_text hb htake (Input.decode?_some hdecode) hne hends
    refine ⟨b', hb', ?_⟩
    rw [hread, htake]
    generalize (Input.splitLine (c :: cs)).1 = line at hne hdecode ⊢
    cases line with
    | nil => exact absurd rfl hne
    | cons d ds =>
      dsimp only
      rw [hdecode]

end LineBuffer

/-! ## Taking turns -/

namespace Asker

/-- Askers get line after line, whoever they are, and the buffer holds no bytes before, between and
after their turns. -/
theorem takeLines_after (askers : List Asker) {b : LineBuffer} (hb : b.isUsedUp = true)
    (i : Input) (k : Nat) : ∃ b' : LineBuffer, b'.isUsedUp = true ∧
      takeLines askers b (i.after k) =
        ((List.range' k askers.length).map i.lineAt, b', i.after (k + askers.length)) := by
  induction askers generalizing b k with
  | nil => exact ⟨b, hb, rfl⟩
  | cons asker askers ih =>
    have hturn : ∃ b₁ : LineBuffer, b₁.isUsedUp = true ∧
        asker.takeLine b (i.after k) = (i.lineAt k, b₁, i.after (k + 1)) := by
      cases asker with
      | prompt =>
        refine ⟨b, hb, ?_⟩
        rw [takeLine, Input.takeLine_after]
      | statement =>
        obtain ⟨b₁, hb₁, hread⟩ := LineBuffer.takeLine_eq hb (i.after k)
        rw [Input.takeLine_after] at hread
        exact ⟨b₁, hb₁, hread⟩
    obtain ⟨b₁, hb₁, hturn⟩ := hturn
    obtain ⟨b', hb', hrest⟩ := ih hb₁ (k + 1)
    refine ⟨b', hb', ?_⟩
    rw [takeLines, hturn]
    dsimp only
    rw [hrest, List.length_cons, List.range'_succ, List.map_cons, Nat.add_right_comm, Nat.add_assoc]

theorem takeLines_eq (askers : List Asker) (i : Input) : ∃ b : LineBuffer, b.isUsedUp = true ∧
    takeLines askers .empty i =
      ((List.range askers.length).map i.lineAt, b, i.after askers.length) := by
  obtain ⟨b, hb, hlines⟩ := takeLines_after askers (b := .empty) rfl i 0
  rw [Input.after_zero, Nat.zero_add, ← List.range_eq_range'] at hlines
  exact ⟨b, hb, hlines⟩

end Asker

end Lox
