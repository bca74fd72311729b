/-!
# Input and output

Input is a row of bytes read a line at a time; output is a row of bytes that may have an end
beyond which nothing more fits.
-/

namespace Lox

/-- The bytes of input not yet read. -/
structure Input where
  unread : List UInt8

/-- What reading a line gives. -/
inductive Line where
  /-- No input is left. -/
  | absent
  /-- A line with its line end, which the last line may lack. -/
  | text (s : String)
  /-- A line that is no text. -/
  | unreadable
  deriving DecidableEq, Repr

namespace Input

/-- The byte that ends a line. -/
def lineEnd : UInt8 := 10

/-- The bytes up to and with the first line end, and the bytes after it. -/
def splitLine : List UInt8 → List UInt8 × List UInt8
  | [] => ([], [])
  | b :: bs =>
    if b = lineEnd then ([b], bs)
    else
      let (line, rest) := splitLine bs
      (b :: line, rest)

/-- A line and what follows it make up the bytes. -/
theorem splitLine_append (bytes : List UInt8) :
    (splitLine bytes).1 ++ (splitLine bytes).2 = bytes := by
  induction bytes with
  | nil => rfl
  | cons b bs ih =>
    rw [splitLine]
    split
    · rfl
    · exact congrArg (b :: ·) ih

/-- The text that bytes encode, if they encode one. -/
def decode? (bytes : List UInt8) : Option String :=
  String.fromUTF8? (ByteArray.mk bytes.toArray)

/-- Reads a line. A line that is no text is passed over all the same. -/
def takeLine (i : Input) : Line × Input :=
  match i.unread with
  | [] => (.absent, i)
  | unread =>
    let (line, rest) := splitLine unread
    match decode? line with
    | some s => (.text s, ⟨rest⟩)
    | none => (.unreadable, ⟨rest⟩)

end Input

/-- The line without the line ends and carriage returns behind it. -/
def withoutLineEnd (s : String) : String :=
  String.ofList (s.toList.reverse.dropWhile fun c => c = '\n' || c = '\r').reverse

/-- The bytes written so far, and how many fit in all. What does not fit is refused, and the words
of the refusal are `sink full`. -/
structure Output where
  bytes : Array UInt8 := #[]
  limit : Option Nat := none

namespace Output

/-- As many of the bytes as still fit. -/
def fitting (o : Output) (bytes : Array UInt8) : Array UInt8 :=
  match o.limit with
  | none => bytes
  | some limit => bytes.take (limit - o.bytes.size)

/-- Writes bytes as far as they fit, and says whether all did. -/
def writeBytes (o : Output) (bytes : Array UInt8) : Bool × Output :=
  let fit := o.fitting bytes
  (fit.size = bytes.size, { o with bytes := o.bytes ++ fit })

/-- Writing keeps the bytes within the limit. -/
theorem size_writeBytes_le {o : Output} {limit : Nat} (hl : o.limit = some limit)
    (h : o.bytes.size ≤ limit) (bytes : Array UInt8) :
    (o.writeBytes bytes).2.bytes.size ≤ limit := by
  simp only [writeBytes, fitting, hl, Array.size_append, Array.take_eq_extract,
    Array.size_extract]
  omega

/-- Writes a text and a line end as far as they fit, and says whether all did. -/
def writeLine (o : Output) (s : String) : Bool × Output :=
  o.writeBytes (s ++ "\n").toUTF8.data

end Output

end Lox
