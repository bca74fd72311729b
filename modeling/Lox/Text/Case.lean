import Lox.Text.Case.Table

/-!
# Changing case

Changing the case of text, for every script. A letter may become several characters, and a
capital sigma at the end of a word becomes the small sigma that ends words.
-/

namespace Lox.Text.Case

/-- The code point that the first run covering `n` gives for it. -/
def Run.apply? (runs : List Run) (n : Nat) : Option Nat :=
  runs.findSome? fun r =>
    if r.first ≤ n ∧ n ≤ r.last ∧ (n - r.first) % r.step = 0 then
      some (Int.toNat (n + r.offset))
    else none

/-- The character's image under a table of runs and spellings; itself if neither lists it. -/
def image (runs : List Run) (spelled : List (Nat × List Nat)) (c : Char) : List Char :=
  match spelled.lookup c.toNat with
  | some codes => codes.map Char.ofNat
  | none =>
    match Run.apply? runs c.toNat with
    | some code => [Char.ofNat code]
    | none => [c]

/-- The character in small letters, with no regard to its neighbours. -/
def small (c : Char) : List Char :=
  image smallRuns smallSpelled c

/-- The character in capital letters. -/
def capital (c : Char) : List Char :=
  image capitalRuns capitalSpelled c

/-- Is the nearest character that is not passed over one that has case? -/
def reachesCased (cs : List Char) : Bool :=
  match cs.dropWhile passedOverRanges.holds with
  | c :: _ => casedRanges.holds c
  | [] => false

/-- The capital sigma. -/
def capitalSigma : Char := 'Σ'

/-- The small form of a capital sigma between `before`, nearest first, and `after`: the final one
if a cased letter comes before it and none after it. -/
def sigma (before after : List Char) : Char :=
  if reachesCased before && !reachesCased after then 'ς' else 'σ'

/-- Text in small letters; `before` is what was read already, nearest first. -/
def lowerFrom (before : List Char) : List Char → List Char
  | [] => []
  | c :: cs =>
    (if c = capitalSigma then [sigma before cs] else small c) ++ lowerFrom (c :: before) cs

end Lox.Text.Case

namespace Lox.Text

/-- The text in small letters. -/
def lowercase (s : String) : String :=
  String.ofList (Case.lowerFrom [] s.toList)

/-- The text in capital letters. -/
def uppercase (s : String) : String :=
  String.ofList (s.toList.flatMap Case.capital)

end Lox.Text
