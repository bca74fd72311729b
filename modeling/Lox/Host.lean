/-!
# The world outside

What a program learns from outside other than by reading input: the time, and random numbers. The
answers are given beforehand, one stream each, so a run is determined by them.
-/

namespace Lox

/-- The answers to come: the n-th reading of the clock in seconds, and the n-th random number, from
zero up to one. -/
structure Host where
  clock : Nat → Float
  random : Nat → Float
  /-- Readings of the clock made so far. -/
  readings : Nat := 0
  /-- Random numbers drawn so far. -/
  draws : Nat := 0

namespace Host

/-- Reads the clock. -/
def readClock (h : Host) : Float × Host :=
  (h.clock h.readings, { h with readings := h.readings + 1 })

/-- Draws a random number. -/
def draw (h : Host) : Float × Host :=
  (h.random h.draws, { h with draws := h.draws + 1 })

/-- What the whole numbers of the generator lie below. -/
def bound : Nat := 2147483648

/-- One step of a generator of whole numbers below `bound`. -/
def scramble (n : Nat) : Nat :=
  (1103515245 * n + 12345) % bound

/-- A world whose clock starts at `start` and gains a millisecond with every reading, with random
numbers scrambled from `seed`. -/
def steady (start : Float) (seed : Nat) : Host :=
  { clock := fun n => start + n.toFloat / 1000
    random := fun n => (scramble (scramble (seed + 7919 * n))).toFloat / bound.toFloat }

end Host

end Lox
