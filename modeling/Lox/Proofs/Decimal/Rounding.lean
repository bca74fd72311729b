import Mathlib.Algebra.Order.Field.Power
import Mathlib.Data.Rat.Cast.Order
import Mathlib.Tactic.Linarith
import Mathlib.Tactic.Positivity
import Mathlib.Tactic.Ring
import Lox.Decimal.Shortest

/-!
# Which numbers round to a double

`RoundsTo q m e` says that the double `m * 2 ^ e` is the one nearest to the number `q`, an even
mantissa taking the ties. No number rounds to two doubles (`RoundsTo.unique`). The grid test of the
search for a shortest decimal is this relation (`Grid.reaches_iff`), and the search never comes back
empty: seventeen digits suffice (`Digits.shortest_roundsTo`).
-/

namespace Lox.Decimal

variable {m m' : Nat} {e e' : Int} {q : ℚ}

/-! ## Mantissas and exponents -/

/-- The mantissa and the exponent are those that the bits of a double spell: a mantissa has no more
than 53 bits, and fewer only under the least exponent. -/
structure Regular (m : Nat) (e : Int) : Prop where
  mantissa_lt : m < 2 ^ 53
  least : -1074 ≤ e
  normal : e ≠ -1074 → 2 ^ 52 ≤ m

theorem Parts.ofBits_regular {bits : Nat} {negative : Bool}
    (h : Parts.ofBits bits = .finite negative m e) : Regular m e := by
  have hfraction : bits % 2 ^ 52 < 2 ^ 52 := Nat.mod_lt _ (by decide)
  simp only [Parts.ofBits, Nat.pow_eq] at h
  split at h
  · split at h <;> cases h
  · split at h
    · cases h
      exact ⟨by omega, by omega, fun hne => absurd rfl hne⟩
    · cases h
      exact ⟨by omega, by omega, fun _ => by omega⟩

/-- The parts of a finite double say what its bits are. -/
theorem Parts.ofBits_inj {bits bits' : Nat} {negative : Bool} (hbits : bits < 2 ^ 64)
    (hbits' : bits' < 2 ^ 64) (h : Parts.ofBits bits = .finite negative m e)
    (h' : Parts.ofBits bits' = .finite negative m e) : bits = bits' := by
  have hsign : decide (bits / 2 ^ 63 % 2 = 1) = decide (bits' / 2 ^ 63 % 2 = 1) ∧
      bits / 2 ^ 52 % 2 ^ 11 = bits' / 2 ^ 52 % 2 ^ 11 ∧ bits % 2 ^ 52 = bits' % 2 ^ 52 := by
    simp only [Parts.ofBits, Nat.pow_eq] at h h'
    split at h
    · split at h <;> cases h
    split at h'
    · split at h' <;> cases h'
    split at h <;> split at h' <;> cases h <;> injection h' with hn hm he <;>
      refine ⟨hn.symm, ?_, ?_⟩ <;> omega
  obtain ⟨hsign, hbiased, hfraction⟩ := hsign
  rw [decide_eq_decide] at hsign
  omega

theorem Parts.ofFloat_inj {x y : Float} {negative : Bool}
    (hx : Parts.ofFloat x = .finite negative m e) (hy : Parts.ofFloat y = .finite negative m e) :
    x = y := by
  have hbits := Parts.ofBits_inj x.toBits.toNat_lt y.toBits.toNat_lt hx hy
  obtain ⟨⟨bits, hvalid⟩⟩ := x
  obtain ⟨⟨bits', hvalid'⟩⟩ := y
  have hsame : bits = bits' := UInt64.toNat_inj.mp hbits
  subst hsame
  rfl

/-- A double that is neither infinite nor a NaN has a mantissa and an exponent. -/
theorem Parts.ofFloat_finite {x : Float} (h : x.isFinite = true) :
    ∃ negative m e, Parts.ofFloat x = .finite negative m e := by
  have hbiased : x.toBits.toNat / 2 ^ 52 % 2 ^ 11 ≠ 2047 := by
    intro heq
    have hall : @Float.Model.UnpackedFloat.unpackExponent .binary64 x.toModel.toBits.toBitVec =
        -1#11 := by
      refine BitVec.eq_of_toNat_eq ?_
      show (x.toBits.toNat >>> 52) % 2 ^ 11 = 2047
      rw [Nat.shiftRight_eq_div_pow, heq]
    unfold Float.isFinite Float.Model.isFinite Float.Model.unpack
      Float.Model.UnpackedFloat.unpack at h
    rw [if_pos hall] at h
    split at h <;> cases h
  simp only [Parts.ofFloat, Parts.ofBits, Nat.pow_eq]
  rw [if_neg hbiased]
  split <;> exact ⟨_, _, _, rfl⟩

/-! ## Rounding to nearest -/

/-- How far below a double the numbers that round to it begin, in quarters of its unit. Below a
power of two the doubles are twice as close. -/
def gapBelow (m : Nat) (e : Int) : Nat :=
  if m = 2 ^ 52 ∧ e ≠ -1074 then 1 else 2

/-- The double `m * 2 ^ e` is the one nearest to the number. Exactly between two doubles, the one
with an even mantissa is. -/
def RoundsTo (q : ℚ) (m : Nat) (e : Int) : Prop :=
  if m % 2 = 0 then
    (4 * m - gapBelow m e : ℚ) * 2 ^ (e - 2) ≤ q ∧ q ≤ (4 * m + 2 : ℚ) * 2 ^ (e - 2)
  else
    (4 * m - gapBelow m e : ℚ) * 2 ^ (e - 2) < q ∧ q < (4 * m + 2 : ℚ) * 2 ^ (e - 2)

theorem gapBelow_pos (m : Nat) (e : Int) : 1 ≤ gapBelow m e := by
  unfold gapBelow
  split <;> decide

theorem gapBelow_le (m : Nat) (e : Int) : gapBelow m e ≤ 2 := by
  unfold gapBelow
  split <;> decide

namespace RoundsTo

theorem le (h : RoundsTo q m e) :
    (4 * m - gapBelow m e : ℚ) * 2 ^ (e - 2) ≤ q ∧ q ≤ (4 * m + 2 : ℚ) * 2 ^ (e - 2) := by
  unfold RoundsTo at h
  split at h
  · exact h
  · exact ⟨h.1.le, h.2.le⟩

theorem lt (h : RoundsTo q m e) (hodd : m % 2 = 1) :
    (4 * m - gapBelow m e : ℚ) * 2 ^ (e - 2) < q ∧ q < (4 * m + 2 : ℚ) * 2 ^ (e - 2) := by
  unfold RoundsTo at h
  rwa [if_neg (by omega)] at h

/-- What lies strictly inside rounds whatever the mantissa. -/
theorem of_lt (hlow : (4 * m - gapBelow m e : ℚ) * 2 ^ (e - 2) < q)
    (hhigh : q < (4 * m + 2 : ℚ) * 2 ^ (e - 2)) : RoundsTo q m e := by
  unfold RoundsTo
  split
  · exact ⟨hlow.le, hhigh.le⟩
  · exact ⟨hlow, hhigh⟩

/-- A double rounds to itself. -/
theorem self (m : Nat) (e : Int) : RoundsTo (m * 2 ^ e) m e := by
  have hunit : (0 : ℚ) < 2 ^ (e - 2) := by positivity
  have hvalue : (m : ℚ) * 2 ^ e = 4 * m * 2 ^ (e - 2) := by
    rw [zpow_sub₀ two_ne_zero]
    ring
  have hgap : (1 : ℚ) ≤ gapBelow m e := by exact_mod_cast gapBelow_pos m e
  rw [hvalue]
  exact of_lt (by nlinarith) (by nlinarith)

/-- Of two doubles with the same exponent that a number rounds to, neither is the smaller. -/
theorem mantissa_le (h : RoundsTo q m e) (h' : RoundsTo q m' e) : m ≤ m' := by
  have hunit : (0 : ℚ) < 2 ^ (e - 2) := by positivity
  have hgap : (gapBelow m e : ℚ) ≤ 2 := by exact_mod_cast gapBelow_le m e
  by_contra hlt
  rw [not_le] at hlt
  have hends := (mul_le_mul_iff_of_pos_right hunit).mp (h.le.1.trans h'.le.2)
  have hnext : m = m' + 1 := by
    have : (4 * m : ℚ) ≤ 4 * m' + 4 := by linarith
    have : 4 * m ≤ 4 * m' + 4 := by exact_mod_cast this
    omega
  -- the intervals of neighbours have one end in common, which only the even one of them contains
  have hstrict : (4 * m - gapBelow m e : ℚ) < 4 * m' + 2 := by
    refine (mul_lt_mul_iff_of_pos_right hunit).mp ?_
    rcases Nat.mod_two_eq_zero_or_one m with heven | hodd
    · exact h.le.1.trans_lt (h'.lt (by omega)).2
    · exact (h.lt hodd).1.trans_le h'.le.2
  have hcast : (m : ℚ) = m' + 1 := by exact_mod_cast hnext
  linarith

/-- A number does not round to two doubles of different exponents. -/
theorem exponent_not_lt (h : RoundsTo q m e) (h' : RoundsTo q m' e') (hm : Regular m e)
    (hm' : Regular m' e') : ¬e < e' := by
  intro hlt
  have hleast := hm.least
  have hunit : (0 : ℚ) < 2 ^ (e - 2) := by positivity
  -- the gap between doubles is at least twice as wide at the larger exponent
  obtain ⟨scale, hscale, htwo⟩ :
      ∃ scale : ℚ, (2 : ℚ) ^ (e' - 2) = scale * 2 ^ (e - 2) ∧ 2 ≤ scale := by
    refine ⟨2 ^ (e' - e), ?_, ?_⟩
    · rw [← zpow_add₀ two_ne_zero]
      congr 1
      ring
    · calc (2 : ℚ) = 2 ^ (1 : ℤ) := (zpow_one 2).symm
        _ ≤ 2 ^ (e' - e) := zpow_le_zpow_right₀ one_le_two (by omega)
  have hlow := h'.le.1
  rw [hscale, ← mul_assoc] at hlow
  have hends := (mul_le_mul_iff_of_pos_right hunit).mp (hlow.trans h.le.2)
  have hgap : (gapBelow m' e' : ℚ) ≤ 2 := by exact_mod_cast gapBelow_le m' e'
  have hbound : (m : ℚ) + 1 ≤ 2 ^ 53 := by exact_mod_cast hm.mantissa_lt
  -- the mantissa of the larger double is above `2 ^ 52`, or is just that, with half the gap below
  rcases Nat.lt_or_eq_of_le (hm'.normal (by omega)) with hmore | hpower
  · have hmore : (2 ^ 52 + 1 : ℚ) ≤ m' := by exact_mod_cast hmore
    nlinarith
  · -- right below a power of two lies a double with an odd mantissa
    have hgap : gapBelow m' e' = 1 := if_pos ⟨hpower.symm, by omega⟩
    have hm' : (m' : ℚ) = 2 ^ 52 := by exact_mod_cast hpower.symm
    rw [hgap, hm', Nat.cast_one] at hends
    have hlast : m + 1 = 2 ^ 53 := by
      have : (2 ^ 53 : ℚ) ≤ m + 1 := by linarith
      have : 2 ^ 53 ≤ m + 1 := by exact_mod_cast this
      exact Nat.le_antisymm hm.mantissa_lt this
    have hstrict := hlow.trans_lt (h.lt (by omega)).2
    rw [mul_lt_mul_iff_of_pos_right hunit, hgap, hm', Nat.cast_one] at hstrict
    have hcast : (m : ℚ) + 1 = 2 ^ 53 := by exact_mod_cast hlast
    linarith

/-- No number rounds to two doubles. -/
theorem unique (h : RoundsTo q m e) (h' : RoundsTo q m' e') (hm : Regular m e)
    (hm' : Regular m' e') : m = m' ∧ e = e' := by
  obtain rfl : e = e' := le_antisymm (not_lt.mp (exponent_not_lt h' h hm' hm))
    (not_lt.mp (exponent_not_lt h h' hm hm'))
  exact ⟨Nat.le_antisymm (mantissa_le h h') (mantissa_le h' h), rfl⟩

end RoundsTo

/-! ## The search for the shortest decimal -/

/-- The number that digits stand for. -/
def Digits.value (d : Digits) : ℚ :=
  d.coefficient * 10 ^ d.exponent

theorem Digits.trim_value (fuel : Nat) (d : Digits) : (d.trim fuel).value = d.value := by
  induction fuel generalizing d with
  | zero => rfl
  | succ fuel ih =>
    unfold Digits.trim
    split
    · next h =>
      have hten : (10 * (d.coefficient / 10 : Nat) : ℚ) = d.coefficient := by
        exact_mod_cast Nat.mul_div_cancel' (Nat.dvd_of_mod_eq_zero h.2)
      rw [ih, Digits.value, Digits.value, zpow_add₀ (by norm_num), zpow_one, ← hten]
      ring
    · rfl

theorem zpow_toNat {b : ℚ} (hb : b ≠ 0) (n : Int) : b ^ n.toNat = b ^ n * b ^ (-n).toNat := by
  rw [← zpow_natCast, ← zpow_natCast, ← zpow_add₀ hb]
  congr 1
  omega

/-- A grid measures the double and its own points in one unit. -/
theorem Grid.of_unit (e power : Int) : ∃ unit : ℚ, 0 < unit ∧
    ((Grid.of e power).scale : ℚ) = 2 ^ (e - 2) * unit ∧
    ((Grid.of e power).cell : ℚ) = 10 ^ power * unit := by
  have hten : (10 : ℚ) ≠ 0 := by norm_num
  refine ⟨2 ^ (2 - e).toNat * 10 ^ (-power).toNat, by positivity, ?_, ?_⟩ <;>
    simp only [Grid.of, Nat.pow_eq, Nat.cast_mul, Nat.cast_pow, Nat.cast_ofNat]
  · rw [zpow_toNat two_ne_zero, neg_sub, mul_assoc]
  · rw [zpow_toNat hten power, mul_left_comm]

/-- The test of the grid asks whether its point rounds to the double. -/
theorem Grid.reaches_iff {power : Int} {k : Nat} (hm : 0 < m) :
    (Grid.of e power).reaches m e k = true ↔ RoundsTo (k * 10 ^ power) m e := by
  obtain ⟨unit, hunit, hscale, hcell⟩ := Grid.of_unit e power
  have hgap : gapBelow m e ≤ 4 * m := (gapBelow_le m e).trans (by omega)
  have hlow : (((4 * m - gapBelow m e) * (Grid.of e power).scale : Nat) : ℚ) =
      (4 * m - gapBelow m e) * 2 ^ (e - 2) * unit := by
    rw [Nat.cast_mul, Nat.cast_sub hgap, hscale, mul_assoc, Nat.cast_mul, Nat.cast_ofNat]
  have hhigh : (((4 * m + 2) * (Grid.of e power).scale : Nat) : ℚ) =
      (4 * m + 2) * 2 ^ (e - 2) * unit := by
    rw [Nat.cast_mul, hscale, mul_assoc, Nat.cast_add, Nat.cast_mul, Nat.cast_ofNat,
      Nat.cast_ofNat]
  have hpoint : ((k * (Grid.of e power).cell : Nat) : ℚ) = k * 10 ^ power * unit := by
    rw [Nat.cast_mul, hcell, mul_assoc]
  -- the ends of the interval and the point are natural multiples of one unit, and so are compared
  have hle {a b : Nat} {x y : ℚ} (ha : (a : ℚ) = x * unit) (hb : (b : ℚ) = y * unit) :
      a ≤ b ↔ x ≤ y := by
    rw [← Nat.cast_le (α := ℚ), ha, hb, mul_le_mul_iff_of_pos_right hunit]
  have hlt {a b : Nat} {x y : ℚ} (ha : (a : ℚ) = x * unit) (hb : (b : ℚ) = y * unit) :
      a < b ↔ x < y := by
    rw [← Nat.cast_lt (α := ℚ), ha, hb, mul_lt_mul_iff_of_pos_right hunit]
  unfold Grid.reaches RoundsTo
  rw [Nat.pow_eq]
  change (if m % 2 = 0 then _ else _) = true ↔ _
  split
  · rw [Bool.and_eq_true, decide_eq_true_eq, decide_eq_true_eq]
    exact and_congr (hle hlow hpoint) (hle hpoint hhigh)
  · rw [Bool.and_eq_true, decide_eq_true_eq, decide_eq_true_eq]
    exact and_congr (hlt hlow hpoint) (hlt hpoint hhigh)

/-- What is chosen from a grid reaches the double. -/
theorem Grid.reaches_of_choose? {g : Grid} {tie : Tie} {k : Nat}
    (h : g.choose? tie m e = some k) : g.reaches m e k = true := by
  unfold Grid.choose? at h
  dsimp only at h
  split at h
  · cases h
  · next hlower _ => cases h; exact hlower
  · next _ hupper => cases h; exact hupper
  · next hlower hupper =>
    split at h
    · cases h; exact hlower
    · split at h
      · cases h; exact hupper
      · cases tie
        · cases h; exact hupper
        · dsimp only at h
          split at h <;> cases h
          · exact hlower
          · exact hupper

/-- Nothing is chosen only where neither neighbour of the double reaches it. -/
theorem Grid.choose?_none {g : Grid} {tie : Tie} (h : g.choose? tie m e = none) :
    g.reaches m e (4 * m * g.scale / g.cell) = false ∧
      g.reaches m e (4 * m * g.scale / g.cell + 1) = false := by
  unfold Grid.choose? at h
  dsimp only at h
  split at h
  · next hlower hupper => exact ⟨hlower, hupper⟩
  · cases h
  · cases h
  · split at h
    · cases h
    · split at h
      · cases h
      · cases tie <;> cases h

/-- The power of ten that the search begins at lies no higher than the double. -/
theorem le_of_magnitude (hm : 0 < m) (he : -1074 ≤ e) :
    (10 : ℚ) ^ (magnitude m e - 1) ≤ m * 2 ^ e := by
  let raised := m * 2 ^ e.toNat * 10 ^ deepest
  let whole := raised / 2 ^ (-e).toNat
  have hten : (10 : ℚ) ≠ 0 := by norm_num
  have hmagnitude : magnitude m e = (width whole : Int) - deepest := by
    simp only [magnitude, Nat.pow_eq, whole, raised]
  have hdeepest : deepest = 7 * 50 := rfl
  have hwhole : 0 < whole := by
    refine Nat.div_pos ?_ (Nat.two_pow_pos _)
    calc 2 ^ (-e).toNat ≤ 2 ^ (23 * 50) := Nat.pow_le_pow_right (by decide) (by omega)
      _ = (2 ^ 23) ^ 50 := Nat.pow_mul ..
      _ ≤ (10 ^ 7) ^ 50 := Nat.pow_le_pow_left (by decide) 50
      _ = 10 ^ deepest := by rw [hdeepest, Nat.pow_mul]
      _ ≤ raised := Nat.le_mul_of_pos_left _ (Nat.mul_pos hm (Nat.two_pow_pos _))
  have hdigits : 10 ^ (width whole - 1) ≤ whole := by
    rcases Nat.eq_zero_or_pos (width whole - 1) with hone | hmore
    · rw [hone]
      exact hwhole
    · rw [← not_lt, ← Nat.length_toDigits_le_iff (by decide) hmore]
      exact Nat.not_le.mpr (Nat.sub_lt Nat.length_toDigits_pos (by decide))
  have hraised : (raised : ℚ) = m * 2 ^ e * 10 ^ deepest * 2 ^ (-e).toNat := by
    simp only [raised, Nat.cast_mul, Nat.cast_pow, Nat.cast_ofNat]
    rw [zpow_toNat two_ne_zero e]
    ring
  have hpower : (0 : ℚ) < 2 ^ (-e).toNat := by positivity
  have hdeep : (0 : ℚ) < 10 ^ deepest := by positivity
  have hle : (whole : ℚ) ≤ m * 2 ^ e * 10 ^ deepest := by
    refine le_of_mul_le_mul_right ?_ hpower
    rw [← hraised]
    exact_mod_cast Nat.div_mul_le_self raised _
  have hexponent : magnitude m e - 1 = ((width whole - 1 : Nat) : Int) - (deepest : Nat) := by
    have hwidth : 0 < width whole := Nat.length_toDigits_pos
    omega
  rw [hexponent, zpow_sub₀ hten, zpow_natCast, zpow_natCast, div_le_iff₀ hdeep]
  exact le_trans (by exact_mod_cast hdigits) hle

/-- A grid that is fine enough has a point that rounds to the double. -/
theorem Grid.choose?_fine {tie : Tie} {power : Int} (hm : 0 < m) (hregular : Regular m e)
    (hfine : (10 : ℚ) ^ power * 10 ^ 16 ≤ m * 2 ^ e) :
    (Grid.of e power).choose? tie m e ≠ none := by
  intro hnone
  obtain ⟨hlower, hupper⟩ := Grid.choose?_none hnone
  rw [← Bool.not_eq_true, Grid.reaches_iff hm] at hlower hupper
  obtain ⟨unit, hunit, hscale, hcell⟩ := Grid.of_unit e power
  generalize Grid.of e power = g at *
  generalize hk : 4 * m * g.scale / g.cell = k at *
  have hcellpos : 0 < g.cell := by
    have : (0 : ℚ) < g.cell := by rw [hcell]; positivity
    exact_mod_cast this
  have hquarter : (0 : ℚ) < 2 ^ (e - 2) := by positivity
  have hvalue : (m : ℚ) * 2 ^ e = 4 * m * 2 ^ (e - 2) := by
    rw [zpow_sub₀ two_ne_zero]
    ring
  -- the double lies between the two points
  have hbelow : (k : ℚ) * 10 ^ power ≤ 4 * m * 2 ^ (e - 2) := by
    have h : k * g.cell ≤ 4 * m * g.scale := hk ▸ Nat.div_mul_le_self _ _
    have h : (k : ℚ) * g.cell ≤ 4 * m * g.scale := by exact_mod_cast h
    rw [hscale, hcell, ← mul_assoc, ← mul_assoc] at h
    exact le_of_mul_le_mul_right h hunit
  have habove : (4 * m * 2 ^ (e - 2) : ℚ) < (k + 1) * 10 ^ power := by
    have h : 4 * m * g.scale < (k + 1) * g.cell :=
      (Nat.div_lt_iff_lt_mul hcellpos).mp (hk ▸ Nat.lt_succ_self _)
    have h : (4 * m * g.scale : ℚ) < (k + 1) * g.cell := by exact_mod_cast h
    rw [hscale, hcell, ← mul_assoc, ← mul_assoc] at h
    exact lt_of_mul_lt_mul_right h hunit.le
  -- neither rounds to the double, and so they lie as far apart as the ends of its interval
  have hgap : (1 : ℚ) ≤ gapBelow m e := by exact_mod_cast gapBelow_pos m e
  have hfar : (k : ℚ) * 10 ^ power ≤ (4 * m - gapBelow m e) * 2 ^ (e - 2) := by
    refine not_lt.mp fun hlow => hlower (.of_lt hlow ?_)
    linarith
  have hfar' : (4 * m + 2 : ℚ) * 2 ^ (e - 2) ≤ (k + 1) * 10 ^ power := by
    refine not_lt.mp fun hhigh => hupper ?_
    rw [Nat.cast_succ]
    refine .of_lt ?_ hhigh
    nlinarith
  have hcell : (2 + gapBelow m e : ℚ) * 2 ^ (e - 2) ≤ 10 ^ power := by linarith
  have hwide : (2 + gapBelow m e : ℚ) * 10 ^ 16 ≤ 4 * m := by
    refine le_of_mul_le_mul_right ?_ hquarter
    rw [← hvalue]
    linarith
  have hbound : (m : ℚ) < 2 ^ 53 := by exact_mod_cast hregular.mantissa_lt
  by_cases hpower : m = 2 ^ 52 ∧ e ≠ -1074
  · have hm : (m : ℚ) = 2 ^ 52 := by exact_mod_cast hpower.1
    rw [hm] at hwide
    linarith
  · have htwo : gapBelow m e = 2 := if_neg hpower
    rw [htwo] at hwide
    norm_num at hwide
    linarith

/-- Seventeen digits suffice for a decimal that rounds to a given double, and the search finds
one. -/
theorem Digits.shortest_roundsTo (tie : Tie) (hm : 0 < m) (hregular : Regular m e) :
    RoundsTo (Digits.shortest tie m e).value m e := by
  let grid (n : Nat) : Option Digits :=
    ((Grid.of e (magnitude m e - (n + 1 : Nat))).choose? tie m e).map
      fun k => ⟨k, magnitude m e - (n + 1 : Nat)⟩
  have hshortest : Digits.shortest tie m e =
      (((List.range 17).findSome? grid).getD ⟨0, 0⟩).trim 20 := rfl
  rw [hshortest, Digits.trim_value]
  cases hfound : (List.range 17).findSome? grid with
  | none =>
    have hlast := List.findSome?_eq_none_iff.mp hfound 16 (by decide)
    refine absurd (Option.map_eq_none_iff.mp hlast) (Grid.choose?_fine hm hregular ?_)
    have hten : (10 : ℚ) ≠ 0 := by norm_num
    rw [← zpow_natCast, ← zpow_add₀ hten]
    convert le_of_magnitude hm hregular.least using 2
    push_cast
    ring
  | some d =>
    obtain ⟨n, _, hn⟩ := List.exists_of_findSome?_eq_some hfound
    obtain ⟨k, hk, rfl⟩ := Option.map_eq_some_iff.mp hn
    exact (Grid.reaches_iff hm).mp (Grid.reaches_of_choose? hk)

end Lox.Decimal
