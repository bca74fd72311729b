import Mathlib.Data.List.TakeWhile
import Mathlib.Data.Nat.Cast.Field
import Lox.Proofs.Decimal.Rounding
import Lox.Tree.Parenthesized

/-!
# Different doubles are written differently

`spelled` reads a row of digits, with at most one point among them, as a number. The text that a
finite double has in a parenthesized expression is a sign and such a row, and the row spells a
number that rounds to the double (`numberText_spelled`). No number rounds to two doubles, so no two
doubles have the same text (`numberText_inj`).
-/

namespace Lox.Decimal

/-! ## Reading digits -/

/-- The number that digits spell, with at most one point among them. -/
def spelled (cs : List Char) : ℚ :=
  let before := cs.takeWhile Char.isDigit
  let after := (cs.dropWhile Char.isDigit).drop 1
  Nat.ofDigitChars 10 (before ++ after) 0 * 10 ^ (-(after.length : Int))

section Digits

variable {before after cs : List Char}

theorem spelled_whole (hcs : ∀ c ∈ cs, c.isDigit = true) :
    spelled cs = Nat.ofDigitChars 10 cs 0 := by
  have htake : cs.takeWhile Char.isDigit = cs := List.takeWhile_eq_self_iff.mpr hcs
  have hdrop : cs.dropWhile Char.isDigit = [] := List.dropWhile_eq_nil_iff.mpr hcs
  simp [spelled, htake, hdrop]

theorem spelled_point (hbefore : ∀ c ∈ before, c.isDigit = true) :
    spelled (before ++ '.' :: after) =
      Nat.ofDigitChars 10 (before ++ after) 0 * 10 ^ (-(after.length : Int)) := by
  have htake : (before ++ '.' :: after).takeWhile Char.isDigit = before := by
    rw [List.takeWhile_append_of_pos hbefore]
    simp
  have hdrop : (before ++ '.' :: after).dropWhile Char.isDigit = '.' :: after := by
    rw [List.dropWhile_append_of_pos hbefore]
    simp
  rw [spelled, htake, hdrop]
  rfl

theorem digits_isDigit (n : Nat) : ∀ c ∈ digits n, c.isDigit = true :=
  fun _ hc => Nat.isDigit_of_mem_toDigits (by decide) (by decide) hc

theorem replicate_isDigit (n : Nat) : ∀ c ∈ List.replicate n '0', c.isDigit = true := by
  intro c hc
  rw [List.eq_of_mem_replicate hc]
  rfl

/-- The point of a row of digits moves, and zeros fill up the row; the number stays. -/
theorem spelled_positional (d : Digits) :
    spelled (positional false (digits d.coefficient)
      (d.exponent + (digits d.coefficient).length)) = d.value := by
  have hdigits := digits_isDigit d.coefficient
  have hread : Nat.ofDigitChars 10 (digits d.coefficient) 0 = d.coefficient :=
    Nat.ofDigitChars_ten_toDigits
  generalize digits d.coefficient = cs at *
  unfold positional Digits.value
  split
  · next hle =>
    have hzero : ∀ c ∈ ['0'], c.isDigit = true := List.all_eq_true.mp rfl
    show spelled (['0'] ++ '.' :: (List.replicate _ '0' ++ cs)) = _
    rw [spelled_point hzero, List.length_append, List.length_replicate, ← List.append_assoc,
      Nat.ofDigitChars_append]
    congr 2
    · exact (congrArg _ (Nat.ofDigitChars_replicate_zero (n := _ + 1))).trans hread
    · omega
  · next hpos =>
    split
    · next hlt =>
      rw [spelled_point fun c hc => hdigits c (List.mem_of_mem_take hc), List.take_append_drop,
        hread]
      congr 2
      rw [List.length_drop]
      omega
    · next hge =>
      have hall : ∀ c ∈ cs ++ List.replicate ((d.exponent + cs.length).toNat - cs.length) '0',
          c.isDigit = true := by
        intro c hc
        rcases List.mem_append.mp hc with hc | hc
        · exact hdigits c hc
        · exact replicate_isDigit _ c hc
      rw [if_neg Bool.false_ne_true, List.append_nil, spelled_whole hall,
        Nat.ofDigitChars_append, hread, Nat.ofDigitChars_replicate_zero, Nat.cast_mul, mul_comm,
        Nat.cast_pow, Nat.cast_ofNat, ← zpow_natCast]
      congr 2
      omega

end Digits

/-! ## The texts of doubles -/

/-- A digit, and then digits and points. -/
structure IsNumeral (cs : List Char) : Prop where
  head : ∃ c ∈ cs.head?, c.isDigit = true
  all : ∀ c ∈ cs, c.isDigit = true ∨ c = '.'

theorem IsNumeral.append {cs ds : List Char} (hcs : ∀ c ∈ cs, c.isDigit = true) (hne : cs ≠ [])
    (hds : ∀ d ∈ ds, d.isDigit = true ∨ d = '.') : IsNumeral (cs ++ ds) where
  head := by
    obtain ⟨c, rest, rfl⟩ := List.exists_cons_of_ne_nil hne
    exact ⟨c, rfl, hcs c List.mem_cons_self⟩
  all c hc := (List.mem_append.mp hc).elim (fun hc => .inl (hcs c hc)) (hds c)

theorem positional_isNumeral {cs : List Char} (hcs : ∀ c ∈ cs, c.isDigit = true) (hne : cs ≠ [])
    (p : Int) : IsNumeral (positional false cs p) := by
  unfold positional
  split
  · show IsNumeral (['0'] ++ '.' :: (List.replicate _ '0' ++ cs))
    refine .append (List.all_eq_true.mp rfl) (List.cons_ne_nil _ _) fun c hc => ?_
    rcases List.mem_cons.mp hc with rfl | hc
    · exact .inr rfl
    rcases List.mem_append.mp hc with hc | hc
    · exact .inl (replicate_isDigit _ c hc)
    · exact .inl (hcs c hc)
  split
  · refine .append (fun c hc => hcs c (List.mem_of_mem_take hc)) ?_ fun c hc => ?_
    · rw [Ne, List.take_eq_nil_iff]
      exact fun h => h.elim (by omega) hne
    rcases List.mem_cons.mp hc with rfl | hc
    · exact .inr rfl
    · exact .inl (hcs c (List.mem_of_mem_drop hc))
  · rw [List.append_assoc]
    refine .append hcs hne fun c hc => .inl ?_
    rw [if_neg Bool.false_ne_true, List.append_nil] at hc
    exact replicate_isDigit _ c hc

variable {x y : Float} {negative : Bool} {m n : Nat} {e : Int}

theorem Parts.whole?_value (h : (Parts.finite negative m e).whole? = some n) :
    (n : ℚ) = m * 2 ^ e := by
  unfold Parts.whole? at h
  simp only [Nat.pow_eq] at h
  split at h
  · next hle =>
    cases h
    rw [Nat.cast_mul, Nat.cast_pow, Nat.cast_ofNat, ← zpow_natCast, Int.toNat_of_nonneg hle]
  · next hlt =>
    split at h
    · next hdiv =>
      cases h
      have hexponent : e = -(e.natAbs : Int) := by omega
      have hpower : ((2 ^ e.natAbs : Nat) : ℚ) ≠ 0 := by positivity
      rw [Nat.cast_div (Nat.dvd_of_mod_eq_zero hdiv) hpower]
      nth_rewrite 2 [hexponent]
      rw [zpow_neg, zpow_natCast, Nat.cast_pow, Nat.cast_ofNat, div_eq_mul_inv]
    · cases h

theorem Parts.whole?_zero : (Parts.finite negative 0 e).whole? = some 0 := by
  show (if 0 ≤ e then some (0 * Nat.pow 2 e.toNat)
    else if 0 % Nat.pow 2 e.natAbs = 0 then some (0 / Nat.pow 2 e.natAbs) else none) = some 0
  rw [Nat.zero_mul, Nat.zero_mod, Nat.zero_div, if_pos rfl, ite_self]

/-- A numeral has no sign, so the sign in front of it can be told. -/
theorem IsNumeral.sign_unique {cs cs' : List Char} {negative' : Bool} (h : IsNumeral cs)
    (h' : IsNumeral cs')
    (heq : (if negative then ['-'] else []) ++ cs = (if negative' then ['-'] else []) ++ cs') :
    negative = negative' ∧ cs = cs' := by
  have hsign {cs : List Char} (h : IsNumeral cs) (rest : List Char) : cs ≠ '-' :: rest := by
    rintro rfl
    obtain ⟨c, hc, hdigit⟩ := h.head
    cases hc
    exact absurd hdigit (by decide)
  cases negative <;> cases negative'
  · exact ⟨rfl, heq⟩
  · exact absurd heq (hsign h cs')
  · exact absurd heq.symm (hsign h' cs)
  · exact ⟨rfl, List.cons.inj heq |>.2⟩

/-- The text of a finite double is a sign and a numeral that rounds to it. -/
theorem numberText_spelled (hx : Parts.ofFloat x = .finite negative m e) :
    ∃ cs, (Literal.numberText x).toList = (if negative then ['-'] else []) ++ cs ∧
      IsNumeral cs ∧ RoundsTo (spelled cs) m e := by
  have hregular : Regular m e := Parts.ofBits_regular hx
  have htext : Literal.numberText x =
      ((Parts.finite negative m e).whole?.map fun n =>
        (if negative then "-" else "") ++ toString n ++ ".0").getD
      (Layout.plain.write (.finite negative m e)) := by
    rw [← hx]
    unfold Literal.numberText exactWhole? plain
    rw [hx]
    rfl
  cases hwhole : (Parts.finite negative m e).whole? with
  -- a whole number is written in full, with `.0` behind
  | some n =>
    refine ⟨digits n ++ ['.', '0'], ?_, ?_, ?_⟩
    · rw [htext, hwhole]
      cases negative <;> simp [digits, String.toList_append]
    · refine .append (digits_isDigit n) Nat.toDigits_ne_nil fun c hc => ?_
      rcases List.mem_pair.mp hc with rfl | rfl
      · exact .inr rfl
      · exact .inl rfl
    · have hread : Nat.ofDigitChars 10 (digits n) 0 = n := Nat.ofDigitChars_ten_toDigits
      rw [spelled_point (digits_isDigit n), Nat.ofDigitChars_append, hread,
        show (Nat.ofDigitChars 10 ['0'] n) = 10 * n from
          (Nat.ofDigitChars_replicate_zero (n := 1)).trans (by rw [pow_one])]
      have hvalue := Parts.whole?_value hwhole
      have hpoint : ((10 * n : Nat) : ℚ) * 10 ^ (-((['0'] : List Char).length : Int)) =
          m * 2 ^ e := by
        rw [← hvalue, List.length_singleton, Nat.cast_one, zpow_neg_one, Nat.cast_mul,
          Nat.cast_ofNat]
        ring
      rw [hpoint]
      exact .self m e
  -- any other one by its shortest digits, which round to it
  | none =>
    have hm : 0 < m := by
      rcases Nat.eq_zero_or_pos m with rfl | hm
      · rw [Parts.whole?_zero] at hwhole
        cases hwhole
      · exact hm
    let d := Digits.shortest .up m e
    refine ⟨positional false (digits d.coefficient) (d.exponent + (digits d.coefficient).length),
      ?_, ?_, ?_⟩
    · rw [htext, hwhole, Option.map_none, Option.getD_none, Layout.write, String.toList_ofList,
        if_neg hm.ne']
      cases negative <;> rfl
    · exact positional_isNumeral (digits_isDigit _) Nat.toDigits_ne_nil _
    · rw [spelled_positional]
      exact Digits.shortest_roundsTo .up hm hregular

/-- Two finite doubles that are written the same are the same. -/
theorem numberText_inj (hx : x.isFinite = true) (hy : y.isFinite = true)
    (h : Literal.numberText x = Literal.numberText y) : x = y := by
  obtain ⟨negative, m, e, hpartsx⟩ := Parts.ofFloat_finite hx
  obtain ⟨negative', m', e', hpartsy⟩ := Parts.ofFloat_finite hy
  obtain ⟨cs, htext, hnumeral, hrounds⟩ := numberText_spelled hpartsx
  obtain ⟨cs', htext', hnumeral', hrounds'⟩ := numberText_spelled hpartsy
  rw [h, htext'] at htext
  obtain ⟨rfl, rfl⟩ := hnumeral'.sign_unique hnumeral htext
  obtain ⟨rfl, rfl⟩ := hrounds.unique hrounds' (Parts.ofBits_regular hpartsx)
    (Parts.ofBits_regular hpartsy)
  exact Parts.ofFloat_inj hpartsx hpartsy

end Lox.Decimal
