import InferenceRecorder.Proofs.Numeral.Digits
import InferenceRecorder.Proofs.Numeral.Rounding

/-!
The shortest decimal. The search finds a decimal for each number, and the decimal lies near to the
number, so that it rounds back to it: `shortest?_near`.
-/
namespace InferenceRecorder.Numeral

/-- The first digit of a fraction does not stand below the power that is told for it. -/
theorem leadingPower_le {num den : Nat} (hn : 0 < num) (hd : 0 < den) :
    (10 : ℚ) ^ leadingPower num den ≤ num / den := by
  have hden : (0 : ℚ) < den := by positivity
  have hnum : (0 : ℚ) < num := by positivity
  unfold leadingPower
  dsimp only
  split_ifs with hle hexact
  · have hq : 10 ^ (digitCount (num / den) - 1) ≤ num / den :=
      pow_le_of_digitCount (Nat.div_pos hle hd)
    have hpos := digitCount_pos (num / den)
    rw [Nat.le_div_iff_mul_le hd] at hq
    rw [le_div_iff₀ hden, ← Nat.cast_pred hpos, zpow_natCast]
    exact_mod_cast hq
  · have hpos := digitCount_pos (den / num)
    rw [← Nat.cast_pred hpos, zpow_neg, zpow_natCast, inv_le_comm₀ (by positivity) (by positivity),
      inv_div, div_le_iff₀ hnum, mul_comm]
    exact_mod_cast hexact
  · have hlt := lt_pow_digitCount (den / num)
    rw [Nat.div_lt_iff_lt_mul hn] at hlt
    rw [zpow_neg, zpow_natCast, inv_le_comm₀ (by positivity) (by positivity), inv_div,
      div_le_iff₀ hnum]
    exact_mod_cast hlt.le

namespace Window
variable (w : Window)

/-- Some decimal of the grid lies in the window if the window is wider than the grid. -/
theorem nearest?_isSome (hd : 0 < w.den) (hlow : w.low ≤ w.mid) (hhigh : w.mid < w.high)
    (hwide : w.low + w.den < w.high) : w.nearest?.isSome := by
  have hdiv := Nat.div_add_mod w.mid w.den
  have hmod := Nat.mod_lt w.mid hd
  have hone : w.contains (w.mid / w.den) || w.contains (w.mid / w.den + 1) := by
    unfold contains
    generalize hdown : w.mid / w.den = down at *
    have hdown : down * w.den = w.mid - w.mid % w.den := by rw [mul_comm]; omega
    have hup : (down + 1) * w.den = down * w.den + w.den := by ring
    rw [hup, hdown]
    split_ifs <;> simp <;> omega
  unfold nearest?
  dsimp only
  cases hdown : w.contains (w.mid / w.den) <;> cases hup : w.contains (w.mid / w.den + 1) <;>
    simp_all

theorem contains_of_nearest? {n : Nat} (h : w.nearest? = some n) : w.contains n := by
  unfold nearest? at h
  dsimp only at h
  split at h
  next hdown hup =>
    obtain rfl := Option.some.inj h
    unfold Binary64.nearest
    dsimp only
    split_ifs
    · exact hup
    · exact hdown
  next hdown hup => exact Option.some.inj h ▸ hdown
  next hdown hup => exact Option.some.inj h ▸ hup
  next => cases h

theorem contains_of_search {grids : Nat} {power : Int} {d : Decimal}
    (h : w.search grids power = some d) : (w.inUnits d.power).contains d.digits := by
  induction grids generalizing power with
  | zero => cases h
  | succ grids ih =>
    rw [search] at h
    split at h
    next digits hn =>
      obtain rfl := Option.some.inj h
      exact contains_of_nearest? _ hn
    next => exact ih h

/-- A grid that has a decimal in the window ends the search. -/
theorem search_isSome {grids k : Nat} {power : Int} (hk : k < grids)
    (h : (w.inUnits (power - k)).nearest?.isSome) : (w.search grids power).isSome := by
  induction grids generalizing power k with
  | zero => omega
  | succ grids ih =>
    rw [search]
    cases hn : (w.inUnits power).nearest? with
    | some digits => rfl
    | none =>
      cases k with
      | zero => simp [hn] at h
      | succ k =>
        refine ih (k := k) (by omega) ?_
        have : power - 1 - (k : Int) = power - ((k + 1 : Nat) : Int) := by omega
        rwa [this]

/-- In units of a power of ten, all ratios are divided by it. -/
theorem inUnits_eq (power : Int) : ∃ num den : Nat, 0 < num ∧ 0 < den ∧
    w.inUnits power = ⟨w.low * num, w.mid * num, w.high * num, w.den * den, w.closed⟩ ∧
      (den : ℚ) = num * 10 ^ power := by
  unfold inUnits
  by_cases hp : 0 ≤ power
  · obtain ⟨n, rfl⟩ := Int.eq_ofNat_of_zero_le hp
    refine ⟨1, 10 ^ n, by decide, by positivity, ?_, by simp⟩
    simp
  · obtain ⟨n, hn⟩ := Int.eq_ofNat_of_zero_le (a := -power) (by omega)
    obtain rfl : power = -(n : Int) := by omega
    refine ⟨10 ^ n, 1, by positivity, by decide, ?_, by simp⟩
    rw [if_neg hp]
    simp

/-- What lies in the window in units of a power of ten, told of the window itself. -/
theorem of_contains_inUnits (hd : 0 < w.den) {power : Int} {n : Nat}
    (h : (w.inUnits power).contains n) :
    (w.low : ℚ) / w.den ≤ n * 10 ^ power ∧ (n : ℚ) * 10 ^ power ≤ w.high / w.den ∧
      (w.closed = false → (w.low : ℚ) / w.den < n * 10 ^ power ∧
        (n : ℚ) * 10 ^ power < w.high / w.den) := by
  obtain ⟨num, den, hnum, hden, hw, hratio⟩ := w.inUnits_eq power
  have hd : (0 : ℚ) < w.den := by positivity
  have hnum : (0 : ℚ) < num := by positivity
  have hunits : (n : ℚ) * (w.den * den) = n * 10 ^ power * w.den * num := by rw [hratio]; ring
  rw [hw] at h
  unfold contains at h
  rw [div_le_iff₀ hd, le_div_iff₀ hd, div_lt_iff₀ hd, lt_div_iff₀ hd]
  cases hc : w.closed with
  | true =>
    simp only [hc, if_true, Bool.and_eq_true, decide_eq_true_eq] at h
    have hl : (w.low * num : ℚ) ≤ n * (w.den * den) := by exact_mod_cast h.1
    have hh : (n * (w.den * den) : ℚ) ≤ w.high * num := by exact_mod_cast h.2
    rw [hunits] at hl hh
    exact ⟨le_of_mul_le_mul_right hl hnum, le_of_mul_le_mul_right hh hnum, nofun⟩
  | false =>
    simp only [hc, Bool.false_eq_true, if_false, Bool.and_eq_true, decide_eq_true_eq] at h
    have hl : (w.low * num : ℚ) < n * (w.den * den) := by exact_mod_cast h.1
    have hh : (n * (w.den * den) : ℚ) < w.high * num := by exact_mod_cast h.2
    rw [hunits] at hl hh
    have hl := lt_of_mul_lt_mul_right hl hnum.le
    have hh := lt_of_mul_lt_mul_right hh hnum.le
    exact ⟨hl.le, hh.le, fun _ => ⟨hl, hh⟩⟩

/-- A power of ten below the width of the window makes a grid that has a decimal in it. -/
theorem nearest?_inUnits_isSome (hd : 0 < w.den) (hlow : w.low ≤ w.mid) (hhigh : w.mid < w.high)
    {power : Int} (hwide : (w.low : ℚ) / w.den + 10 ^ power < w.high / w.den) :
    (w.inUnits power).nearest?.isSome := by
  obtain ⟨num, den, hnum, hden, hw, hratio⟩ := w.inUnits_eq power
  have hdq : (0 : ℚ) < w.den := by positivity
  have hnumq : (0 : ℚ) < num := by positivity
  rw [hw]
  refine nearest?_isSome _ (Nat.mul_pos hd hden) (Nat.mul_le_mul_right num hlow)
    (Nat.mul_lt_mul_of_pos_right hhigh hnum) ?_
  have hq : (w.low * num + w.den * den : ℚ) < w.high * num := by
    rw [hratio]
    rw [lt_div_iff₀ hdq, add_mul, div_mul_cancel₀ _ hdq.ne'] at hwide
    have := mul_lt_mul_of_pos_right hwide hnumq
    linarith
  exact_mod_cast hq

end Window

namespace Binary64
variable {x : Binary64}

/-- The window of a number in terms of its mantissa and exponent. -/
theorem window_eq (hm : x.mantissa ≠ 0) : 0 < (Window.of x).den ∧
    ((Window.of x).low : ℚ) / (Window.of x).den =
      (4 * x.mantissa - if x.AtPower then 1 else 2) * 2 ^ x.exponent / 4 ∧
    ((Window.of x).mid : ℚ) / (Window.of x).den = x.mantissa * 2 ^ x.exponent ∧
    ((Window.of x).high : ℚ) / (Window.of x).den = (4 * x.mantissa + 2) * 2 ^ x.exponent / 4 ∧
    (Window.of x).closed = (x.mantissa % 2 == 0) := by
  have hpower : (x.mantissa == mantissaBound / 2 && x.exponent != leastExponent) =
      decide x.AtPower := by
    rw [Bool.eq_iff_iff, decide_eq_true_eq]
    simp [AtPower, mantissaBound]
  have hpos := scaled_pos 1 (show 0 < 4 by decide) (-x.exponent)
  have hscaled := scaled_eq 1 (show 0 < 4 by decide) (-x.exponent)
  rw [zpow_neg, div_inv_eq_mul] at hscaled
  have hratio : ∀ n : ℚ, n * (scaled 1 4 (-x.exponent)).1 / (scaled 1 4 (-x.exponent)).2 =
      n * 2 ^ x.exponent / 4 := by
    intro n
    rw [mul_div_assoc, hscaled]
    push_cast
    ring
  simp only [Window.of, hpower, decide_eq_true_eq]
  refine ⟨hpos, ?_, ?_, ?_, trivial⟩
  · have hle : (if x.AtPower then 1 else 2) ≤ 4 * x.mantissa := by split_ifs <;> omega
    rw [Nat.cast_mul, Nat.cast_sub hle, hratio]
    push_cast
    rfl
  · rw [Nat.cast_mul, hratio]
    push_cast
    ring
  · rw [Nat.cast_mul, hratio]
    push_cast
    rfl

/-- A decimal in the window lies near to the number. -/
theorem near_of_contains (hm : x.mantissa ≠ 0) {power : Int} {n : Nat}
    (h : ((Window.of x).inUnits power).contains n) : x.Near (n * 10 ^ power) := by
  obtain ⟨hpos, hlow, -, hhigh, hclosed⟩ := window_eq hm
  obtain ⟨hl, hh, hopen⟩ := Window.of_contains_inUnits _ hpos h
  rw [hlow] at hl hopen
  rw [hhigh] at hh hopen
  have hstrict : x.mantissa % 2 = 1 → (Window.of x).closed = false := fun ho => by
    simp [hclosed, ho]
  refine ⟨by linarith, by linarith, fun ho => ?_, fun ho => ?_⟩
  · linarith [(hopen (hstrict ho)).1]
  · linarith [(hopen (hstrict ho)).2]

/-- Seventeen digits are enough to come nearer to a number than to any other. -/
theorem grid_lt_width (hx : x.Canonical) {power : Int}
    (hp : (10 : ℚ) ^ power ≤ x.mantissa * 2 ^ x.exponent) :
    (4 * x.mantissa - if x.AtPower then 1 else 2) * (2 : ℚ) ^ x.exponent / 4 + 10 ^ (power - 16) <
      (4 * x.mantissa + 2) * 2 ^ x.exponent / 4 := by
  have hunit : (0 : ℚ) < 2 ^ x.exponent := by positivity
  have hgrid : (10 : ℚ) ^ (power - 16) = 10 ^ power / 10 ^ (16 : Int) :=
    zpow_sub₀ (by norm_num) _ _
  have hmantissa := hx.mantissa_add_one_le
  have hbound := mul_le_mul_of_nonneg_right hmantissa hunit.le
  rw [hgrid]
  norm_num at hbound ⊢
  split_ifs with hat
  · rw [hat.1] at hp ⊢
    norm_num at hp ⊢
    linarith
  · linarith

/-- The search finds a decimal, and rounding brings it back. -/
theorem shortest?_near (hx : x.Canonical) (hm : x.mantissa ≠ 0) :
    ∃ d, shortest? x = some d ∧ 0 < d.digits ∧ x.Near (d.digits * 10 ^ d.power) := by
  obtain ⟨hpos, hlow, hmid, hhigh, -⟩ := window_eq hm
  have hunit : (0 : ℚ) < 2 ^ x.exponent := by positivity
  have hden : (0 : ℚ) < (Window.of x).den := by positivity
  have hmantissa : (1 : ℚ) ≤ x.mantissa := by exact_mod_cast Nat.pos_of_ne_zero hm
  have hmidpos : 0 < (Window.of x).mid := by
    by_contra hzero
    rw [Nat.eq_zero_of_not_pos hzero, Nat.cast_zero, zero_div] at hmid
    nlinarith
  have hpower := leadingPower_le hmidpos hpos
  rw [hmid] at hpower
  have hwide := grid_lt_width hx hpower
  rw [← hlow, ← hhigh] at hwide
  have hle : (Window.of x).low ≤ (Window.of x).mid := by
    have hq : ((Window.of x).low : ℚ) / (Window.of x).den ≤
        (Window.of x).mid / (Window.of x).den := by
      rw [hlow, hmid]
      split_ifs <;> linarith
    exact_mod_cast (div_le_div_iff_of_pos_right hden).1 hq
  have hlt : (Window.of x).mid < (Window.of x).high := by
    have hq : ((Window.of x).mid : ℚ) / (Window.of x).den <
        (Window.of x).high / (Window.of x).den := by
      rw [hmid, hhigh]
      linarith
    exact_mod_cast (div_lt_div_iff_of_pos_right hden).1 hq
  have hfound : ((Window.of x).search digitsNeeded
      (leadingPower (Window.of x).mid (Window.of x).den)).isSome :=
    Window.search_isSome _ (k := 16) (by decide)
      (Window.nearest?_inUnits_isSome _ hpos hle hlt hwide)
  obtain ⟨d, hd⟩ := Option.isSome_iff_exists.1 hfound
  have hnear := near_of_contains hm (Window.contains_of_search _ hd)
  refine ⟨d, ?_, ?_, hnear⟩
  · unfold shortest?
    rw [if_neg (by simpa [isZero] using hm)]
    exact hd
  · -- zero does not lie near to a number that is not zero
    by_contra hzero
    have hl := hnear.low
    rw [Nat.eq_zero_of_not_pos hzero, Nat.cast_zero, zero_mul, mul_zero] at hl
    split_ifs at hl <;> nlinarith

end Binary64
end InferenceRecorder.Numeral
