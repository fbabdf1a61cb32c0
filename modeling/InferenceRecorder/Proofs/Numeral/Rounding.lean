import InferenceRecorder.Numeral.Binary64
import Mathlib.Algebra.Order.Field.Power
import Mathlib.Data.Rat.Cast.Order
import Mathlib.Tactic.FieldSimp
import Mathlib.Tactic.Linarith
import Mathlib.Tactic.Positivity
import Mathlib.Tactic.Ring

/-!
Rounding. A fraction that lies nearer to a number than to any other rounds to it, and so does one in
the middle between two if its mantissa is even: `ofRatio?_of_near`.
-/
namespace InferenceRecorder.Numeral.Binary64

/-- A number in the one way that it is written: its mantissa is in the upper half, unless its
exponent is the least. -/
structure Canonical (x : Binary64) : Prop where
  mantissa : x.mantissa < 2 ^ 53
  least : leastExponent ≤ x.exponent
  greatest : x.exponent ≤ greatestExponent
  normal : x.exponent = leastExponent ∨ 2 ^ 52 ≤ x.mantissa

def AtPower (x : Binary64) : Prop := x.mantissa = 2 ^ 52 ∧ x.exponent ≠ leastExponent

instance (x : Binary64) : Decidable x.AtPower := inferInstanceAs (Decidable (_ ∧ _))

/-- No number lies nearer to `q`, and if another one lies as near, the mantissa of this one is even.
Distances are in quarters of the last place. -/
structure Near (x : Binary64) (q : ℚ) : Prop where
  low : (4 * x.mantissa - if x.AtPower then 1 else 2) * (2 : ℚ) ^ x.exponent ≤ 4 * q
  high : 4 * q ≤ (4 * x.mantissa + 2) * (2 : ℚ) ^ x.exponent
  open_low : x.mantissa % 2 = 1 →
    (4 * x.mantissa - if x.AtPower then 1 else 2) * (2 : ℚ) ^ x.exponent < 4 * q
  open_high : x.mantissa % 2 = 1 → 4 * q < (4 * x.mantissa + 2) * (2 : ℚ) ^ x.exponent

theorem scaled_pos (num : Nat) {den : Nat} (hd : 0 < den) (e : Int) : 0 < (scaled num den e).2 := by
  unfold scaled
  split_ifs
  · exact Nat.mul_pos hd (Nat.pow_pos (by decide))
  · exact hd

theorem scaled_eq (num : Nat) {den : Nat} (hd : 0 < den) (e : Int) :
    ((scaled num den e).1 : ℚ) / (scaled num den e).2 = num / den / 2 ^ e := by
  have hden : (den : ℚ) ≠ 0 := by positivity
  unfold scaled
  split_ifs with he
  · obtain ⟨n, rfl⟩ := Int.eq_ofNat_of_zero_le he
    simp [div_div]
  · obtain ⟨n, hn⟩ := Int.eq_ofNat_of_zero_le (a := -e) (by omega)
    obtain rfl : e = -(n : Int) := by omega
    simp
    field_simp

/-- A quotient lies within a factor of two of the power that the lengths of its terms tell. -/
theorem quotient_bounds {num den : Nat} (hn : 0 < num) (hd : 0 < den) :
    (2 : ℚ) ^ ((num.log2 : Int) - den.log2 - 1) < num / den ∧
      (num : ℚ) / den < 2 ^ ((num.log2 : Int) - den.log2 + 1) := by
  have hden : (0 : ℚ) < den := by positivity
  have hn_low : (2 : ℚ) ^ (num.log2 : Int) ≤ num := by
    rw [zpow_natCast]
    exact_mod_cast Nat.log2_self_le (by omega)
  have hn_high : (num : ℚ) < 2 ^ ((num.log2 : Int) + 1) := by
    exact_mod_cast @Nat.lt_log2_self num
  have hd_low : (2 : ℚ) ^ (den.log2 : Int) ≤ den := by
    rw [zpow_natCast]
    exact_mod_cast Nat.log2_self_le (by omega)
  have hd_high : (den : ℚ) < 2 ^ ((den.log2 : Int) + 1) := by
    exact_mod_cast @Nat.lt_log2_self den
  constructor
  · rw [lt_div_iff₀ hden]
    calc (2 : ℚ) ^ ((num.log2 : Int) - den.log2 - 1) * den
        < 2 ^ ((num.log2 : Int) - den.log2 - 1) * 2 ^ ((den.log2 : Int) + 1) := by gcongr
      _ = 2 ^ (num.log2 : Int) := by
        rw [← zpow_add₀ (by norm_num)]
        congr 1
        omega
      _ ≤ num := hn_low
  · rw [div_lt_iff₀ hden]
    calc (num : ℚ) < 2 ^ ((num.log2 : Int) + 1) := hn_high
      _ = 2 ^ ((num.log2 : Int) - den.log2 + 1) * 2 ^ (den.log2 : Int) := by
        rw [← zpow_add₀ (by norm_num)]
        congr 1
        omega
      _ ≤ 2 ^ ((num.log2 : Int) - den.log2 + 1) * den := by gcongr

/-- The exponent at which a fraction is rounded. -/
theorem exponentFor_eq {num den : Nat} (hn : 0 < num) (hd : 0 < den) {e : Int}
    (hleast : leastExponent ≤ e) (hhigh : (num : ℚ) / den < 2 ^ (53 : Int) * 2 ^ e)
    (hlow : e = leastExponent ∨ (2 : ℚ) ^ (52 : Int) * 2 ^ e ≤ num / den) :
    exponentFor num den = e := by
  obtain ⟨hq_low, hq_high⟩ := quotient_bounds hn hd
  have htwo : (1 : ℚ) < 2 := by norm_num
  have hupper : (num.log2 : Int) - den.log2 - 53 ≤ e := by
    rw [← zpow_add₀ (by norm_num)] at hhigh
    have := (zpow_lt_zpow_iff_right₀ htwo).1 (hq_low.trans hhigh)
    omega
  have hlower : e = leastExponent ∨ e ≤ (num.log2 : Int) - den.log2 - 52 := by
    refine hlow.imp_right fun h => ?_
    rw [← zpow_add₀ (by norm_num)] at h
    have := (zpow_lt_zpow_iff_right₀ htwo).1 (h.trans_lt hq_high)
    omega
  -- the guess is the exponent, or one less
  unfold exponentFor
  generalize hg : max ((num.log2 : Int) - den.log2 - 53) leastExponent = guess
  have hguess : guess = e ∨ guess + 1 = e ∧ e ≠ leastExponent := by omega
  have hpos := scaled_pos num hd guess
  have hfits : (scaled num den guess).1 / (scaled num den guess).2 < mantissaBound ↔
      (num : ℚ) / den < 2 ^ (53 : Int) * 2 ^ guess := by
    have hbound : (mantissaBound : ℚ) = 2 ^ (53 : Int) := by norm_num [mantissaBound]
    rw [Nat.div_lt_iff_lt_mul hpos, ← div_lt_iff₀ (by positivity), ← scaled_eq num hd,
      div_lt_iff₀ (by exact_mod_cast hpos), ← hbound]
    norm_cast
  simp only [hfits]
  rcases hguess with rfl | ⟨rfl, hne⟩
  · rw [if_pos hhigh]
  · rw [if_neg]
    have h := hlow.resolve_left hne
    rw [zpow_add₀ (by norm_num)] at h
    norm_num at h ⊢
    linarith

theorem nearest_eq {num den m : Nat} (hd : 0 < den) (hlow : (2 * m - 1 : ℚ) ≤ 2 * (num / den))
    (hhigh : 2 * ((num : ℚ) / den) ≤ 2 * m + 1)
    (hodd : m % 2 = 1 → (2 * m - 1 : ℚ) < 2 * (num / den) ∧ 2 * ((num : ℚ) / den) < 2 * m + 1) :
    nearest num den = m := by
  have hden : (0 : ℚ) < den := by positivity
  simp only [← mul_div_assoc, le_div_iff₀ hden, div_le_iff₀ hden, lt_div_iff₀ hden,
    div_lt_iff₀ hden] at hlow hhigh hodd
  replace hlow : 2 * m * den ≤ 2 * num + den := by
    have : (2 * m * den : ℚ) ≤ 2 * num + den := by linarith
    exact_mod_cast this
  replace hhigh : 2 * num ≤ 2 * m * den + den := by
    have : (2 * num : ℚ) ≤ 2 * m * den + den := by linarith
    exact_mod_cast this
  replace hodd : m % 2 = 1 → 2 * m * den < 2 * num + den ∧ 2 * num < 2 * m * den + den := by
    intro h
    obtain ⟨ha, hb⟩ := hodd h
    have ha : (2 * m * den : ℚ) < 2 * num + den := by linarith
    have hb : (2 * num : ℚ) < 2 * m * den + den := by linarith
    exact ⟨by exact_mod_cast ha, by exact_mod_cast hb⟩
  have hdiv := Nat.div_add_mod num den
  have hmod := Nat.mod_lt num hd
  unfold nearest
  dsimp only
  generalize num / den = w at *
  generalize num % den = r at *
  have hdouble : 2 * w * den = 2 * (den * w) := by ring
  obtain rfl | rfl : m = w ∨ m = w + 1 := by
    have hle : w ≤ m := by
      by_contra hlt
      have := Nat.mul_le_mul_right den (show 2 * m + 2 ≤ 2 * w by omega)
      rw [Nat.add_mul] at this
      omega
    have hge : m ≤ w + 1 := by
      by_contra hlt
      have := Nat.mul_le_mul_right den (show 2 * w + 4 ≤ 2 * m by omega)
      rw [Nat.add_mul] at this
      omega
    omega
  · rw [if_neg]
    simp only [Bool.or_eq_true, decide_eq_true_eq, Bool.and_eq_true, beq_iff_eq]
    omega
  · have hnext : 2 * (w + 1) * den = 2 * (den * w) + 2 * den := by ring
    rw [if_pos]
    simp only [Bool.or_eq_true, decide_eq_true_eq, Bool.and_eq_true, beq_iff_eq]
    omega

theorem ofRatio?_eq {negative : Bool} {num den m : Nat} {e : Int} (hn : 0 < num)
    (he : exponentFor num den = e)
    (hm : nearest (scaled num den e).1 (scaled num den e).2 = m) :
    ofRatio? negative num den =
      if m = mantissaBound then
        if greatestExponent < e + 1 then none else some ⟨negative, m / 2, e + 1⟩
      else if greatestExponent < e then none else some ⟨negative, m, e⟩ := by
  unfold ofRatio?
  rw [if_neg (by omega), he]
  simp only [hm]
  split_ifs <;> simp_all

section
variable {x : Binary64} {num den : Nat}

theorem Canonical.mantissa_add_one_le (hx : x.Canonical) :
    (x.mantissa : ℚ) + 1 ≤ 2 ^ (53 : Int) := by
  exact_mod_cast hx.mantissa

/-- Away from a power of two, and above it, the fraction is rounded at the exponent of the
number. -/
theorem ofRatio?_of_near_same (hx : x.Canonical) (hn : 0 < num) (hd : 0 < den)
    (h : x.Near (num / den))
    (habove : x.AtPower → x.mantissa * (2 : ℚ) ^ x.exponent ≤ num / den) :
    ofRatio? x.negative num den = some x := by
  have hunit : (0 : ℚ) < 2 ^ x.exponent := by positivity
  have hmantissa := hx.mantissa_add_one_le
  have hscaled := scaled_eq num hd x.exponent
  have hhigh := h.high
  have hlow : (2 * x.mantissa - 1) * (2 : ℚ) ^ x.exponent ≤ 2 * (num / den) := by
    by_cases hp : x.AtPower
    · linarith [habove hp]
    · have := h.low
      rw [if_neg hp] at this
      linarith
  have hodd : x.mantissa % 2 = 1 → (2 * x.mantissa - 1) * (2 : ℚ) ^ x.exponent < 2 * (num / den) ∧
      2 * ((num : ℚ) / den) < (2 * x.mantissa + 1) * 2 ^ x.exponent := by
    intro ho
    have hp : ¬x.AtPower := fun hp => by
      rw [hp.1] at ho
      exact absurd ho (by decide)
    have hl := h.open_low ho
    have hh := h.open_high ho
    rw [if_neg hp] at hl
    constructor <;> linarith
  have he : exponentFor num den = x.exponent := by
    refine exponentFor_eq hn hd hx.least ?_ ?_
    · have := mul_le_mul_of_nonneg_right hmantissa hunit.le
      linarith
    · by_cases hleast : x.exponent = leastExponent
      · exact .inl hleast
      · have hm := hx.normal.resolve_left hleast
        right
        by_cases hp : x.AtPower
        · have := habove hp
          rw [hp.1] at this
          exact_mod_cast this
        · have hlt : 2 ^ 52 < x.mantissa := lt_of_le_of_ne hm fun he => hp ⟨he.symm, hleast⟩
          have hlt : (2 : ℚ) ^ (52 : Int) + 1 ≤ x.mantissa := by exact_mod_cast hlt
          have := mul_le_mul_of_nonneg_right hlt hunit.le
          linarith
  have hround : nearest (scaled num den x.exponent).1 (scaled num den x.exponent).2 =
      x.mantissa := by
    refine nearest_eq (scaled_pos num hd _) ?_ ?_ fun ho => ?_
    · rwa [hscaled, ← mul_div_assoc, le_div_iff₀ hunit]
    · rw [hscaled, ← mul_div_assoc, div_le_iff₀ hunit]
      linarith
    · rw [hscaled, ← mul_div_assoc, lt_div_iff₀ hunit, div_lt_iff₀ hunit]
      exact hodd ho
  have hbound : x.mantissa ≠ mantissaBound := hx.mantissa.ne
  rw [ofRatio?_eq hn he hround, if_neg hbound, if_neg (by have := hx.greatest; omega)]

/-- Just below a power of two the fraction is rounded at the exponent below, and carries. -/
theorem ofRatio?_of_near_below (hx : x.Canonical) (hn : 0 < num) (hd : 0 < den)
    (h : x.Near (num / den)) (hp : x.AtPower)
    (hbelow : (num : ℚ) / den < x.mantissa * 2 ^ x.exponent) :
    ofRatio? x.negative num den = some x := by
  obtain ⟨hm, hne⟩ := hp
  have hunit : (0 : ℚ) < 2 ^ (x.exponent - 1) := by positivity
  have hdouble : (2 : ℚ) ^ x.exponent = 2 ^ (x.exponent - 1) * 2 := by
    rw [zpow_sub_one₀ (by norm_num)]
    field_simp
  have hscaled := scaled_eq num hd (x.exponent - 1)
  have hlow := h.low
  rw [if_pos ⟨hm, hne⟩] at hlow
  rw [hm, hdouble] at hlow hbelow
  norm_num at hlow hbelow
  have hleast := hx.least
  have he : exponentFor num den = x.exponent - 1 := by
    refine exponentFor_eq hn hd (by omega) ?_ (.inr ?_)
    · norm_num
      linarith
    · norm_num
      linarith
  have hround : nearest (scaled num den (x.exponent - 1)).1 (scaled num den (x.exponent - 1)).2 =
      mantissaBound := by
    refine nearest_eq (scaled_pos num hd _) ?_ ?_ fun ho => absurd ho (by decide)
    · rw [hscaled, ← mul_div_assoc, le_div_iff₀ hunit]
      norm_num [mantissaBound]
      linarith
    · rw [hscaled, ← mul_div_assoc, div_le_iff₀ hunit]
      norm_num [mantissaBound]
      linarith
  have hcarry : mantissaBound / 2 = x.mantissa := by
    rw [hm]
    rfl
  rw [ofRatio?_eq hn he hround, if_pos rfl, hcarry, Int.sub_add_cancel,
    if_neg (by have := hx.greatest; omega)]

/-- A fraction rounds to the number that it lies near to. -/
theorem ofRatio?_of_near (hx : x.Canonical) (hn : 0 < num) (hd : 0 < den)
    (h : x.Near (num / den)) : ofRatio? x.negative num den = some x := by
  by_cases hbelow : x.AtPower ∧ (num : ℚ) / den < x.mantissa * 2 ^ x.exponent
  · exact ofRatio?_of_near_below hx hn hd h hbelow.1 hbelow.2
  · exact ofRatio?_of_near_same hx hn hd h fun hp => not_lt.1 fun hlt => hbelow ⟨hp, hlt⟩

end

end InferenceRecorder.Numeral.Binary64
