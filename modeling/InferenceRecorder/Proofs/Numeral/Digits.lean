import InferenceRecorder.Numeral.Shortest
import Mathlib.Tactic.IntervalCases
import Mathlib.Tactic.Ring

/-!
Numbers and their decimal digits: which characters stand in them, how many there are, and what
digits spell when they are put together.
-/
namespace InferenceRecorder.Numeral

theorem isDigit_of_mem_decimal {n : Nat} {c : Char} (h : c ∈ decimal n) : c.isDigit = true :=
  Nat.isDigit_of_mem_toDigits (by decide) (by decide) h

theorem not_mem_decimal {c : Char} (hc : c.isDigit = false) (n : Nat) : c ∉ decimal n := by
  intro hm
  have hd := isDigit_of_mem_decimal hm
  rw [hc] at hd
  exact Bool.false_ne_true hd

theorem decimal_inj {m n : Nat} (h : decimal m = decimal n) : m = n := by
  rw [← ofDecimal_decimal m, h, ofDecimal_decimal]

theorem signedDecimal_inj {i j : Int} (h : signedDecimal i = signedDecimal j) : i = j := by
  have hd := not_mem_decimal (c := '-') rfl
  unfold signedDecimal at h
  by_cases hi : i < 0 <;> by_cases hj : j < 0
  · simp only [hi, hj, if_true, List.cons.injEq, true_and] at h
    have := decimal_inj h
    omega
  · simp only [hi, hj, if_true, if_false] at h
    exact absurd (h ▸ List.mem_cons_self) (hd _)
  · simp only [hi, hj, if_true, if_false] at h
    exact absurd (h ▸ List.mem_cons_self) (hd _)
  · simp only [hi, hj, if_false] at h
    have := decimal_inj h
    omega

theorem underscore_not_mem_signedDecimal (i : Int) : '_' ∉ signedDecimal i := by
  have hd := not_mem_decimal (c := '_') rfl i.natAbs
  unfold signedDecimal
  split
  · simpa using hd
  · exact hd

theorem decimal_ne_nil (n : Nat) : decimal n ≠ [] := Nat.toDigits_ne_nil

theorem digitCount_pos (n : Nat) : 0 < digitCount n := Nat.length_toDigits_pos

theorem digitCount_le {n k : Nat} (hk : 0 < k) (h : n < 10 ^ k) : digitCount n ≤ k :=
  (Nat.length_toDigits_le_iff (by decide) hk).2 h

theorem lt_pow_digitCount (n : Nat) : n < 10 ^ digitCount n :=
  (Nat.length_toDigits_le_iff (by decide) (digitCount_pos n)).1 le_rfl

theorem pow_le_of_digitCount {n : Nat} (hn : 0 < n) : 10 ^ (digitCount n - 1) ≤ n := by
  have hpos := digitCount_pos n
  by_cases hone : digitCount n = 1
  · rw [hone]
    exact hn
  · by_contra hlt
    have := digitCount_le (k := digitCount n - 1) (by omega) (not_le.1 hlt)
    omega

/-- No number but zero starts with a zero. -/
theorem decimal_eq_cons {n : Nat} (hn : 0 < n) : ∃ c s, decimal n = c :: s ∧ c ≠ '0' := by
  induction n using Nat.strongRecOn with
  | ind n ih =>
    by_cases hlt : n < 10
    · refine ⟨n.digitChar, [], Nat.toDigits_of_lt_base hlt, ?_⟩
      interval_cases n <;> decide
    · obtain ⟨c, s, hs, hc⟩ := ih (n / 10) (by omega) (by omega)
      refine ⟨c, s ++ [(n % 10).digitChar], ?_, hc⟩
      have hn := Nat.toDigits_of_base_le (b := 10) (by decide) (not_lt.1 hlt)
      rw [decimal] at hs ⊢
      rw [hn, hs, List.cons_append]

theorem ofDecimal_append (s t : List Char) :
    ofDecimal (s ++ t) = ofDecimal s * 10 ^ t.length + ofDecimal t := by
  rw [ofDecimal, Nat.ofDigitChars_append, Nat.ofDigitChars_eq_ofDigitChars_zero, mul_comm]
  rfl

theorem ofDecimal_zeros (n : Nat) : ofDecimal (zeros n) = 0 := by
  rw [ofDecimal, zeros, Nat.ofDigitChars_replicate_zero, mul_zero]

theorem ofDecimal_zeros_append (n : Nat) (s : List Char) :
    ofDecimal (zeros n ++ s) = ofDecimal s := by
  rw [ofDecimal_append, ofDecimal_zeros, Nat.zero_mul, Nat.zero_add]

theorem ofDecimal_append_zeros (s : List Char) (n : Nat) :
    ofDecimal (s ++ zeros n) = ofDecimal s * 10 ^ n := by
  rw [ofDecimal_append, ofDecimal_zeros, Nat.add_zero, zeros, List.length_replicate]

/-- What is read stops at the first character of another kind. -/
theorem takeWhile_append_stop {p : Char → Bool} {s t : List Char} (hs : ∀ c ∈ s, p c = true)
    (ht : ∀ c ∈ t.head?, p c = false) :
    (s ++ t).takeWhile p = s ∧ (s ++ t).dropWhile p = t := by
  rw [List.takeWhile_append_of_pos hs, List.dropWhile_append_of_pos hs]
  cases t with
  | nil => simp
  | cons c t => simp [ht c rfl]

end InferenceRecorder.Numeral
