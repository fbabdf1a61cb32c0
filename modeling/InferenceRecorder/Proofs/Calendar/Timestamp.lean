import InferenceRecorder.Calendar.Timestamp
import InferenceRecorder.Proofs.Numeral.Digits

/-!
Instants written and read back. Every part is written with so many digits that its reader stops
where the next part begins: `read?_write`.
-/
namespace InferenceRecorder.Timestamp

open Numeral (decimal ofDecimal zeros)
open Text (isSpace skipSpace)

theorem isSpace_of_isDigit {c : Char} (h : c.isDigit = true) : isSpace c = false := by
  have hn : 48 ≤ c.toNat ∧ c.toNat ≤ 57 := by
    simpa [Char.isDigit, UInt32.le_iff_toNat_le] using h
  simp [isSpace]
  omega

theorem isDigit_of_mem_padded {width n : Nat} {c : Char} (h : c ∈ padded width n) :
    c.isDigit = true := by
  rcases List.mem_append.1 h with h | h
  · rw [List.eq_of_mem_replicate h]
    rfl
  · exact Numeral.isDigit_of_mem_decimal h

theorem padded_ne_nil (width n : Nat) : padded width n ≠ [] := by
  simp [padded, Numeral.decimal_ne_nil]

theorem ofDecimal_padded (width n : Nat) : ofDecimal (padded width n) = n := by
  rw [padded, ← zeros, Numeral.ofDecimal_zeros_append, Numeral.ofDecimal_decimal]

theorem length_padded {width n : Nat} (hw : 0 < width) (h : n < 10 ^ width) :
    (padded width n).length = width := by
  have hle : (decimal n).length ≤ width := Numeral.digitCount_le hw h
  rw [padded, List.length_append, List.length_replicate]
  omega

theorem skipSpace_digits {ds : List Char} (hd : ∀ c ∈ ds, c.isDigit = true) (hne : ds ≠ [])
    (rest : List Char) : skipSpace (ds ++ rest) = ds ++ rest := by
  obtain ⟨c, s, rfl⟩ := List.exists_cons_of_ne_nil hne
  simp [skipSpace, isSpace_of_isDigit (hd c List.mem_cons_self)]

/-- Digits are read up to the width, or up to a character that is none. -/
theorem takeNumber_append {width : Nat} {ds rest : List Char} (hd : ∀ c ∈ ds, c.isDigit = true)
    (hne : ds ≠ []) (hle : ds.length ≤ width)
    (hstop : ds.length = width ∨ ∀ c ∈ rest.head?, c.isDigit = false) :
    takeNumber width (ds ++ rest) = some (ofDecimal ds, rest) := by
  have htake : (ds ++ rest).take width = ds ++ rest.take (width - ds.length) := by
    rw [List.take_append, List.take_of_length_le hle]
  have hhead : ∀ c ∈ (rest.take (width - ds.length)).head?, c.isDigit = false := by
    rcases hstop with rfl | hstop
    · simp
    · cases rest with
      | nil => simp
      | cons c rest => cases width - ds.length <;> simp_all
  have hread := (Numeral.takeWhile_append_stop hd hhead).1
  unfold takeNumber
  rw [htake, hread]
  simp [hne]

theorem takeNumber_padded {width n : Nat} (hw : 0 < width) (h : n < 10 ^ width)
    (rest : List Char) : takeNumber width (padded width n ++ rest) = some (n, rest) := by
  have hl := length_padded hw h
  rw [takeNumber_append (fun _ => isDigit_of_mem_padded) (padded_ne_nil width n) hl.le (.inl hl),
    ofDecimal_padded]

theorem takeTwo_padded {n : Nat} (h : n < 100) (rest : List Char) :
    takeTwo (padded 2 n ++ rest) = some (n, rest) := by
  rw [takeTwo, skipSpace_digits (fun _ => isDigit_of_mem_padded) (padded_ne_nil 2 n)]
  exact takeNumber_padded (by decide) h rest

/-- A signed year has as many digits as it needs, and ends where the month begins. -/
theorem takeNumber_signed (n : Nat) {rest : List Char} (hr : ∀ c ∈ rest.head?, c.isDigit = false) :
    takeNumber (padded 4 n ++ rest).length (padded 4 n ++ rest) = some (n, rest) := by
  rw [takeNumber_append (fun _ => isDigit_of_mem_padded) (padded_ne_nil 4 n) (by simp) (.inr hr),
    ofDecimal_padded]

theorem takeYear_digits {ds rest : List Char} (hd : ∀ c ∈ ds, c.isDigit = true) (hne : ds ≠ []) :
    takeYear (ds ++ rest) = (takeNumber 4 (ds ++ rest)).map fun (n, s) => ((n : Int), s) := by
  obtain ⟨c, ds, rfl⟩ := List.exists_cons_of_ne_nil hne
  have hc := hd c List.mem_cons_self
  unfold takeYear
  rw [skipSpace_digits hd hne, List.cons_append]
  split
  next heq =>
    cases heq
    cases hc
  next heq =>
    cases heq
    cases hc
  next => rfl

theorem takeYear_writeYear (year : Int) {rest : List Char}
    (hr : ∀ c ∈ rest.head?, c.isDigit = false) :
    takeYear (writeYear year ++ rest) = some (year, rest) := by
  have hsigned := takeNumber_signed year.natAbs hr
  unfold writeYear
  split_ifs with hfour hneg
  · rw [takeYear_digits (fun _ => isDigit_of_mem_padded) (padded_ne_nil 4 _),
      takeNumber_padded (by decide) (by omega)]
    simp [hfour.1]
  · change (takeNumber (padded 4 year.natAbs ++ rest).length (padded 4 year.natAbs ++ rest)).map
      (fun (n, s) => (-(n : Int), s)) = _
    rw [hsigned, Option.map_some]
    exact congrArg (fun y => some (y, rest)) (by omega)
  · change (takeNumber (padded 4 year.natAbs ++ rest).length (padded 4 year.natAbs ++ rest)).map
      (fun (n, s) => ((n : Int), s)) = _
    rw [hsigned, Option.map_some]
    exact congrArg (fun y => some (y, rest)) (by omega)

theorem takeFraction_padded {width n : Nat} (hw : 0 < width) (hle : width ≤ 9)
    (h : n < 10 ^ width) : takeFraction ('.' :: (padded width n ++ ['Z'])) =
      some (n * 10 ^ (9 - width), ['Z']) := by
  have hl := length_padded hw h
  have hread : takeNumber 9 (padded width n ++ ['Z']) = some (n, ['Z']) := by
    rw [takeNumber_append (fun _ => isDigit_of_mem_padded) (padded_ne_nil width n) (hl.trans_le hle)
      (.inr (by simp)), ofDecimal_padded]
  simp [takeFraction, hread, hl]

theorem takeFraction_writeFraction {nano : Nat} (h : nano < 10 ^ 9) :
    takeFraction (writeFraction nano ++ ['Z']) = some (nano, ['Z']) := by
  unfold writeFraction
  split_ifs with h0 h3 h6
  · rw [h0]
    rfl
  · rw [List.cons_append, takeFraction_padded (by decide) (by decide) (by omega)]
    rw [show nano / 1000000 * 10 ^ (9 - 3) = nano by omega]
  · rw [List.cons_append, takeFraction_padded (by decide) (by decide) (by omega)]
    rw [show nano / 1000 * 10 ^ (9 - 6) = nano by omega]
  · rw [List.cons_append, takeFraction_padded (by decide) (by decide) h, Nat.sub_self, pow_zero,
      mul_one]

theorem addMinutes_zero {t : Instant} (hh : t.hour < 24) (hm : t.minute < 60) :
    t.addMinutes 0 = t := by
  have hpos : ¬(t.hour : Int) * 60 + t.minute + 0 < 0 := by omega
  have hday : (t.hour : Int) * 60 + t.minute + 0 < 1440 := by omega
  have hofDay : (((t.hour : Int) * 60 + t.minute + 0) % 1440).toNat = t.hour * 60 + t.minute := by
    omega
  have hhour : (t.hour * 60 + t.minute) / 60 = t.hour := by omega
  have hminute : (t.hour * 60 + t.minute) % 60 = t.minute := by omega
  simp only [Instant.addMinutes, if_neg hpos, if_pos hday, hofDay, hhour, hminute]

theorem daysInMonth_le (year : Int) (month : Nat) : Instant.daysInMonth year month ≤ 31 := by
  unfold Instant.daysInMonth
  split_ifs <;> decide

theorem takeMark_cons {mark : Char} (h : isSpace mark = false) (s : List Char) :
    takeMark mark (mark :: s) = some s := by
  simp [takeMark, skipSpace, h, Text.takeMark, Text.takeIf]

/-- Every instant is read back from its text. -/
theorem read?_write {t : Instant} (h : t.isValid = true) : read? (write t) = some t := by
  have hvalid := h
  simp only [Instant.isValid, Bool.and_eq_true, decide_eq_true_eq] at h
  obtain ⟨⟨⟨⟨⟨⟨⟨⟨⟨-, -⟩, -⟩, hmonth⟩, -⟩, hday⟩, hhour⟩, hminute⟩, hsecond⟩, hnano⟩ := h
  have hdays := daysInMonth_le t.year t.month
  have hfraction := takeFraction_writeFraction hnano
  rw [write]
  simp only [List.append_assoc, List.cons_append]
  -- part by part; each is read to its end and the next one begins
  unfold read?
  refine Option.bind_eq_some_iff.2 ⟨_, takeYear_writeYear t.year (by simp), ?_⟩
  refine Option.bind_eq_some_iff.2 ⟨_, takeMark_cons rfl _, ?_⟩
  refine Option.bind_eq_some_iff.2 ⟨_, takeTwo_padded (by omega) _, ?_⟩
  refine Option.bind_eq_some_iff.2 ⟨_, takeMark_cons rfl _, ?_⟩
  refine Option.bind_eq_some_iff.2 ⟨_, takeTwo_padded (by omega) _, ?_⟩
  refine Option.bind_eq_some_iff.2 ⟨_, rfl, ?_⟩
  refine Option.bind_eq_some_iff.2 ⟨_, takeTwo_padded (by omega) _, ?_⟩
  refine Option.bind_eq_some_iff.2 ⟨_, takeMark_cons rfl _, ?_⟩
  refine Option.bind_eq_some_iff.2 ⟨_, takeTwo_padded (by omega) _, ?_⟩
  refine Option.bind_eq_some_iff.2 ⟨_, takeMark_cons rfl _, ?_⟩
  refine Option.bind_eq_some_iff.2 ⟨_, takeTwo_padded (by omega) _, ?_⟩
  refine Option.bind_eq_some_iff.2 ⟨_, hfraction, ?_⟩
  refine Option.bind_eq_some_iff.2 ⟨_, rfl, ?_⟩
  have hminutes : t.addMinutes (-0) = t := addMinutes_zero hhour hminute
  change (if ((skipSpace []).isEmpty && t.isValid && isOffset 0 &&
    (t.addMinutes (-0)).isValid) = true then some (t.addMinutes (-0)) else none) = some t
  rw [hminutes, hvalid]
  rfl

end InferenceRecorder.Timestamp
