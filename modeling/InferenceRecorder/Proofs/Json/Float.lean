import InferenceRecorder.Json.Fields
import InferenceRecorder.Proofs.Json.Number
import InferenceRecorder.Proofs.Numeral.Shortest
import Mathlib.Data.List.TakeWhile

/-!
Floating-point numbers as they are written. The text of a number spells a decimal that lies nearer
to it than to any other one, so that whoever reads it exactly and rounds once gets the number back:
`writeFloat_spec`.
-/
namespace InferenceRecorder

open Numeral (Binary64 Decimal DecimalStyle decimal ofDecimal zeros)

namespace Json

def NumberParts.nearest? (parts : NumberParts) : Option Binary64 :=
  let fraction := parts.fraction.getD []
  let n := ofDecimal (parts.whole ++ fraction)
  let power := parts.power - fraction.length
  if 0 ≤ power then Binary64.ofRatio? parts.negative (n * 10 ^ power.toNat) 1
  else Binary64.ofRatio? parts.negative n (10 ^ (-power).toNat)

def readNearest (s : Source) : Option Binary64 :=
  if isNumber s then (NumberParts.of s).nearest? else none

def pointed : Option (List Char) → List Char
  | none => []
  | some fraction => '.' :: fraction

inductive PowerText : Int → List Char → Prop
  | none : PowerText 0 []
  | raised (n : Nat) : PowerText n ('e' :: '+' :: decimal n)
  | lowered (n : Nat) : PowerText (-n) ('e' :: '-' :: decimal n)

inductive Spelled : List Char → Nat → Int → Prop
  | mk {whole e : List Char} {fraction : Option (List Char)} {power : Int} :
    IntegerText whole → (∀ f ∈ fraction, SomeDigits f) → PowerText power e →
    Spelled (whole ++ (pointed fraction ++ e)) (ofDecimal (whole ++ fraction.getD []))
      (power - (fraction.getD []).length)

theorem someDigits_decimal (n : Nat) : SomeDigits (decimal n) :=
  ⟨Numeral.decimal_ne_nil n, fun _ => Numeral.isDigit_of_mem_decimal⟩

theorem someDigits_none : ∀ f ∈ (none : Option (List Char)), SomeDigits f := by simp

theorem IntegerText.allDigits {s : List Char} (h : IntegerText s) : AllDigits s := by
  cases h with
  | zero => simp [AllDigits]
  | digits hc _ hs => exact List.forall_mem_cons.2 ⟨hc, hs⟩

theorem PowerText.exponentText {power : Int} {e : List Char} (h : PowerText power e) :
    ExponentText e := by
  cases h with
  | none => exact .none
  | raised n => exact .some (.inl rfl) .plus (someDigits_decimal n)
  | lowered n => exact .some (.inl rfl) .minus (someDigits_decimal n)

theorem fractionText_pointed {fraction : Option (List Char)} (h : ∀ f ∈ fraction, SomeDigits f) :
    FractionText (pointed fraction) := by
  cases fraction with
  | none => exact .none
  | some f => exact .some (h f rfl)

/-- With the sign before it, a lexeme is a number. -/
theorem Spelled.numberText {s : List Char} {n : Nat} {power : Int} (h : Spelled s n power)
    (negative : Bool) : NumberText (if negative then '-' :: s else s) := by
  obtain ⟨hw, hf, he⟩ := h
  cases negative with
  | true => exact .negative hw ⟨_, _, rfl, fractionText_pointed hf, he.exponentText⟩
  | false => exact .plain hw ⟨_, _, rfl, fractionText_pointed hf, he.exponentText⟩

/-- A lexeme is cut behind its sign. -/
theorem of_signed (negative : Bool) {s : List Char} (hs : ∀ c ∈ s.head?, c ≠ '-') :
    NumberParts.of (if negative then '-' :: s else s) =
      ⟨negative, s.takeWhile Char.isDigit,
        match s.dropWhile Char.isDigit with
        | '.' :: s => some (s.takeWhile Char.isDigit)
        | _ => none,
        exponentPart (s.dropWhile fun c => !isExponentMark c)⟩ := by
  cases negative with
  | true => rfl
  | false =>
    cases s with
    | nil => rfl
    | cons c s =>
      simp only [NumberParts.of, Bool.false_eq_true, if_false]
      split
      next heq => exact absurd (List.cons.inj heq).1 (hs c rfl)
      next => rfl

theorem not_digit_pointed (fraction : Option (List Char)) {power : Int} {e : List Char}
    (he : PowerText power e) : ∀ c ∈ (pointed fraction ++ e).head?, c.isDigit = false := by
  cases fraction with
  | none => cases he <;> simp [pointed]
  | some f => simp [pointed]

theorem mark_or_nil {power : Int} {e : List Char} (he : PowerText power e) :
    ∀ c ∈ e.head?, (!isExponentMark c) = false := by
  cases he <;> simp [isExponentMark]

theorem not_mark_of_isDigit {c : Char} (h : c.isDigit = true) : (!isExponentMark c) = true := by
  rw [Bool.not_eq_true', Bool.eq_false_iff]
  intro hm
  simp only [isExponentMark, Bool.or_eq_true, beq_iff_eq] at hm
  rw [not_digit_of_exponent hm] at h
  cases h

theorem of_parts (negative : Bool) {whole e : List Char} {fraction : Option (List Char)}
    {power : Int} (hw : IntegerText whole) (hf : ∀ f ∈ fraction, SomeDigits f)
    (he : PowerText power e) :
    NumberParts.of (if negative then '-' :: (whole ++ (pointed fraction ++ e))
        else whole ++ (pointed fraction ++ e)) =
      ⟨negative, whole, fraction, exponentPart e⟩ := by
  obtain ⟨hdigits, hrest⟩ :=
    Numeral.takeWhile_append_stop hw.allDigits (not_digit_pointed fraction he)
  -- neither a digit nor the point is taken for the mark of the exponent
  have hexponent :
      (whole ++ (pointed fraction ++ e)).dropWhile (fun c => !isExponentMark c) = e := by
    rw [← List.append_assoc]
    refine (Numeral.takeWhile_append_stop (fun c hc => ?_) (mark_or_nil he)).2
    rcases List.mem_append.1 hc with hc | hc
    · exact not_mark_of_isDigit (hw.allDigits c hc)
    · cases fraction with
      | none => cases hc
      | some f =>
        rcases List.mem_cons.1 hc with rfl | hc
        · rfl
        · exact not_mark_of_isDigit ((hf f rfl).2 c hc)
  have hhead : ∀ c ∈ (whole ++ (pointed fraction ++ e)).head?, c ≠ '-' := by
    obtain ⟨c, s, rfl, hc⟩ := hw.head
    intro d hd hminus
    obtain rfl : c = d := Option.some.inj hd
    rw [hminus] at hc
    cases hc
  rw [of_signed negative hhead, hdigits, hrest, hexponent]
  congr 1
  cases fraction with
  | none => cases he <;> rfl
  | some f =>
    have hstop : ∀ c ∈ e.head?, c.isDigit = false := by
      cases he <;> simp
    simp only [pointed, List.cons_append]
    rw [(Numeral.takeWhile_append_stop (hf f rfl).2 hstop).1]

theorem PowerText.power {power : Int} {e : List Char} (h : PowerText power e) (negative : Bool)
    (whole : List Char) (fraction : Option (List Char)) :
    (NumberParts.mk negative whole fraction (exponentPart e)).power = power := by
  cases h with
  | none => rfl
  | raised n => simp [exponentPart, NumberParts.power, Numeral.ofDecimal_decimal]
  | lowered n => simp [exponentPart, NumberParts.power, Numeral.ofDecimal_decimal]

theorem nearest?_eq {parts : NumberParts} {x : Binary64} (hx : x.Canonical)
    (hsign : parts.negative = x.negative)
    (hpos : 0 < ofDecimal (parts.whole ++ parts.fraction.getD []))
    (hnear : x.Near (ofDecimal (parts.whole ++ parts.fraction.getD []) *
      10 ^ (parts.power - (parts.fraction.getD []).length))) :
    parts.nearest? = some x := by
  unfold NumberParts.nearest?
  dsimp only
  rw [hsign]
  generalize ofDecimal (parts.whole ++ parts.fraction.getD []) = n at *
  generalize parts.power - ((parts.fraction.getD []).length : Int) = power at *
  split_ifs with hp
  · obtain ⟨k, rfl⟩ := Int.eq_ofNat_of_zero_le hp
    refine Binary64.ofRatio?_of_near hx (by positivity) (by decide) ?_
    simpa using hnear
  · obtain ⟨k, hk⟩ := Int.eq_ofNat_of_zero_le (a := -power) (by omega)
    obtain rfl : power = -(k : Int) := by omega
    refine Binary64.ofRatio?_of_near hx hpos (by positivity) ?_
    simpa [div_eq_mul_inv] using hnear

/-- A lexeme that spells a decimal near to a number is read as this number. -/
theorem Spelled.readNearest {s : List Char} {n : Nat} {power : Int} (h : Spelled s n power)
    {x : Binary64} (hx : x.Canonical) (hn : 0 < n) (hnear : x.Near (n * 10 ^ power)) :
    readNearest (if x.negative then '-' :: s else s) = some x := by
  obtain ⟨hw, hf, he⟩ := h
  rename_i whole e fraction power
  have hnumber : isNumber (if x.negative then '-' :: (whole ++ (pointed fraction ++ e))
      else whole ++ (pointed fraction ++ e)) = true := by
    obtain ⟨c, s, rfl, hc⟩ := hw.head
    cases x.negative with
    | true => rfl
    | false =>
      simp only [Bool.false_eq_true, if_false, List.cons_append, isNumber]
      split <;> simp_all
  rw [Json.readNearest, if_pos hnumber, of_parts x.negative hw hf he]
  refine nearest?_eq hx rfl hn ?_
  rw [he.power]
  exact hnear

structure Significant (digits : List Char) : Prop where
  all : AllDigits digits
  head : ∃ c s, digits = c :: s ∧ c ≠ '0'

theorem Significant.integerText {digits more : List Char} (h : Significant digits)
    (hm : AllDigits more) : IntegerText (digits ++ more) := by
  obtain ⟨c, s, rfl, hc⟩ := h.head
  obtain ⟨hdigit, hs⟩ := List.forall_mem_cons.1 h.all
  exact .digits hdigit hc fun x hx => (List.mem_append.1 hx).elim (hs x) (hm x)

theorem allDigits_zeros (n : Nat) : AllDigits (zeros n) := fun c hc => by
  rw [List.eq_of_mem_replicate hc]
  rfl

def SpellsAt (s digits : List Char) (power : Int) : Prop :=
  ∃ n q, Spelled s n q ∧ 0 < n ∧
    (n : ℚ) * 10 ^ q = ofDecimal digits * 10 ^ (power + 1 - digits.length)

theorem spellsAt_below {digits : List Char} (h : Significant digits) (hpos : 0 < ofDecimal digits)
    {power : Int} (hp : power < 0) :
    SpellsAt ('0' :: '.' :: (zeros (power.natAbs - 1) ++ digits)) digits power := by
  have hf : ∀ f ∈ some (zeros (power.natAbs - 1) ++ digits), SomeDigits f := by
    rintro _ ⟨⟩
    obtain ⟨c, s, hcs, -⟩ := h.head
    refine ⟨by simp [hcs], fun x hx => ?_⟩
    exact (List.mem_append.1 hx).elim (allDigits_zeros _ x) (h.all x)
  have hspelled := Spelled.mk .zero hf .none
  have hn : ofDecimal (['0'] ++ (zeros (power.natAbs - 1) ++ digits)) = ofDecimal digits := by
    rw [show ['0'] = zeros 1 from rfl, Numeral.ofDecimal_zeros_append,
      Numeral.ofDecimal_zeros_append]
  rw [Option.getD_some, hn, pointed, List.append_nil] at hspelled
  refine ⟨_, _, hspelled, hpos, ?_⟩
  congr 2
  simp only [List.length_append, zeros, List.length_replicate]
  omega

theorem spellsAt_whole {digits : List Char} (h : Significant digits) (hpos : 0 < ofDecimal digits)
    {power : Int} (hp : 0 ≤ power) (hlen : digits.length ≤ power.toNat + 1) :
    SpellsAt (digits ++ zeros (power.toNat + 1 - digits.length) ++ ['.', '0']) digits power := by
  have hf : ∀ f ∈ some ['0'], SomeDigits f := by
    rintro _ ⟨⟩
    exact ⟨by simp, by simp [AllDigits]⟩
  have hspelled := Spelled.mk (h.integerText (allDigits_zeros (power.toNat + 1 - digits.length))) hf
    .none
  have hn : ofDecimal (digits ++ zeros (power.toNat + 1 - digits.length) ++ ['0']) =
      ofDecimal digits * 10 ^ (power.toNat + 1 - digits.length + 1) := by
    rw [show ['0'] = zeros 1 from rfl, Numeral.ofDecimal_append_zeros,
      Numeral.ofDecimal_append_zeros, mul_assoc, ← pow_add]
  rw [Option.getD_some, hn, pointed, List.append_nil] at hspelled
  refine ⟨_, _, hspelled, by positivity, ?_⟩
  rw [Nat.cast_mul, Nat.cast_pow, Nat.cast_ofNat, mul_assoc, ← zpow_natCast,
    ← zpow_add₀ (by norm_num)]
  congr 2
  push_cast
  simp only [List.length_singleton]
  omega

/-- A point somewhere behind the first digit. -/
theorem spellsAt_point {digits : List Char} (h : Significant digits) (hpos : 0 < ofDecimal digits)
    {k : Nat} (hk : 0 < k) (hlen : k < digits.length) {power : Int} {e : List Char}
    (he : PowerText power e) :
    SpellsAt (digits.take k ++ ('.' :: digits.drop k ++ e)) digits (power + (k - 1 : Nat)) := by
  obtain ⟨c, s, rfl, hc⟩ := h.head
  obtain ⟨k, rfl⟩ := Nat.exists_eq_add_one.2 hk
  obtain ⟨hdigit, hs⟩ := List.forall_mem_cons.1 h.all
  have hwhole : IntegerText ((c :: s).take (k + 1)) :=
    .digits hdigit hc fun x hx => hs x (List.mem_of_mem_take hx)
  have hf : ∀ f ∈ some ((c :: s).drop (k + 1)), SomeDigits f := by
    rintro _ ⟨⟩
    refine ⟨fun hnil => ?_, fun x hx => h.all x (List.mem_of_mem_drop hx)⟩
    exact absurd (List.drop_eq_nil_iff.1 hnil) (not_le.2 hlen)
  have hspelled := Spelled.mk hwhole hf he
  rw [Option.getD_some, List.take_append_drop] at hspelled
  refine ⟨_, _, hspelled, hpos, ?_⟩
  congr 2
  rw [List.length_drop, Nat.cast_sub hlen.le]
  push_cast
  omega

/-- A single digit before the exponent. -/
theorem spellsAt_digit {c : Char} (hdigit : c.isDigit = true) (hc : c ≠ '0')
    (hpos : 0 < ofDecimal [c]) {power : Int} {e : List Char} (he : PowerText power e) :
    SpellsAt (c :: e) [c] power := by
  have hwhole : IntegerText [c] := .digits hdigit hc (by simp [AllDigits])
  have hspelled := Spelled.mk hwhole someDigits_none he
  refine ⟨_, _, hspelled, by simpa using hpos, ?_⟩
  simp

/-- Both ways of writing spell the digits. -/
theorem spellsAt_writePlain {digits : List Char} (h : Significant digits)
    (hpos : 0 < ofDecimal digits) (power : Int) :
    SpellsAt (Numeral.writePlain digits power) digits power := by
  unfold Numeral.writePlain
  dsimp only
  split_ifs with hp hlen
  · exact spellsAt_below h hpos hp
  · exact spellsAt_whole h hpos (not_lt.1 hp) hlen
  · have hpoint := spellsAt_point h hpos (Nat.succ_pos power.toNat) (not_le.1 hlen) .none
    rw [List.append_nil] at hpoint
    have hpower : (0 : Int) + (power.toNat.succ - 1 : Nat) = power := by omega
    rwa [hpower] at hpoint

theorem spellsAt_writeExponent {digits : List Char} (h : Significant digits)
    (hpos : 0 < ofDecimal digits) (power : Int) :
    SpellsAt (Numeral.writeExponent .standard digits power) digits power := by
  have he : PowerText power
      ('e' :: ((if power < 0 then ['-'] else ['+']) ++ decimal power.natAbs)) := by
    split_ifs with hp
    · have hneg := PowerText.lowered power.natAbs
      rwa [show -(power.natAbs : Int) = power by omega] at hneg
    · have hraised := PowerText.raised power.natAbs
      rwa [show (power.natAbs : Int) = power by omega] at hraised
  obtain ⟨c, s, rfl, hc⟩ := h.head
  have hdigit := h.all c List.mem_cons_self
  unfold Numeral.writeExponent
  cases s with
  | nil => exact spellsAt_digit hdigit hc hpos he
  | cons d s =>
    have hpoint := spellsAt_point h hpos Nat.one_pos (by simp) he
    rw [Nat.sub_self, Nat.cast_zero, add_zero] at hpoint
    simpa [DecimalStyle.standard] using hpoint

/-- Zeros at the end of the digits are left away. -/
theorem decimal_eq_scientific (d : Decimal) :
    ∃ k, decimal d.digits = d.scientific.1 ++ zeros k := by
  have hsplit := List.takeWhile_append_dropWhile (p := (· == '0')) (l := (decimal d.digits).reverse)
  have hzeros : ∀ c ∈ (decimal d.digits).reverse.takeWhile (· == '0'), c = '0' := fun c hc => by
    simpa using List.mem_takeWhile_imp hc
  rw [List.eq_replicate_of_mem hzeros] at hsplit
  have hback := congrArg List.reverse hsplit
  rw [List.reverse_append, List.reverse_replicate, List.reverse_reverse] at hback
  exact ⟨_, hback.symm⟩

theorem significant_scientific {d : Decimal} (hd : 0 < d.digits) : Significant d.scientific.1 := by
  obtain ⟨k, hk⟩ := decimal_eq_scientific d
  obtain ⟨c, s, hs, hc⟩ := Numeral.decimal_eq_cons hd
  have hall : AllDigits (decimal d.digits) := fun _ => Numeral.isDigit_of_mem_decimal
  rw [hk] at hs hall
  refine ⟨fun x hx => hall x (List.mem_append_left _ hx), ?_⟩
  cases hsig : d.scientific.1 with
  | nil =>
    rw [hsig, List.nil_append] at hs
    have hmem : c ∈ zeros k := hs ▸ List.mem_cons_self
    exact absurd (List.eq_of_mem_replicate hmem) hc
  | cons c' s' =>
    rw [hsig] at hs
    exact ⟨c', s', rfl, (List.cons.inj hs).1 ▸ hc⟩

theorem value_scientific {d : Decimal} (hd : 0 < d.digits) :
    0 < ofDecimal d.scientific.1 ∧
      (ofDecimal d.scientific.1 : ℚ) * 10 ^ (d.scientific.2 + 1 - d.scientific.1.length) =
        d.digits * 10 ^ d.power := by
  obtain ⟨k, hk⟩ := decimal_eq_scientific d
  have hvalue : d.digits = ofDecimal d.scientific.1 * 10 ^ k := by
    rw [← Numeral.ofDecimal_append_zeros, ← hk, Numeral.ofDecimal_decimal]
  have hlength : (decimal d.digits).length = d.scientific.1.length + k := by
    rw [hk, List.length_append, zeros, List.length_replicate]
  refine ⟨Nat.pos_of_ne_zero fun h => ?_, ?_⟩
  · rw [h, Nat.zero_mul] at hvalue
    omega
  · have hpower : d.scientific.2 + 1 - d.scientific.1.length = k + d.power := by
      have : d.scientific.2 = d.power + (decimal d.digits).length - 1 := rfl
      omega
    rw [hpower, zpow_add₀ (by norm_num), zpow_natCast, ← mul_assoc]
    congr 1
    exact_mod_cast hvalue.symm

/-- A decimal is spelled as it is. -/
theorem spelled_write {d : Decimal} (hd : 0 < d.digits) :
    ∃ n q, Spelled (d.write .standard) n q ∧ 0 < n ∧
      (n : ℚ) * 10 ^ q = d.digits * 10 ^ d.power := by
  obtain ⟨hpos, hvalue⟩ := value_scientific hd
  have hsig := significant_scientific hd
  have hspells : SpellsAt (d.write .standard) d.scientific.1 d.scientific.2 := by
    unfold Decimal.write
    dsimp only
    split_ifs
    · exact spellsAt_writePlain hsig hpos _
    · exact spellsAt_writeExponent hsig hpos _
  obtain ⟨n, q, hs, hn, hq⟩ := hspells
  exact ⟨n, q, hs, hn, hq.trans hvalue⟩

theorem spelled_zero : Spelled ['0', '.', '0'] 0 (-1) := by
  have hf : ∀ f ∈ some ['0'], SomeDigits f := by
    rintro _ ⟨⟩
    exact ⟨by simp, by simp [AllDigits]⟩
  exact .mk .zero hf .none

/-- The text of a number is a number lexeme, and rounding what it spells gives the number back. -/
theorem writeFloat_spec {x : Binary64} (hx : x.Canonical) :
    NumberText (writeFloat x) ∧ readNearest (writeFloat x) = some x := by
  by_cases hm : x.mantissa = 0
  · have hshort : Numeral.shortest? x = none := by simp [Numeral.shortest?, Binary64.isZero, hm]
    have hwrite : writeFloat x =
        if x.negative then '-' :: ['0', '.', '0'] else ['0', '.', '0'] := by
      simp only [writeFloat, Binary64.write, hshort]
    obtain ⟨negative, mantissa, exponent⟩ := x
    obtain rfl : mantissa = 0 := hm
    obtain rfl : exponent = Binary64.leastExponent := hx.normal.resolve_right (by simp)
    rw [hwrite]
    refine ⟨spelled_zero.numberText _, ?_⟩
    cases negative <;> rfl
  · obtain ⟨d, hshort, hd, hnear⟩ := Binary64.shortest?_near hx hm
    obtain ⟨n, q, hs, hn, hq⟩ := spelled_write hd
    have hwrite : writeFloat x =
        if x.negative then '-' :: d.write .standard else d.write .standard := by
      simp only [writeFloat, Binary64.write, hshort]
    rw [hwrite]
    exact ⟨hs.numberText _, hs.readNearest hx hn (by rwa [hq])⟩

end Json
end InferenceRecorder
