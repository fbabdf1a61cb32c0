import InferenceRecorder.Http.Form
import InferenceRecorder.Http.Uri
import InferenceRecorder.Proofs.Json.Quoted
import InferenceRecorder.Proofs.Text.Utf8
import Mathlib.Data.List.Forall2

/-!
Form encoding, as a relation between pairs of texts and a query, and its decoder as the inverse. A
character may be written in several ways, so one list of pairs has many queries; each of them is
decoded to it: `decodeForm_of_queryForm`. The query for one model can always be written so that it
may stand in a target: `queryForm_modelQuery`.
-/
namespace InferenceRecorder.Http

open Json (Written)
open Numeral (hexValue?)

def isReserved (c : Char) : Bool := c == '&' || c == '=' || c == '+' || c == '%' || c == '#'

inductive EscapedByte : UInt8 → List Char → Prop
  | mk {c d : Char} {high low : Nat} : hexValue? c = some high → hexValue? d = some low →
    EscapedByte (UInt8.ofNat high * 16 + UInt8.ofNat low) ['%', c, d]

inductive CharForm : Char → List Char → Prop
  | literal {c : Char} : isReserved c = false → CharForm c [c]
  | blank : CharForm ' ' ['+']
  | escaped {c : Char} {w : List Char} : Written EscapedByte w (String.utf8EncodeChar c) →
    CharForm c w

def TextForm (s : List Char) (text : String) : Prop := Written CharForm s text.toList

def PairForm (pair : String × String) (s : List Char) : Prop :=
  ∃ k v, s = k ++ '=' :: v ∧ TextForm k pair.1 ∧ TextForm v pair.2

def QueryForm (query : List Char) (pairs : List (String × String)) : Prop :=
  ∃ ts, List.Forall₂ PairForm pairs ts ∧ query = ['&'].intercalate ts

/-- A text without reserved characters may stand as it is. -/
theorem textForm_self {s : List Char} (h : s.all (fun c => !isReserved c) = true) :
    TextForm s (String.ofList s) := by
  rw [TextForm, String.toList_ofList]
  induction s with
  | nil => exact .nil
  | cons c s ih =>
    rw [List.all_cons, Bool.and_eq_true, Bool.not_eq_true'] at h
    exact .cons (.literal h.1) (ih h.2)

def bytes (s : List Char) : List UInt8 := s.flatMap String.utf8EncodeChar

theorem bytes_append (s t : List Char) : bytes (s ++ t) = bytes s ++ bytes t := List.flatMap_append

theorem utf8EncodeChar_ascii {c : Char} (h : c.toNat < 128) :
    String.utf8EncodeChar c = [UInt8.ofNat c.toNat] := by
  have hc : c.val.toNat ≤ 0x7f := Nat.le_of_lt_succ h
  unfold String.utf8EncodeChar
  exact if_pos hc

theorem le_of_mem_utf8EncodeChar {c : Char} (h : 128 ≤ c.toNat) :
    ∀ b ∈ String.utf8EncodeChar c, 128 ≤ b.toNat := by
  have hv : c.val.toNat < 0xD800 ∨ 0xDFFF < c.val.toNat ∧ c.val.toNat < 0x110000 := c.valid
  have hc : 128 ≤ c.val.toNat := h
  unfold String.utf8EncodeChar
  generalize c.val.toNat = v at hv hc
  dsimp only
  -- the first byte and those after it all have their highest bit set
  split_ifs <;> simp only [List.forall_mem_cons]
  · omega
  · refine ⟨?_, ?_, nofun⟩ <;> rw [Utf8.toNat_ofNat (by omega)] <;> omega
  · refine ⟨?_, ?_, ?_, nofun⟩ <;> rw [Utf8.toNat_ofNat (by omega)] <;> omega
  · refine ⟨?_, ?_, ?_, ?_, nofun⟩ <;> rw [Utf8.toNat_ofNat (by omega)] <;> omega

/-- An ASCII byte stands for the ASCII character alone. -/
theorem ascii_mem_bytes {c : Char} (hc : c.toNat < 128) {s : List Char} :
    UInt8.ofNat c.toNat ∈ bytes s ↔ c ∈ s := by
  have hn : (UInt8.ofNat c.toNat).toNat = c.toNat := Utf8.toNat_ofNat (by omega)
  constructor
  · intro h
    obtain ⟨d, hd, hb⟩ := List.mem_flatMap.1 h
    by_cases hlt : d.toNat < 128
    · rw [utf8EncodeChar_ascii hlt, List.mem_singleton] at hb
      have heq : c.toNat = d.toNat := by
        rw [← hn, hb, Utf8.toNat_ofNat (by omega)]
      rwa [Char.toNat_inj.1 heq]
    · have := le_of_mem_utf8EncodeChar (Nat.not_lt.1 hlt) _ hb
      omega
  · intro h
    exact List.mem_flatMap.2 ⟨c, h, by simp [utf8EncodeChar_ascii hc]⟩

theorem decodeBytes_cons {b : UInt8} (h : b ≠ percentSign) (s : List UInt8) :
    decodeBytes (b :: s) = (if b = plusSign then 0x20 else b) :: decodeBytes s := by
  match s with
  | [] => rfl
  | [c] => rfl
  | c :: d :: s => rw [decodeBytes, if_neg h]

theorem decodeBytes_plain {w : List UInt8} (h : ∀ b ∈ w, b ≠ percentSign ∧ b ≠ plusSign)
    (s : List UInt8) : decodeBytes (w ++ s) = w ++ decodeBytes s := by
  induction w with
  | nil => rfl
  | cons b w ih =>
    obtain ⟨⟨hpercent, hplus⟩, hw⟩ := List.forall_mem_cons.1 h
    rw [List.cons_append, decodeBytes_cons hpercent, if_neg hplus, ih hw, List.cons_append]

theorem lt_of_hexValue? {c : Char} {n : Nat} (h : hexValue? c = some n) : c.toNat < 128 := by
  unfold hexValue? at h
  split_ifs at h with hdigit hsmall hgreat
  · simp only [Char.isDigit, Bool.and_eq_true, decide_eq_true_eq, UInt32.le_iff_toNat_le] at hdigit
    exact Nat.lt_of_le_of_lt hdigit.2 (by decide)
  · simp only [Bool.and_eq_true, decide_eq_true_eq] at hsmall
    exact Nat.lt_of_le_of_lt hsmall.2 (by decide)
  · simp only [Bool.and_eq_true, decide_eq_true_eq] at hgreat
    exact Nat.lt_of_le_of_lt hgreat.2 (by decide)

theorem hexByte?_ascii : ∀ n < 128,
    hexByte? (UInt8.ofNat n) = (hexValue? (Char.ofNat n)).map UInt8.ofNat := by decide +kernel

theorem hexByte?_of_hexValue? {c : Char} {n : Nat} (h : hexValue? c = some n) :
    hexByte? (UInt8.ofNat c.toNat) = some (UInt8.ofNat n) := by
  rw [hexByte?_ascii _ (lt_of_hexValue? h), Char.ofNat_toNat, h, Option.map_some]

theorem EscapedByte.decode {b : UInt8} {w : List Char} (h : EscapedByte b w) (s : List UInt8) :
    decodeBytes (bytes w ++ s) = b :: decodeBytes s := by
  obtain ⟨hhigh, hlow⟩ := h
  rename_i c d high low
  have hw : bytes ['%', c, d] = [percentSign, UInt8.ofNat c.toNat, UInt8.ofNat d.toNat] := by
    change String.utf8EncodeChar '%' ++ (String.utf8EncodeChar c ++
      (String.utf8EncodeChar d ++ [])) = _
    rw [utf8EncodeChar_ascii (lt_of_hexValue? hhigh), utf8EncodeChar_ascii (lt_of_hexValue? hlow)]
    rfl
  rw [hw]
  simp [decodeBytes, hexByte?_of_hexValue? hhigh, hexByte?_of_hexValue? hlow]

theorem CharForm.decode {c : Char} {w : List Char} (h : CharForm c w) (s : List UInt8) :
    decodeBytes (bytes w ++ s) = String.utf8EncodeChar c ++ decodeBytes s := by
  cases h with
  | literal hc =>
    simp only [isReserved, Bool.or_eq_false_iff, beq_eq_false_iff_ne] at hc
    have hbytes : bytes [c] = String.utf8EncodeChar c := by simp [bytes]
    rw [← hbytes]
    refine decodeBytes_plain (fun b hb => ⟨?_, ?_⟩) s
    · rintro rfl
      exact hc.1.2 (List.mem_singleton.1 ((ascii_mem_bytes (c := '%') (by decide)).1 hb)).symm
    · rintro rfl
      exact hc.1.1.2 (List.mem_singleton.1 ((ascii_mem_bytes (c := '+') (by decide)).1 hb)).symm
  | blank =>
    rw [show bytes ['+'] = [plusSign] by decide, List.singleton_append,
      decodeBytes_cons (by decide)]
    rfl
  | escaped hw =>
    generalize String.utf8EncodeChar c = bs at hw
    induction hw with
    | nil => rfl
    | cons hb _ ih => rw [bytes_append, List.append_assoc, hb.decode, ih, List.cons_append]

theorem TextForm.decode {s : List Char} {text : String} (h : TextForm s text) :
    decodeText (bytes s) = text := by
  have hbytes : ∀ {s cs : List Char}, Written CharForm s cs → decodeBytes (bytes s) = bytes cs := by
    intro s cs h
    induction h with
    | nil => rfl
    | cons hc _ ih =>
      rw [bytes_append, hc.decode, ih]
      rfl
  rw [decodeText, hbytes h, bytes, ← Utf8.encode_eq, Utf8.decodeLossy_encode]

theorem EscapedByte.mem {b : UInt8} {w : List Char} (h : EscapedByte b w) {c : Char}
    (hc : c ∈ w) : c = '%' ∨ (hexValue? c).isSome := by
  cases h with
  | mk hhigh hlow =>
    simp only [List.mem_cons, List.not_mem_nil, or_false] at hc
    rcases hc with rfl | rfl | rfl
    · exact .inl rfl
    · simp [hhigh]
    · simp [hlow]

/-- No character that parts or ends anything is written inside of a text. -/
theorem TextForm.not_mem {s : List Char} {text : String} (h : TextForm s text) {c : Char}
    (hc : c = '&' ∨ c = '=' ∨ c = '#') : c ∉ s := by
  have hhex : ¬(c = '%' ∨ (hexValue? c).isSome) := by
    rcases hc with rfl | rfl | rfl <;> decide
  have hescaped : ∀ {w : List Char} {bs : List UInt8}, Written EscapedByte w bs → c ∉ w := by
    intro w bs h
    induction h with
    | nil => exact List.not_mem_nil
    | cons hb _ ih => exact fun hm => (List.mem_append.1 hm).elim (fun hm => hhex (hb.mem hm)) ih
  unfold TextForm at h
  generalize text.toList = cs at h
  induction h with
  | nil => exact List.not_mem_nil
  | cons hx _ ih =>
    refine fun hm => (List.mem_append.1 hm).elim (fun hm => ?_) ih
    cases hx with
    | literal hr =>
      obtain rfl := List.mem_singleton.1 hm
      rcases hc with rfl | rfl | rfl <;> cases hr
    | blank =>
      obtain rfl := List.mem_singleton.1 hm
      simp at hc
    | escaped hw => exact hescaped hw hm

theorem PairForm.decode {pair : String × String} {s : List Char} (h : PairForm pair s) :
    decodePair (bytes s) = pair := by
  obtain ⟨k, v, rfl, hk, hv⟩ := h
  have hnot : ∀ b ∈ bytes k, (b != 0x3D) = true := by
    intro b hb
    rw [bne_iff_ne]
    rintro rfl
    exact hk.not_mem (.inr (.inl rfl)) ((ascii_mem_bytes (c := '=') (by decide)).1 hb)
  have hbytes : bytes (k ++ '=' :: v) = bytes k ++ 0x3D :: bytes v := by
    rw [bytes_append]
    rfl
  have htake : (bytes k ++ 0x3D :: bytes v).takeWhile (· != 0x3D) = bytes k := by
    rw [List.takeWhile_append_of_pos hnot]
    simp
  rw [hbytes, decodePair, htake]
  simp [hk.decode, hv.decode]

theorem pieces_append {separator : UInt8} {s : List UInt8} (h : separator ∉ s) (t : List UInt8) :
    pieces separator (s ++ separator :: t) = s :: pieces separator t := by
  induction s with
  | nil => simp [pieces]
  | cons b s ih =>
    rw [List.mem_cons, not_or] at h
    rw [List.cons_append, pieces, if_neg (Ne.symm h.1), ih h.2]

theorem pieces_eq {separator : UInt8} {s : List UInt8} (h : separator ∉ s) :
    pieces separator s = [s] := by
  induction s with
  | nil => rfl
  | cons b s ih =>
    rw [List.mem_cons, not_or] at h
    rw [pieces, if_neg (Ne.symm h.1), ih h.2]

theorem PairForm.not_mem {pair : String × String} {s : List Char} (h : PairForm pair s) {c : Char}
    (hc : c = '&' ∨ c = '#') : c ∉ s := by
  obtain ⟨k, v, rfl, hk, hv⟩ := h
  have hpart : c = '&' ∨ c = '=' ∨ c = '#' := hc.imp_right .inr
  intro hm
  rcases List.mem_append.1 hm with hm | hm
  · exact hk.not_mem hpart hm
  · rcases List.mem_cons.1 hm with rfl | hm
    · simp at hc
    · exact hv.not_mem hpart hm

theorem PairForm.ampersand_not_mem {pair : String × String} {s : List Char} (h : PairForm pair s) :
    (0x26 : UInt8) ∉ bytes s := fun hm =>
  h.not_mem (.inl rfl) ((ascii_mem_bytes (c := '&') (by decide)).1 hm)

/-- A query is not cut off by what it spells. -/
theorem QueryForm.sharp_not_mem {query : List Char} {pairs : List (String × String)}
    (h : QueryForm query pairs) : '#' ∉ query := by
  obtain ⟨ts, h, rfl⟩ := h
  induction h with
  | nil => simp
  | cons hp hps ih =>
    cases hps with
    | nil =>
      rw [List.intercalate_singleton]
      exact hp.not_mem (.inr rfl)
    | cons hq hqs =>
      rw [List.intercalate_cons_cons]
      simp [hp.not_mem (.inr rfl), ih]

/-- Empty pieces are passed over; that of a pair has its equals sign. -/
theorem PairForm.bytes_ne_nil {pair : String × String} {s : List Char} (h : PairForm pair s) :
    (!(bytes s).isEmpty) = true := by
  obtain ⟨k, v, rfl, -, -⟩ := h
  simp [bytes]

/-- Every query that spells the pairs is decoded to them. -/
theorem decodeForm_of_queryForm {query : List Char} {pairs : List (String × String)}
    (h : QueryForm query pairs) : decodeForm (String.ofList query) = pairs := by
  obtain ⟨ts, h, rfl⟩ := h
  rw [decodeForm, Utf8.encode_eq, String.toList_ofList, ← bytes]
  -- on the pairs; no ampersand stands behind the last one
  induction h with
  | nil => rfl
  | @cons pair t pairs ts hp hps ih =>
    cases hps with
    | nil =>
      rw [List.intercalate_singleton, pieces_eq hp.ampersand_not_mem]
      simp [hp.bytes_ne_nil, hp.decode]
    | cons hq hqs =>
      have hmore : ∀ s, bytes ('&' :: s) = 0x26 :: bytes s := fun _ => rfl
      rw [List.intercalate_cons_cons, List.append_assoc, List.singleton_append, bytes_append, hmore,
        pieces_append hp.ampersand_not_mem,
        List.filter_cons_of_pos (p := fun piece : List UInt8 => !piece.isEmpty) hp.bytes_ne_nil,
        List.map_cons, hp.decode, ih]

def hexDigit (n : Nat) : Char := "0123456789ABCDEF".toList.getD n '0'

def escapeByte (b : UInt8) : List Char :=
  ['%', hexDigit (b.toNat / 16), hexDigit (b.toNat % 16)]

def isSafe (c : Char) : Bool :=
  let n := c.toNat
  n == 0x2A || n == 0x2D || n == 0x2E || (0x30 ≤ n && n ≤ 0x39) || (0x41 ≤ n && n ≤ 0x5A)
    || n == 0x5F || (0x61 ≤ n && n ≤ 0x7A)

def encodeChar (c : Char) : List Char :=
  if isSafe c then [c] else if c = ' ' then ['+'] else (String.utf8EncodeChar c).flatMap escapeByte

def encodeText (text : String) : List Char := text.toList.flatMap encodeChar

def modelQuery (name : String) : List Char :=
  ['m', 'o', 'd', 'e', 'l', '='] ++ encodeText name

theorem hexValue?_hexDigit : ∀ n < 16, hexValue? (hexDigit n) = some n := by decide

theorem escapedByte_escapeByte (b : UInt8) : EscapedByte b (escapeByte b) := by
  have hb := b.toNat_lt
  have hparts : UInt8.ofNat (b.toNat / 16) * 16 + UInt8.ofNat (b.toNat % 16) = b := by
    rw [← UInt8.toNat_inj]
    simp only [UInt8.toNat_add, UInt8.toNat_mul, UInt8.toNat_ofNat', UInt8.reduceToNat]
    omega
  have h := EscapedByte.mk (hexValue?_hexDigit (b.toNat / 16) (by omega))
    (hexValue?_hexDigit (b.toNat % 16) (by omega))
  rwa [hparts] at h

theorem ascii_of_isSafe {c : Char} (h : isSafe c = true) : c.toNat < 128 := by
  simp only [isSafe, Bool.or_eq_true, Bool.and_eq_true, beq_iff_eq, decide_eq_true_eq] at h
  omega

theorem safe_ascii : ∀ n < 128, isSafe (Char.ofNat n) = true →
    isReserved (Char.ofNat n) = false ∧ isQueryChar (Char.ofNat n) = true := by decide +kernel

theorem literal_of_isSafe {c : Char} (h : isSafe c = true) :
    isReserved c = false ∧ isQueryChar c = true := by
  have hascii := safe_ascii c.toNat (ascii_of_isSafe h)
  rw [Char.ofNat_toNat] at hascii
  exact hascii h

theorem charForm_encodeChar (c : Char) : CharForm c (encodeChar c) := by
  unfold encodeChar
  split_ifs with hsafe hblank
  · exact .literal (literal_of_isSafe hsafe).1
  · rw [hblank]
    exact .blank
  · exact .escaped (Written.flatMap fun b _ => escapedByte_escapeByte b)

theorem isQueryChar_encodeChar (c : Char) : ∀ d ∈ encodeChar c, isQueryChar d = true := by
  have hdigit : ∀ n < 16, isQueryChar (hexDigit n) = true := by decide
  unfold encodeChar
  split_ifs with hsafe
  · exact List.forall_mem_singleton.2 (literal_of_isSafe hsafe).2
  · exact List.forall_mem_singleton.2 rfl
  · intro d hd
    obtain ⟨b, -, hd⟩ := List.mem_flatMap.1 hd
    have hb := b.toNat_lt
    simp only [escapeByte, List.mem_cons, List.not_mem_nil, or_false] at hd
    rcases hd with rfl | rfl | rfl
    · rfl
    · exact hdigit _ (by omega)
    · exact hdigit _ (by omega)

theorem textForm_encodeText (text : String) : TextForm (encodeText text) text :=
  Written.flatMap fun c _ => charForm_encodeChar c

theorem queryForm_modelQuery (name : String) :
    QueryForm (modelQuery name) [("model", name)] := by
  have hkey : TextForm ['m', 'o', 'd', 'e', 'l'] "model" := textForm_self rfl
  refine ⟨[modelQuery name], .cons ⟨_, _, rfl, hkey, textForm_encodeText name⟩ .nil, ?_⟩
  rw [List.intercalate_singleton]

theorem isQueryChar_modelQuery (name : String) : (modelQuery name).all isQueryChar = true := by
  have hkey : ['m', 'o', 'd', 'e', 'l', '='].all isQueryChar = true := by decide
  have htext : (encodeText name).all isQueryChar = true := by
    rw [List.all_eq_true]
    intro d hd
    obtain ⟨c, -, hd⟩ := List.mem_flatMap.1 hd
    exact isQueryChar_encodeChar c d hd
  rw [modelQuery, List.all_append, Bool.and_eq_true]
  exact ⟨hkey, htext⟩

end InferenceRecorder.Http
