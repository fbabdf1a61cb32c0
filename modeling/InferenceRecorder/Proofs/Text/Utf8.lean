import InferenceRecorder.Text.Utf8
import Mathlib.Data.List.Basic

/-!
Texts and their bytes. The bytes of a character take the decoder to that character and nothing else,
so a text is read back from its bytes without a gap.
-/
namespace InferenceRecorder.Utf8
variable {read : List (Option Char)} {bits left low high : Nat}

theorem toList_loop (bytes : ByteArray) (i : Nat) (taken : List UInt8) :
    ByteArray.toList.loop bytes i taken = taken.reverse ++ bytes.data.toList.drop i := by
  -- on the number of bytes still to come
  induction hn : bytes.size - i generalizing i taken with
  | zero =>
    have hi : ¬i < bytes.size := by omega
    rw [ByteArray.toList.loop, if_neg hi, List.drop_eq_nil_of_le (Nat.not_lt.1 hi), List.append_nil]
  | succ n ih =>
    have hi : i < bytes.size := by omega
    have hget : bytes.data.toList.drop i = bytes.get! i :: bytes.data.toList.drop (i + 1) := by
      have hb : bytes.get! i = bytes.data[i] := getElem!_pos bytes.data i hi
      rw [hb, List.drop_eq_getElem_cons hi, Array.getElem_toList]
    rw [ByteArray.toList.loop, if_pos hi, ih _ _ (by omega), hget]
    simp

theorem encode_eq (text : String) : encode text = text.toList.flatMap String.utf8EncodeChar := by
  have hbytes : text.toByteArray = text.toList.utf8Encode := by
    rw [← String.toByteArray_ofList, String.ofList_toList]
  rw [encode, String.toUTF8_eq_toByteArray, hbytes, ByteArray.toList, toList_loop]
  exact List.toList_data_toByteArray

theorem toNat_ofNat {n : Nat} (h : n < 256) : (UInt8.ofNat n).toNat = n := by
  simp [Nat.mod_eq_of_lt h]

/-- A byte after the first one brings six bits. -/
theorem feed_next {n : Nat} (hl : low ≤ n % 64 + 128) (hh : n % 64 + 128 ≤ high) :
    Decoder.feed ⟨read, some ⟨bits, left + 1, low, high⟩⟩ (UInt8.ofNat (n % 64 + 128)) =
      ⟨read, some ⟨bits * 64 + n % 64, left, 0x80, 0xBF⟩⟩ := by
  have hb : (UInt8.ofNat (n % 64 + 128)).toNat = n % 64 + 128 := toNat_ofNat (by omega)
  simp only [Decoder.feed, hb]
  simp [hl, hh]

theorem feed_last {n : Nat} (hl : low ≤ n % 64 + 128) (hh : n % 64 + 128 ≤ high) :
    Decoder.feed ⟨read, some ⟨bits, 0, low, high⟩⟩ (UInt8.ofNat (n % 64 + 128)) =
      ⟨some (Char.ofNat (bits * 64 + n % 64)) :: read, none⟩ := by
  have hb : (UInt8.ofNat (n % 64 + 128)).toNat = n % 64 + 128 := toNat_ofNat (by omega)
  simp only [Decoder.feed, hb]
  simp [hl, hh]

theorem feed_lead {n : Nat} {pending : Pending} (h : lead? n = some pending) (hl : 128 ≤ n)
    (hh : n < 256) : Decoder.feed ⟨read, none⟩ (UInt8.ofNat n) = ⟨read, some pending⟩ := by
  rw [Decoder.feed, toNat_ofNat hh, Decoder.start, if_neg (Nat.not_lt.2 hl), h]

theorem lead?_two : ∀ n < 32, 2 ≤ n → lead? (n + 192) = some ⟨n, 0, 0x80, 0xBF⟩ := by decide

/-- The first byte alone would leave room for long spellings of small numbers and for halves of
surrogate pairs; the range of the next byte shuts them out. -/
theorem lead?_three : ∀ n < 16, lead? (n + 224) =
    some ⟨n, 1, if n = 0 then 0xA0 else 0x80, if n = 13 then 0x9F else 0xBF⟩ := by decide

theorem lead?_four : ∀ n < 5, lead? (n + 240) =
    some ⟨n, 2, if n = 0 then 0x90 else 0x80, if n = 4 then 0x8F else 0xBF⟩ := by decide

/-- The bytes of a character are read as that character. -/
theorem foldl_feed_char (c : Char) (read : List (Option Char)) :
    (String.utf8EncodeChar c).foldl Decoder.feed ⟨read, none⟩ = ⟨some c :: read, none⟩ := by
  have hv : c.val.toNat < 0xD800 ∨ 0xDFFF < c.val.toNat ∧ c.val.toNat < 0x110000 := c.valid
  have hof : ∀ n, n = c.val.toNat → Char.ofNat n = c := by
    rintro n rfl
    exact Char.ofNat_toNat c
  unfold String.utf8EncodeChar
  generalize c.val.toNat = v at hv hof
  -- one to four bytes, by the size of the character
  dsimp only
  split_ifs with h1 h2 h3 <;> simp only [List.foldl_cons, List.foldl_nil]
  · rw [Decoder.feed, Decoder.start, toNat_ofNat (by omega), if_pos (by omega), hof v rfl]
  · rw [feed_lead (lead?_two _ (by omega) (by omega)) (by omega) (by omega),
      feed_last (by omega) (by omega), hof _ (by omega)]
  · rw [feed_lead (lead?_three _ (by omega)) (by omega) (by omega),
      feed_next (by split_ifs <;> omega) (by split_ifs <;> omega),
      feed_last (by omega) (by omega), hof _ (by omega)]
  · rw [feed_lead (lead?_four _ (by omega)) (by omega) (by omega),
      feed_next (by split_ifs <;> omega) (by split_ifs <;> omega),
      feed_next (by omega) (by omega), feed_last (by omega) (by omega), hof _ (by omega)]

theorem foldl_feed (s : List Char) (read : List (Option Char)) :
    (s.flatMap String.utf8EncodeChar).foldl Decoder.feed ⟨read, none⟩ =
      ⟨(s.map some).reverse ++ read, none⟩ := by
  induction s generalizing read with
  | nil => rfl
  | cons c s ih => simp [List.flatMap_cons, foldl_feed_char, ih]

theorem pieces_encode (text : String) : pieces (encode text) = text.toList.map some := by
  rw [pieces, encode_eq, Decoder.empty, foldl_feed]
  simp [Decoder.finish]

/-- A text is read back from its bytes. -/
theorem decodeLossy_encode (text : String) : decodeLossy (encode text) = text := by
  simp [decodeLossy, pieces_encode, Function.comp_def]

end InferenceRecorder.Utf8
