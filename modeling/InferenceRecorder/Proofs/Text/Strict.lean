import InferenceRecorder.Proofs.Text.Utf8
import Mathlib.Data.List.Induction

/-!
Bytes that are a text. The decoder accounts for every byte: as long as it has noted no gap, the
bytes that it was fed are those of the characters it read, and the beginning of the one it is in the
middle of. So the strict reading takes the bytes of texts and no others: `decode?_eq_some_iff`.
-/
namespace InferenceRecorder.Utf8
variable {b : UInt8} {low high n : Nat}

/-- The bytes so far begin a character: whatever comes next in the range, and then so many more
bytes of six bits, makes up the bytes of the character with these bits. -/
def Begins (part : List UInt8) (bits low high : Nat) : (left : Nat) → Prop
  | 0 => ∀ b : UInt8, low ≤ b.toNat → b.toNat ≤ high →
    part ++ [b] = String.utf8EncodeChar (Char.ofNat (bits * 64 + (b.toNat - 0x80)))
  | left + 1 => ∀ b : UInt8, low ≤ b.toNat → b.toNat ≤ high →
    Begins (part ++ [b]) (bits * 64 + (b.toNat - 0x80)) 0x80 0xBF left

theorem eq_ofNat (h : b.toNat = n) : b = UInt8.ofNat n := by
  rw [← h, UInt8.ofNat_toNat]

theorem toNat_charOfNat (h : n < 0xD800 ∨ 0xDFFF < n ∧ n < 0x110000) :
    (Char.ofNat n).val.toNat = n := by
  rw [Char.ofNat, dif_pos h]
  rfl

theorem encodeChar_one (h : b.toNat < 0x80) :
    String.utf8EncodeChar (Char.ofNat b.toNat) = [b] := by
  have hv : (Char.ofNat b.toNat).val.toNat = b.toNat := toNat_charOfNat (by omega)
  rw [String.utf8EncodeChar, hv, if_pos (by omega), UInt8.ofNat_toNat]

theorem begins_two (hl : 0xC2 ≤ b.toNat) (hh : b.toNat ≤ 0xDF) :
    Begins [b] (b.toNat - 0xC0) 0x80 0xBF 0 := by
  intro d hdl hdh
  have hv := toNat_charOfNat (n := (b.toNat - 0xC0) * 64 + (d.toNat - 0x80)) (by omega)
  rw [String.utf8EncodeChar, hv, if_neg (by omega), if_pos (by omega),
    ← eq_ofNat (b := b) (by omega), ← eq_ofNat (b := d) (by omega)]
  rfl

/-- The range of the next byte shuts out what takes fewer bytes, and the halves of surrogate
pairs. -/
theorem begins_three (hl : 0xE0 ≤ b.toNat) (hh : b.toNat ≤ 0xEF) (h80 : 0x80 ≤ low)
    (hBF : high ≤ 0xBF) (hE0 : b.toNat = 0xE0 → 0xA0 ≤ low) (hED : b.toNat = 0xED → high ≤ 0x9F) :
    Begins [b] (b.toNat - 0xE0) low high 1 := by
  intro d hdl hdh e hel heh
  have hv := toNat_charOfNat
    (n := ((b.toNat - 0xE0) * 64 + (d.toNat - 0x80)) * 64 + (e.toNat - 0x80)) (by omega)
  rw [String.utf8EncodeChar, hv, if_neg (by omega), if_neg (by omega), if_pos (by omega),
    ← eq_ofNat (b := b) (by omega), ← eq_ofNat (b := d) (by omega), ← eq_ofNat (b := e) (by omega)]
  rfl

theorem begins_four (hl : 0xF0 ≤ b.toNat) (hh : b.toNat ≤ 0xF4) (h80 : 0x80 ≤ low)
    (hBF : high ≤ 0xBF) (hF0 : b.toNat = 0xF0 → 0x90 ≤ low) (hF4 : b.toNat = 0xF4 → high ≤ 0x8F) :
    Begins [b] (b.toNat - 0xF0) low high 2 := by
  intro d hdl hdh e hel heh f hfl hfh
  have hv := toNat_charOfNat
    (n := (((b.toNat - 0xF0) * 64 + (d.toNat - 0x80)) * 64 + (e.toNat - 0x80)) * 64 +
      (f.toNat - 0x80)) (by omega)
  rw [String.utf8EncodeChar, hv, if_neg (by omega), if_neg (by omega), if_neg (by omega),
    ← eq_ofNat (b := b) (by omega), ← eq_ofNat (b := d) (by omega), ← eq_ofNat (b := e) (by omega),
    ← eq_ofNat (b := f) (by omega)]
  rfl

/-- A first byte that asks for more begins a character. -/
theorem begins_of_lead? {pending : Pending} (h : lead? b.toNat = some pending) :
    Begins [b] pending.bits pending.low pending.high pending.left := by
  have hthree := @begins_three b
  have hfour := @begins_four b
  unfold lead? at h
  simp only [Bool.and_eq_true, decide_eq_true_eq] at h
  split_ifs at h with hC2 hE0 hED hE1 hF0 hF1 hF4 <;> obtain rfl := Option.some.inj h
  · exact begins_two hC2.1 hC2.2
  · rw [hE0] at hthree
    exact hthree (by decide) (by decide) (by decide) (by decide) (by simp) (by simp)
  · rw [hED] at hthree
    exact hthree (by decide) (by decide) (by decide) (by decide) (by simp) (by simp)
  · exact hthree (by omega) hE1.2 (Nat.le_refl _) (Nat.le_refl _) (by omega) (by omega)
  · rw [hF0] at hfour
    exact hfour (by decide) (by decide) (by decide) (by decide) (by simp) (by simp)
  · exact hfour (by omega) (by omega) (Nat.le_refl _) (Nat.le_refl _) (by omega) (by omega)
  · rw [hF4] at hfour
    exact hfour (by decide) (by decide) (by decide) (by decide) (by simp) (by simp)

structure Accounts (d : Decoder) (bytes : List UInt8) (s : List Char) : Prop where
  read : d.read = (s.map some).reverse
  whole : d.pending = none → bytes = s.flatMap String.utf8EncodeChar
  begun : ∀ p ∈ d.pending, ∃ part, bytes = s.flatMap String.utf8EncodeChar ++ part ∧
    Begins part p.bits p.low p.high p.left

theorem accounts_empty : Accounts Decoder.empty [] [] := ⟨rfl, fun _ => rfl, nofun⟩

/-- A gap that was noted stays. -/
theorem gap_start {read : List (Option Char)} (h : none ∈ read) :
    none ∈ (Decoder.start read n).read := by
  unfold Decoder.start
  split_ifs
  · exact List.mem_cons_of_mem _ h
  · split
    · exact h
    · exact List.mem_cons_self

theorem gap_feed {d : Decoder} (h : none ∈ d.read) : none ∈ (d.feed b).read := by
  unfold Decoder.feed
  dsimp only
  split
  · exact gap_start h
  · split_ifs
    · split
      · exact List.mem_cons_of_mem _ h
      · exact h
    · exact gap_start (List.mem_cons_of_mem _ h)

theorem flatMap_concat (s : List Char) (c : Char) :
    (s ++ [c]).flatMap String.utf8EncodeChar =
      s.flatMap String.utf8EncodeChar ++ String.utf8EncodeChar c := by
  rw [List.flatMap_append, List.flatMap_singleton]

/-- The character whose last byte has come. -/
theorem accounts_char {bytes : List UInt8} {s : List Char} {c : Char}
    (h : bytes = s.flatMap String.utf8EncodeChar ++ String.utf8EncodeChar c) :
    Accounts ⟨some c :: (s.map some).reverse, none⟩ bytes (s ++ [c]) where
  read := by simp
  whole _ := by rw [flatMap_concat, h]
  begun := nofun

theorem accounts_start {bytes : List UInt8} {s : List Char}
    (h : bytes = s.flatMap String.utf8EncodeChar)
    (hread : none ∉ (Decoder.start (s.map some).reverse b.toNat).read) :
    ∃ t, Accounts (Decoder.start (s.map some).reverse b.toNat) (bytes ++ [b]) t := by
  unfold Decoder.start at hread ⊢
  split_ifs at hread ⊢ with h80
  · exact ⟨_, accounts_char (by rw [h, encodeChar_one h80])⟩
  · cases hlead : lead? b.toNat with
    | none =>
      rw [hlead] at hread
      exact absurd List.mem_cons_self hread
    | some pending =>
      refine ⟨s, rfl, nofun, fun p hp => ?_⟩
      obtain rfl := Option.some.inj hp
      exact ⟨[b], by rw [h], begins_of_lead? hlead⟩

/-- One byte more, unless it notes a gap. -/
theorem accounts_feed {d : Decoder} {bytes : List UInt8} {s : List Char} (h : Accounts d bytes s)
    (hread : none ∉ (d.feed b).read) : ∃ t, Accounts (d.feed b) (bytes ++ [b]) t := by
  obtain ⟨read, pending⟩ := d
  obtain ⟨rfl, hwhole, hbegun⟩ := h
  cases pending with
  | none => exact accounts_start (hwhole rfl) hread
  | some p =>
    obtain ⟨part, hpart, hb⟩ := hbegun p rfl
    obtain ⟨bits, left, low, high⟩ := p
    unfold Decoder.feed at hread ⊢
    simp only [Bool.and_eq_true, decide_eq_true_eq] at hread ⊢ hb
    split_ifs at hread ⊢ with hrange
    · cases left with
      | zero => exact ⟨_, accounts_char (by rw [hpart, List.append_assoc, hb b hrange.1 hrange.2])⟩
      | succ left =>
        refine ⟨s, rfl, nofun, fun p hp => ?_⟩
        obtain rfl := Option.some.inj hp
        exact ⟨part ++ [b], by rw [hpart, List.append_assoc], hb b hrange.1 hrange.2⟩
    · exact absurd (gap_start List.mem_cons_self) hread

/-- Without a gap every byte is accounted for. -/
theorem accounts_foldl (bytes : List UInt8)
    (hread : none ∉ (bytes.foldl Decoder.feed Decoder.empty).read) :
    ∃ s, Accounts (bytes.foldl Decoder.feed Decoder.empty) bytes s := by
  -- from the first byte on, since the decoder goes that way
  induction bytes using List.reverseRecOn with
  | nil => exact ⟨[], accounts_empty⟩
  | append_singleton bytes b ih =>
    rw [List.foldl_concat] at hread ⊢
    obtain ⟨s, hs⟩ := ih fun hgap => hread (gap_feed hgap)
    exact accounts_feed hs hread

theorem bytes_of_pieces {bytes : List UInt8} {s : List Char} (h : pieces bytes = s.map some) :
    bytes = s.flatMap String.utf8EncodeChar := by
  have hnone : none ∉ pieces bytes := by simp [h]
  rw [pieces, Decoder.finish] at h hnone
  cases hp : (bytes.foldl Decoder.feed Decoder.empty).pending with
  | some p => simp [hp] at hnone
  | none =>
    rw [hp] at h hnone
    obtain ⟨t, hread, hwhole, -⟩ := accounts_foldl bytes (by simpa using hnone)
    have hst : t = s := by simpa [hread, List.map_inj_right] using h
    rw [← hst]
    exact hwhole hp

theorem mapM_id_eq_some_iff {α : Type} {l : List (Option α)} {s : List α} :
    l.mapM id = some s ↔ l = s.map some := by
  induction l generalizing s with
  | nil => cases s <;> simp
  | cons o l ih =>
    cases o with
    | none => cases s <;> simp
    | some a => cases s <;> simp [Option.bind_eq_some_iff, ih, and_comm]

/-- The strict reading takes the bytes of texts and no others. -/
theorem decode?_eq_some_iff {bytes : List UInt8} {text : String} :
    decode? bytes = some text ↔ bytes = encode text := by
  constructor
  · intro h
    obtain ⟨s, hs, rfl⟩ := Option.map_eq_some_iff.1 h
    rw [encode_eq, String.toList_ofList]
    exact bytes_of_pieces (mapM_id_eq_some_iff.1 hs)
  · rintro rfl
    rw [decode?, mapM_id_eq_some_iff.2 (pieces_encode text), Option.map_some, String.ofList_toList]

theorem encode_inj {text other : String} (h : encode text = encode other) : text = other := by
  have htext : decode? (encode text) = some text := decode?_eq_some_iff.2 rfl
  rw [h, decode?_eq_some_iff.2 rfl] at htext
  exact (Option.some.inj htext).symm

end InferenceRecorder.Utf8
