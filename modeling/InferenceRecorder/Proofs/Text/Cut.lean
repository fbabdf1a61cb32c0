import InferenceRecorder.Proofs.Text.Utf8
import Mathlib.Data.List.Infix

/-!
Texts of which not all bytes came. What is read from the first bytes of a text are its first
characters, and one gap if the bytes stop inside a character: `decodeLossy_take`.
-/
namespace InferenceRecorder.Utf8

def width (s : List Char) : Nat := (s.flatMap String.utf8EncodeChar).length

theorem width_append (s t : List Char) : width (s ++ t) = width s + width t := by
  simp [width]

theorem width_mono {s t : List Char} (h : s <+: t) : width s ≤ width t := by
  obtain ⟨r, rfl⟩ := h
  rw [width_append]
  exact Nat.le_add_right _ _

theorem width_singleton (c : Char) : width [c] = (String.utf8EncodeChar c).length := by
  simp [width]

/-- So many bytes are those of `p`, and maybe some of the next character; then `gap` stands for
them. The text goes on with `q`, and `before` comes in front. -/
structure Cut (before : List Char) (n : Nat) (p q gap : List Char) : Prop where
  le : width (before ++ p) ≤ n
  lt {c : Char} {r : List Char} : q = c :: r → n < width (before ++ (p ++ [c]))
  gap_eq : gap = [] ∨ gap = [replacement] ∧ ∃ c r, q = c :: r ∧ 1 < width [c]

/-- Characters from the front came if none of their bytes is missing. -/
theorem Cut.width_le_iff {before p q gap a r : List Char} {n : Nat} (h : Cut before n p q gap)
    (hs : p ++ q = a ++ r) : width (before ++ a) ≤ n ↔ a <+: p := by
  constructor
  · intro ha
    rcases List.append_eq_append_iff.1 hs with ⟨z, rfl, rfl⟩ | ⟨z, rfl, -⟩
    · cases z with
      | nil => exact ⟨[], by simp⟩
      | cons c z =>
        have hlt := h.lt (List.cons_append ..)
        have hle : width (before ++ (p ++ [c])) ≤ width (before ++ (p ++ c :: z)) :=
          width_mono ⟨z, by simp⟩
        omega
    · exact List.prefix_append a z
  · intro ha
    have hle := width_mono ((List.prefix_append_right_inj before).2 ha)
    exact Nat.le_trans hle h.le

/-- What comes after the first missing character did not come. -/
theorem Cut.lt_width {before p q gap a : List Char} {n : Nat} (h : Cut before n p q gap)
    {c : Char} {r : List Char} (hq : q = c :: r) (ha : before ++ (p ++ [c]) <+: a) :
    n < width a :=
  Nat.lt_of_lt_of_le (h.lt hq) (width_mono ha)

/-- A character of one byte comes whole or not at all. -/
theorem Cut.gap_eq_nil {before p q gap : List Char} {n : Nat} (h : Cut before n p q gap)
    (hq : ∀ c ∈ q.head?, width [c] = 1) : gap = [] := by
  rcases h.gap_eq with hg | ⟨-, c, r, rfl, hc⟩
  · exact hg
  · have hone := hq c rfl
    omega

/-- The front of what came may be counted with what comes before. -/
theorem Cut.shift {before s p q gap : List Char} {n : Nat} (h : Cut before n (s ++ p) q gap) :
    Cut (before ++ s) n p q gap where
  le := by simpa using h.le
  lt hq := by simpa using h.lt hq
  gap_eq := h.gap_eq

/-- The first bytes of a character leave the decoder in the middle of it. -/
theorem foldl_feed_part (c : Char) {n : Nat} (hn : 0 < n)
    (hc : n < (String.utf8EncodeChar c).length) (read : List (Option Char)) : ∃ pending,
    ((String.utf8EncodeChar c).take n).foldl Decoder.feed ⟨read, none⟩ = ⟨read, some pending⟩ := by
  have hv : c.val.toNat < 0xD800 ∨ 0xDFFF < c.val.toNat ∧ c.val.toNat < 0x110000 := c.valid
  unfold String.utf8EncodeChar at hc ⊢
  generalize c.val.toNat = v at hv hc ⊢
  -- by the number of bytes, and by how many of them came
  dsimp only at hc ⊢
  split_ifs at hc ⊢ with h1 h2 h3 <;> simp only [List.length_cons, List.length_nil] at hc
  · omega
  · obtain rfl : n = 1 := by omega
    exact ⟨_, feed_lead (lead?_two _ (by omega) (by omega)) (by omega) (by omega)⟩
  · have hlead : Decoder.feed ⟨read, none⟩ (UInt8.ofNat (v / 4096 % 16 + 224)) = _ :=
      feed_lead (lead?_three _ (by omega)) (by omega) (by omega)
    obtain rfl | rfl : n = 1 ∨ n = 2 := by omega
    · exact ⟨_, hlead⟩
    · refine ⟨⟨v / 4096 % 16 * 64 + v / 64 % 64, 0, 0x80, 0xBF⟩, ?_⟩
      rw [List.take_succ_cons, List.take_succ_cons, List.take_zero, List.foldl_cons, hlead,
        List.foldl_cons, feed_next (by split_ifs <;> omega) (by split_ifs <;> omega),
        List.foldl_nil]
  · have hlead : Decoder.feed ⟨read, none⟩ (UInt8.ofNat (v / 262144 % 8 + 240)) = _ :=
      feed_lead (lead?_four _ (by omega)) (by omega) (by omega)
    obtain rfl | rfl | rfl : n = 1 ∨ n = 2 ∨ n = 3 := by omega
    · exact ⟨_, hlead⟩
    · refine ⟨⟨v / 262144 % 8 * 64 + v / 4096 % 64, 1, 0x80, 0xBF⟩, ?_⟩
      rw [List.take_succ_cons, List.take_succ_cons, List.take_zero, List.foldl_cons, hlead,
        List.foldl_cons, feed_next (by split_ifs <;> omega) (by split_ifs <;> omega),
        List.foldl_nil]
    · refine ⟨⟨(v / 262144 % 8 * 64 + v / 4096 % 64) * 64 + v / 64 % 64, 0, 0x80, 0xBF⟩, ?_⟩
      rw [List.take_succ_cons, List.take_succ_cons, List.take_succ_cons, List.take_zero,
        List.foldl_cons, hlead, List.foldl_cons,
        feed_next (by split_ifs <;> omega) (by split_ifs <;> omega), List.foldl_cons,
        feed_next (by omega) (by omega), List.foldl_nil]

/-- What the decoder makes of the first bytes: characters, and maybe one that it is in the middle
of. -/
theorem foldl_feed_take (s : List Char) (n : Nat) (read : List (Option Char)) :
    ∃ p q d, s = p ++ q ∧
      ((s.flatMap String.utf8EncodeChar).take n).foldl Decoder.feed ⟨read, none⟩ =
        ⟨(p.map some).reverse ++ read, d⟩ ∧
      width p ≤ n ∧ (∀ c r, q = c :: r → n < width (p ++ [c])) ∧
      (d.isSome = true → ∃ c r, q = c :: r ∧ 1 < width [c]) := by
  induction s generalizing n read with
  | nil => exact ⟨[], [], none, rfl, by simp, by simp [width], by simp, by simp⟩
  | cons c s ih =>
    rw [List.flatMap_cons]
    by_cases hn : (String.utf8EncodeChar c).length ≤ n
    · -- all bytes of the first character came
      obtain ⟨p, q, d, rfl, hd, hle, hlt, hgap⟩ :=
        ih (n - (String.utf8EncodeChar c).length) (some c :: read)
      rw [← width_singleton] at hn hd hle hlt
      refine ⟨c :: p, q, d, rfl, ?_, ?_, fun e r hq => ?_, hgap⟩
      · rw [List.take_append, List.take_of_length_le (by rwa [width_singleton] at hn),
          List.foldl_append, foldl_feed_char, ← width_singleton, hd]
        simp
      · rw [← List.singleton_append, width_append]
        omega
      · have hmore := hlt e r hq
        rw [← List.singleton_append, List.append_assoc, width_append]
        omega
    · have hlt : ∀ e r, c :: s = e :: r → n < width ([] ++ [e]) := by
        intro e r he
        cases he
        rw [List.nil_append, width_singleton]
        omega
      have htake : (String.utf8EncodeChar c ++ s.flatMap String.utf8EncodeChar).take n =
          (String.utf8EncodeChar c).take n := List.take_append_of_le_length (by omega)
      rcases Nat.eq_zero_or_pos n with rfl | hpos
      · exact ⟨[], c :: s, none, rfl, by simp, by simp [width], hlt, by simp⟩
      · obtain ⟨pending, hp⟩ := foldl_feed_part c hpos (by omega) read
        refine ⟨[], c :: s, some pending, rfl, ?_, by simp [width], hlt, fun _ => ⟨c, s, rfl, ?_⟩⟩
        · rw [htake, hp]
          rfl
        · rw [width_singleton]
          omega

/-- The first bytes of a text are read as its first characters and one gap at most. -/
theorem decodeLossy_take (text : String) (n : Nat) : ∃ p q gap, text.toList = p ++ q ∧
    (decodeLossy ((encode text).take n)).toList = p ++ gap ∧ Cut [] n p q gap := by
  obtain ⟨p, q, d, hs, hd, hle, hlt, hgap⟩ := foldl_feed_take text.toList n []
  have hread : (decodeLossy ((encode text).take n)).toList =
      p ++ if d.isSome then [replacement] else [] := by
    rw [decodeLossy, pieces, encode_eq, Decoder.empty, hd, String.toList_ofList, Decoder.finish]
    cases d <;> simp [Function.comp_def]
  refine ⟨p, q, _, hs, hread, hle, fun hq => hlt _ _ hq, ?_⟩
  cases d with
  | none => exact .inl rfl
  | some pending => exact .inr ⟨rfl, hgap rfl⟩

end InferenceRecorder.Utf8
