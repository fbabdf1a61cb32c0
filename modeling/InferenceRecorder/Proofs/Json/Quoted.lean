import InferenceRecorder.Json.Quoted
import InferenceRecorder.Proofs.Json.Scan
import Mathlib.Tactic.SplitIfs

/-!
Spellings of a text inside a string. A character stands for itself, for a letter after a backslash,
for a four digit escape or, beyond the first 65536 characters, for two of them. What is read from a
string is the one text that its spelling has, and what is written is a spelling of the text.
-/
namespace InferenceRecorder.Json
open Numeral (hexValue? isHexDigit)

inductive Spelling : Char → List Char → Prop
  | raw {c : Char} : isControl c = false → c ≠ '"' → c ≠ '\\' → Spelling c [c]
  | letter {c e : Char} : unescape? e = some c → Spelling c ['\\', e]
  | unit {x a b c d : Char} : hexUnit? a b c d = some x.toNat → Spelling x ['\\', 'u', a, b, c, d]
  | pair {x a b c d a' b' c' d' : Char} {high low : Nat} :
    hexUnit? a b c d = some high → isHighSurrogate high = true →
    hexUnit? a' b' c' d' = some low → isLowSurrogate low = true →
    x.toNat = 0x10000 + (high - 0xD800) * 0x400 + (low - 0xDC00) →
    Spelling x ['\\', 'u', a, b, c, d, '\\', 'u', a', b', c', d']

inductive PieceSpelling : Piece → List Char → Prop
  | raw {c : Char} : isControl c = false → c ≠ '"' → c ≠ '\\' → PieceSpelling (.char c) [c]
  | letter {c e : Char} : unescape? e = some c → PieceSpelling (.char c) ['\\', e]
  | unit {n : Nat} {a b c d : Char} : hexUnit? a b c d = some n →
    PieceSpelling (.unit n) ['\\', 'u', a, b, c, d]

inductive Written {α : Type} (R : α → List Char → Prop) : List Char → List α → Prop
  | nil : Written R [] []
  | cons {x : α} {w k : List Char} {xs : List α} : R x w → Written R k xs →
    Written R (w ++ k) (x :: xs)

theorem Written.one {α : Type} {R : α → List Char → Prop} {x : α} {w : List Char} (h : R x w) :
    Written R w [x] := by
  have hw := Written.cons h .nil
  rwa [List.append_nil] at hw

theorem Written.append {α : Type} {R : α → List Char → Prop} {k l : List Char} {xs ys : List α}
    (h : Written R k xs) (h' : Written R l ys) : Written R (k ++ l) (xs ++ ys) := by
  induction h with
  | nil => exact h'
  | cons hx _ ih =>
    rw [List.append_assoc]
    exact .cons hx ih

theorem Written.flatMap {α : Type} {R : α → List Char → Prop} {write : α → List Char} {xs : List α}
    (h : ∀ x ∈ xs, R x (write x)) : Written R (xs.flatMap write) xs := by
  induction xs with
  | nil => exact .nil
  | cons x xs ih =>
    obtain ⟨hx, hxs⟩ := List.forall_mem_cons.1 h
    rw [List.flatMap_cons]
    exact .cons hx (ih hxs)

abbrev Spells : List Char → List Char → Prop := Written Spelling

theorem hexValue?_lt {c : Char} {n : Nat} (h : hexValue? c = some n) : n < 16 := by
  have h0 : '0'.toNat = 48 := rfl
  have ha : 'a'.toNat = 97 := rfl
  have hA : 'A'.toNat = 65 := rfl
  unfold hexValue? at h
  split_ifs at h with hd hs hc
  · have hn : c.toNat ≤ 57 := by
      simp only [Char.isDigit, Bool.and_eq_true, decide_eq_true_eq] at hd
      exact hd.2
    cases h
    omega
  · have hn : c.toNat ≤ 102 := by
      simp only [Bool.and_eq_true, decide_eq_true_eq] at hs
      exact hs.2
    cases h
    omega
  · have hn : c.toNat ≤ 70 := by
      simp only [Bool.and_eq_true, decide_eq_true_eq] at hc
      exact hc.2
    cases h
    omega

theorem hexUnit?_lt {a b c d : Char} {n : Nat} (h : hexUnit? a b c d = some n) : n < 0x10000 := by
  unfold hexUnit? at h
  split at h
  next ha hb hc hd =>
    have := hexValue?_lt ha
    have := hexValue?_lt hb
    have := hexValue?_lt hc
    have := hexValue?_lt hd
    cases h
    omega
  next => cases h

theorem isHexDigit_of_hexUnit? {a b c d : Char} {n : Nat} (h : hexUnit? a b c d = some n) :
    isHexDigit a = true ∧ isHexDigit b = true ∧ isHexDigit c = true ∧ isHexDigit d = true := by
  unfold hexUnit? at h
  split at h
  next ha hb hc hd => simp [isHexDigit, ha, hb, hc, hd]
  next => cases h

theorem takePieces_raw {c : Char} (hc : isControl c = false) (hq : c ≠ '"') (hb : c ≠ '\\')
    (s : List Char) : takePieces (c :: s) = (Piece.char c).cons (takePieces s) := by
  rw [takePieces.eq_def]
  split <;> simp_all

theorem takePieces_letter {c e : Char} (h : unescape? e = some c) (s : List Char) :
    takePieces ('\\' :: e :: s) = (Piece.char c).cons (takePieces s) := by
  have he : e ≠ 'u' := by
    rintro rfl
    cases h
  rw [takePieces.eq_def]
  split <;> grind

theorem takePieces_unit {a b c d : Char} {n : Nat} (h : hexUnit? a b c d = some n)
    (s : List Char) :
    takePieces ('\\' :: 'u' :: a :: b :: c :: d :: s) = (Piece.unit n).cons (takePieces s) := by
  simp [takePieces, h]

theorem takePieces_of_written {k : List Char} {pieces : List Piece}
    (h : Written PieceSpelling k pieces) (rest : List Char) :
    takePieces (k ++ '"' :: rest) = some (pieces, rest) := by
  induction h with
  | nil => rfl
  | cons hp _ ih =>
    cases hp with
    | raw hc hq hb => simp [takePieces_raw hc hq hb, ih, Piece.cons]
    | letter he => simp [takePieces_letter he, ih, Piece.cons]
    | unit hn => simp [takePieces_unit hn, ih, Piece.cons]

theorem written_of_takePieces {s : List Char} {pieces : List Piece} {rest : List Char}
    (h : takePieces s = some (pieces, rest)) :
    ∃ k, s = k ++ '"' :: rest ∧ Written PieceSpelling k pieces := by
  fun_induction takePieces s generalizing pieces rest with
  | case1 => cases h
  | case2 =>
    cases h
    exact ⟨[], rfl, .nil⟩
  | case3 => cases h
  | case4 a b c d s n hn ih =>
    obtain ⟨more, hm, rfl⟩ := Piece.of_cons_eq_some h
    obtain ⟨k, rfl, hk⟩ := ih hm
    exact ⟨_, rfl, .cons (.unit hn) hk⟩
  | case5 => cases h
  | case6 c s _ e he ih =>
    obtain ⟨more, hm, rfl⟩ := Piece.of_cons_eq_some h
    obtain ⟨k, rfl, hk⟩ := ih hm
    exact ⟨_, rfl, .cons (.letter he) hk⟩
  | case7 => cases h
  | case8 c s hq _ _ hc ih =>
    obtain ⟨more, hm, rfl⟩ := Piece.of_cons_eq_some h
    obtain ⟨k, rfl, hk⟩ := ih hm
    simp only [Bool.or_eq_true, beq_iff_eq, not_or, Bool.not_eq_true] at hc
    exact ⟨_, rfl, .cons (.raw hc.1 hq hc.2) hk⟩

theorem not_surrogate_toNat (x : Char) :
    isHighSurrogate x.toNat = false ∧ isLowSurrogate x.toNat = false := by
  have hx : x.toNat < 0xD800 ∨ 0xDFFF < x.toNat ∧ x.toNat < 0x110000 := x.valid
  simp only [isHighSurrogate, isLowSurrogate, Bool.and_eq_false_iff, decide_eq_false_iff_not]
  omega

theorem toNat_ofNat {n : Nat} (h : n.isValidChar) : (Char.ofNat n).toNat = n := by
  rw [Char.ofNat, dif_pos h]
  rfl

theorem joinPieces_unit {n : Nat} (hh : isHighSurrogate n = false) (hl : isLowSurrogate n = false)
    (pieces : List Piece) :
    joinPieces (.unit n :: pieces) = (joinPieces pieces).map (Char.ofNat n :: ·) := by
  cases pieces with
  | nil => simp [joinPieces, hh, hl]
  | cons p pieces => cases p <;> simp [joinPieces, hh, hl]

/-- The pieces that a spelling of one character is read into make up that character. -/
theorem Spelling.pieces {x : Char} {w : List Char} (h : Spelling x w) :
    ∃ ps, Written PieceSpelling w ps ∧
      ∀ more, joinPieces (ps ++ more) = (joinPieces more).map (x :: ·) := by
  cases h with
  | raw hc hq hb => exact ⟨[.char x], .one (.raw hc hq hb), fun _ => rfl⟩
  | letter he => exact ⟨[.char x], .one (.letter he), fun _ => rfl⟩
  | unit hn =>
    refine ⟨[.unit x.toNat], .one (.unit hn), fun more => ?_⟩
    obtain ⟨hh, hl⟩ := not_surrogate_toNat x
    rw [List.singleton_append, joinPieces_unit hh hl, Char.ofNat_toNat]
  | @pair _ _ _ _ _ _ _ _ high low hn hh hm hl hx =>
    refine ⟨[.unit high, .unit low], (Written.one (PieceSpelling.unit hn)).append (.one (.unit hm)),
      fun more => ?_⟩
    have hc : surrogatePair high low = x := by
      rw [surrogatePair, ← hx, Char.ofNat_toNat]
    simp [joinPieces, hh, hl, hc]

theorem pieces_of_spells {k text : List Char} (h : Spells k text) :
    ∃ ps, Written PieceSpelling k ps ∧ joinPieces ps = some text := by
  induction h with
  | nil => exact ⟨[], .nil, rfl⟩
  | cons hx _ ih =>
    obtain ⟨qs, hq, hj⟩ := ih
    obtain ⟨ps, hp, hps⟩ := hx.pieces
    exact ⟨ps ++ qs, hp.append hq, by rw [hps, hj]; rfl⟩

theorem spelling_ofNat {a b c d : Char} {n : Nat} (h : hexUnit? a b c d = some n)
    (hs : ¬(isHighSurrogate n || isLowSurrogate n) = true) :
    Spelling (Char.ofNat n) ['\\', 'u', a, b, c, d] := by
  have hn := hexUnit?_lt h
  simp only [isHighSurrogate, isLowSurrogate, Bool.or_eq_true, Bool.and_eq_true,
    decide_eq_true_eq] at hs
  have hv : n.isValidChar := by
    unfold Nat.isValidChar
    omega
  exact .unit (by rw [h, toNat_ofNat hv])

theorem spelling_surrogatePair {a b c d a' b' c' d' : Char} {high low : Nat}
    (h : hexUnit? a b c d = some high) (hh : isHighSurrogate high = true)
    (h' : hexUnit? a' b' c' d' = some low) (hl : isLowSurrogate low = true) :
    Spelling (surrogatePair high low)
      ['\\', 'u', a, b, c, d, '\\', 'u', a', b', c', d'] := by
  refine .pair h hh h' hl (toNat_ofNat ?_)
  simp only [isHighSurrogate, isLowSurrogate, Bool.and_eq_true, decide_eq_true_eq] at hh hl
  unfold Nat.isValidChar
  omega

theorem written_unit {k : List Char} {n : Nat} {ps : List Piece}
    (h : Written PieceSpelling k (.unit n :: ps)) : ∃ a b c d l,
      k = ['\\', 'u', a, b, c, d] ++ l ∧ hexUnit? a b c d = some n ∧
        Written PieceSpelling l ps := by
  cases h with
  | cons hp hk =>
    cases hp with
    | unit hn => exact ⟨_, _, _, _, _, rfl, hn, hk⟩

theorem spells_of_pieces {k : List Char} {ps : List Piece} (h : Written PieceSpelling k ps)
    {text : List Char} (ht : joinPieces ps = some text) : Spells k text := by
  fun_induction joinPieces ps generalizing k text with
  | case1 =>
    cases h
    cases ht
    exact .nil
  | case2 c ps ih =>
    obtain ⟨t, hj, rfl⟩ := Option.map_eq_some_iff.1 ht
    cases h with
    | cons hp hk =>
      cases hp with
      | raw hc hq hb => exact .cons (.raw hc hq hb) (ih hk hj)
      | letter he => exact .cons (.letter he) (ih hk hj)
  | case3 n m ps hnm ih =>
    obtain ⟨t, hj, rfl⟩ := Option.map_eq_some_iff.1 ht
    rw [Bool.and_eq_true] at hnm
    obtain ⟨_, _, _, _, _, rfl, hn, hk⟩ := written_unit h
    obtain ⟨_, _, _, _, _, rfl, hm, hk⟩ := written_unit hk
    have hx := Written.cons (spelling_surrogatePair hn hnm.1 hm hnm.2) (ih hk hj)
    exact hx
  | case4 => cases ht
  | case5 n m ps hnm hs ih =>
    obtain ⟨t, hj, rfl⟩ := Option.map_eq_some_iff.1 ht
    obtain ⟨_, _, _, _, _, rfl, hn, hk⟩ := written_unit h
    exact .cons (spelling_ofNat hn hs) (ih hk hj)
  | case6 => cases ht
  | case7 n ps hu hs ih =>
    obtain ⟨t, hj, rfl⟩ := Option.map_eq_some_iff.1 ht
    obtain ⟨_, _, _, _, _, rfl, hn, hk⟩ := written_unit h
    exact .cons (spelling_ofNat hn hs) (ih hk hj)

/-- What is read up to the closing quotation mark is the text that is spelled there. -/
theorem takeString_eq_some {s text rest : List Char} :
    takeString s = some (text, rest) ↔ ∃ k, s = k ++ '"' :: rest ∧ Spells k text := by
  constructor
  · intro h
    unfold takeString at h
    split at h
    next => cases h
    next ps after hp =>
      obtain ⟨t, hj, ht⟩ := Option.map_eq_some_iff.1 h
      cases ht
      obtain ⟨k, rfl, hk⟩ := written_of_takePieces hp
      exact ⟨k, rfl, spells_of_pieces hk hj⟩
  · rintro ⟨k, rfl, hk⟩
    obtain ⟨ps, hp, hj⟩ := pieces_of_spells hk
    simp [takeString, takePieces_of_written hp, hj]

def QuotedText (v : Source) (text : String) : Prop :=
  ∃ k, v = '"' :: (k ++ ['"']) ∧ Spells k text.toList

theorem unquote?_eq_some {v : Source} {text : String} :
    unquote? v = some text ↔ QuotedText v text := by
  constructor
  · intro h
    unfold unquote? at h
    split at h
    next s =>
      split at h
      next t ht =>
        cases h
        obtain ⟨k, rfl, hk⟩ := takeString_eq_some.1 ht
        exact ⟨k, rfl, by simpa using hk⟩
      next => cases h
    next => cases h
  · rintro ⟨k, rfl, hk⟩
    simp [unquote?, takeString_eq_some.2 ⟨k, rfl, hk⟩]

theorem toNat_lt_of_isControl {c : Char} (h : isControl c = true) : c.toNat < 32 := by
  have hc : c < ' ' := by simpa [isControl] using h
  exact hc

theorem spelling_escape (c : Char) : Spelling c (escape c) := by
  unfold escape
  split_ifs with h1 h2 h3 h4 h5 h6 h7 h8
  · exact .letter (congrArg some h1.symm)
  · exact .letter (congrArg some h2.symm)
  · exact .letter (congrArg some h3.symm)
  · exact .letter (congrArg some h4.symm)
  · exact .letter (congrArg some h5.symm)
  · exact .letter (congrArg some h6.symm)
  · exact .letter (congrArg some h7.symm)
  · have hu : ∀ n < 32, hexUnit? '0' '0' (Nat.digitChar (n / 16)) (Nat.digitChar (n % 16)) =
      some n := by decide
    exact .unit (hu _ (toNat_lt_of_isControl h8))
  · exact .raw (Bool.eq_false_iff.2 h8) h1 h2

theorem spells_escape (text : List Char) : Spells (text.flatMap escape) text := by
  induction text with
  | nil => exact .nil
  | cons c text ih => exact .cons (spelling_escape c) ih

theorem quotedText_quote (text : String) : QuotedText (quote text) text :=
  ⟨_, rfl, spells_escape _⟩

theorem isEscapeLetter_of_unescape? {e c : Char} (h : unescape? e = some c) :
    e ≠ 'u' ∧ isEscapeLetter e = true := by
  unfold unescape? at h
  split at h
  case h_9 => cases h
  all_goals decide

theorem PieceSpelling.run_string {p : Piece} {w : List Char} (h : PieceSpelling p w)
    (stack : List Bracket) (isKey : Bool) :
    run (stack, .string isKey) w = some (stack, .string isKey) := by
  cases h with
  | raw hc hq hb => simp [run, step, hc, hq, hb]
  | letter he =>
    obtain ⟨hu, hl⟩ := isEscapeLetter_of_unescape? he
    simp [run, step, hu, hl]
  | unit hn =>
    obtain ⟨ha, hb, hc, hd⟩ := isHexDigit_of_hexUnit? hn
    simp [run, step, ha, hb, hc, hd]

/-- Pieces of any kind, halves of surrogate pairs among them, lead to the end of the string. -/
theorem run_written {k : List Char} {pieces : List Piece} (h : Written PieceSpelling k pieces)
    (stack : List Bracket) (isKey : Bool) :
    run (stack, .string isKey) (k ++ ['"']) = some (stack, stringEnd isKey) := by
  induction h with
  | nil => rfl
  | cons hp _ ih => rw [List.append_assoc, run_append, hp.run_string, Option.bind_some, ih]

end InferenceRecorder.Json
