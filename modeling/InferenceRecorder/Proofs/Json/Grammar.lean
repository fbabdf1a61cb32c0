import InferenceRecorder.Proofs.Json.Brackets
import InferenceRecorder.Proofs.Json.Number

/-!
The grammar of JSON as a set of rules, with strings, numbers, arrays and objects inside one another
to any depth. What the scanner cuts off the front of a text is exactly what the rules derive.
-/
namespace InferenceRecorder.Json
open Numeral (isHexDigit)

def words : List (List Char) :=
  [['n', 'u', 'l', 'l'], ['t', 'r', 'u', 'e'], ['f', 'a', 'l', 's', 'e']]

mutual

inductive ValueText : List Char → Prop
  | word {w : List Char} : w ∈ words → ValueText w
  | number {v : List Char} : NumberText v → ValueText v
  | string {k : List Char} {pieces : List Piece} : Written PieceSpelling k pieces →
    ValueText ('"' :: (k ++ ['"']))
  | empty (b : Bracket) {v : List Char} : isAllBlank v = true →
    ValueText (b.opening :: (v ++ [b.closing]))
  | items {b : Bracket} {v t w : List Char} : isAllBlank v = true → isAllBlank w = true →
    ItemsText b t → ValueText (b.opening :: (v ++ (t ++ (w ++ [b.closing]))))

inductive ItemText : Bracket → List Char → Prop
  | element {t : List Char} : ValueText t → ItemText .square t
  | member {k v w t : List Char} {pieces : List Piece} : Written PieceSpelling k pieces →
    isAllBlank v = true → isAllBlank w = true → ValueText t →
    ItemText .curly ('"' :: (k ++ '"' :: (v ++ ':' :: (w ++ t))))

inductive ItemsText : Bracket → List Char → Prop
  | one {b : Bracket} {t : List Char} : ItemText b t → ItemsText b t
  | cons {b : Bracket} {t v w s : List Char} : ItemText b t → isAllBlank v = true →
    isAllBlank w = true → ItemsText b s → ItemsText b (t ++ (v ++ ',' :: (w ++ s)))

end

theorem followValue_below {l base : List Bracket} {b : Bracket} {c : Char} {st : State}
    (hn : followValue l c = none) (h : followValue (l ++ b :: base) c = some st) : l = [] := by
  cases l with
  | nil => rfl
  | cons x l =>
    simp only [List.cons_append, followValue] at hn h
    split_ifs at hn h
    split at hn <;> simp_all

theorem startExponent_below {l base : List Bracket} {b : Bracket} {c : Char} {st : State}
    (hn : startExponent l c = none) (h : startExponent (l ++ b :: base) c = some st) :
    l = [] ∧ followValue (b :: base) c = some st := by
  unfold startExponent at hn h
  split_ifs at hn h
  have hl := followValue_below hn h
  subst hl
  exact ⟨rfl, h⟩

theorem startValue_eq_none {l l' : List Bracket} {c : Char} (h : startValue l c = none) :
    startValue l' c = none := by
  unfold startValue at h ⊢
  split at h <;> simp_all

theorem step_below {l base : List Bracket} {b : Bracket} {phase : Phase} {c : Char} {st : State}
    (hp : Proper (l, phase)) (h : step (l ++ b :: base) phase c = some st) :
    (∃ st', step l phase c = some st' ∧ st = (st'.1 ++ b :: base, st'.2) ∧ Proper st') ∨
      l = [] ∧ phase.mayEnd = true ∧ followValue (b :: base) c = some st := by
  cases hs : step l phase c with
  | some st' =>
    obtain ⟨hf, hst⟩ := step_frame hp hs (b :: base)
    rw [h] at hf
    exact .inl ⟨st', rfl, Option.some.inj hf, hst⟩
  | none =>
    -- the value itself stops here, so the character can only follow it inside the bracket below
    right
    cases phase <;> simp only [step] at h hs
    case ended =>
      have hl := followValue_below hs h
      subst hl
      exact ⟨rfl, rfl, h⟩
    case hex isKey left => cases left <;> grind
    case word left =>
      cases left with
      | nil => cases h
      | cons d left => cases left <;> grind
    case exponentDigits =>
      split_ifs at h hs
      have hl := followValue_below hs h
      subst hl
      exact ⟨rfl, rfl, h⟩
    all_goals grind [Phase.mayEnd, startValue_eq_none, startExponent_below]

/-- A value inside a bracket ends before the bracket is closed: what completes it stands in front,
and the character after it belongs to the bracket. -/
theorem run_cut {l : List Bracket} {b : Bracket} {phase last : Phase} {s : List Char}
    (hp : Proper (l, phase)) (h : run (l ++ [b], phase) s = some ([], last)) :
    ∃ v c rest done, s = v ++ c :: rest ∧ run (l, phase) v = some ([], done) ∧
      done.mayEnd = true ∧ (followValue [b] c).bind (fun st => run st rest) = some ([], last) := by
  induction s generalizing l phase with
  | nil =>
    rw [run, Option.some.injEq, Prod.mk.injEq] at h
    simp at h
  | cons c s ih =>
    obtain ⟨st, hs, hr⟩ := Option.bind_eq_some_iff.1 h
    rcases step_below hp hs with ⟨⟨l', phase'⟩, hs', rfl, hp'⟩ | ⟨rfl, he, hf⟩
    · obtain ⟨v, d, rest, done, rfl, hv, he, hd⟩ := ih hp' hr
      refine ⟨c :: v, d, rest, done, rfl, ?_, he, hd⟩
      rw [run, hs']
      exact hv
    · refine ⟨[], c, s, phase, rfl, rfl, he, ?_⟩
      rw [hf]
      exact hr

theorem run_ended_nil {s : List Char} {st : State} (h : run ([], .ended) s = some st) : s = [] := by
  cases s with
  | nil => rfl
  | cons c s => cases h

theorem followValue_cases {b : Bracket} {c : Char} {st : State} (h : followValue [b] c = some st) :
    isBlank c = true ∧ st = ([b], .ended) ∨ c = ',' ∧ st = ([b], b.next) ∨
      c = b.closing ∧ st = ([], .ended) := by
  simp only [followValue] at h
  split_ifs at h with hc
  · cases h
    exact .inl ⟨hc, rfl⟩
  · split at h <;> cases h
    · exact .inr (.inl ⟨rfl, rfl⟩)
    · exact .inr (.inr ⟨rfl, rfl⟩)
    · exact .inr (.inl ⟨rfl, rfl⟩)
    · exact .inr (.inr ⟨rfl, rfl⟩)

/-- After a value come blanks and a comma or the closing bracket. -/
theorem after_value {b : Bracket} {c : Char} {rest : List Char} {last : Phase}
    (h : (followValue [b] c).bind (fun st => run st rest) = some ([], last)) :
    ∃ w d rest', c :: rest = w ++ d :: rest' ∧ isAllBlank w = true ∧
      (d = ',' ∧ run ([b], b.next) rest' = some ([], last) ∨ d = b.closing ∧ rest' = []) := by
  induction rest generalizing c with
  | nil =>
    obtain ⟨st, hf, hr⟩ := Option.bind_eq_some_iff.1 h
    cases hr
    rcases followValue_cases hf with ⟨-, h⟩ | ⟨-, h⟩ | ⟨rfl, -⟩
    · cases h
    · cases h
    · exact ⟨[], b.closing, [], rfl, rfl, .inr ⟨rfl, rfl⟩⟩
  | cons c' rest ih =>
    obtain ⟨st, hf, hr⟩ := Option.bind_eq_some_iff.1 h
    rcases followValue_cases hf with ⟨hc, rfl⟩ | ⟨rfl, rfl⟩ | ⟨rfl, rfl⟩
    · obtain ⟨w, d, rest', he, hw, hd⟩ := ih hr
      exact ⟨c :: w, d, rest', by rw [he, List.cons_append], isAllBlank_cons.2 ⟨hc, hw⟩, hd⟩
    · exact ⟨[], ',', c' :: rest, rfl, rfl, .inl ⟨rfl, hr⟩⟩
    · cases run_ended_nil hr

theorem exists_unescape? {c : Char} (h : isEscapeLetter c = true) : ∃ d, unescape? c = some d := by
  simp only [isEscapeLetter, Bool.or_eq_true, beq_iff_eq] at h
  rcases h with ((((((rfl | rfl) | rfl) | rfl) | rfl) | rfl) | rfl) | rfl <;> exact ⟨_, rfl⟩

theorem exists_hexUnit? {a b c d : Char} (ha : isHexDigit a = true) (hb : isHexDigit b = true)
    (hc : isHexDigit c = true) (hd : isHexDigit d = true) : ∃ n, hexUnit? a b c d = some n := by
  obtain ⟨x, hx⟩ := Option.isSome_iff_exists.1 ha
  obtain ⟨y, hy⟩ := Option.isSome_iff_exists.1 hb
  obtain ⟨z, hz⟩ := Option.isSome_iff_exists.1 hc
  obtain ⟨w, hw⟩ := Option.isSome_iff_exists.1 hd
  exact Option.isSome_iff_exists.1 (by simp [hexUnit?, hx, hy, hz, hw])

/-- Digits still to come are there and are followed by more of the string. -/
theorem hex_of_run {stack : List Bracket} {isKey : Bool} {left : Nat} {s : List Char} {st : State}
    (h : run (stack, .hex isKey left) s = some st) (he : st.2.mayEnd = true) :
    ∃ c rest, s = c :: rest ∧ isHexDigit c = true ∧
      run (stack, match left with
        | 0 => .string isKey
        | left + 1 => .hex isKey left) rest = some st := by
  cases s with
  | nil =>
    cases h
    cases he
  | cons c rest =>
    obtain ⟨st', hs, hr⟩ := Option.bind_eq_some_iff.1 h
    refine ⟨c, rest, rfl, ?_⟩
    simp only [step] at hs
    split_ifs at hs with hc
    cases left <;> cases hs <;> exact ⟨hc, hr⟩

/-- After a backslash comes what makes a piece with it. -/
theorem escape_of_run {stack : List Bracket} {isKey : Bool} {s : List Char} {st : State}
    (h : run (stack, .escape isKey) s = some st) (he : st.2.mayEnd = true) :
    ∃ w piece rest, s = w ++ rest ∧ PieceSpelling piece ('\\' :: w) ∧
      run (stack, .string isKey) rest = some st := by
  cases s with
  | nil =>
    cases h
    cases he
  | cons e s =>
    obtain ⟨st', hs, hr⟩ := Option.bind_eq_some_iff.1 h
    simp only [step, beq_iff_eq] at hs
    split_ifs at hs with hu hl
    · cases hs
      subst hu
      obtain ⟨a, s, rfl, ha, hr⟩ := hex_of_run hr he
      obtain ⟨b, s, rfl, hb, hr⟩ := hex_of_run hr he
      obtain ⟨c, s, rfl, hc, hr⟩ := hex_of_run hr he
      obtain ⟨d, s, rfl, hd, hr⟩ := hex_of_run hr he
      obtain ⟨n, hn⟩ := exists_hexUnit? ha hb hc hd
      exact ⟨['u', a, b, c, d], .unit n, s, rfl, .unit hn, hr⟩
    · cases hs
      obtain ⟨c, hc⟩ := exists_unescape? hl
      exact ⟨[e], .char c, s, rfl, .letter hc, hr⟩

/-- A string that comes to an end is made of pieces and a quotation mark. -/
theorem string_of_run {stack : List Bracket} {isKey : Bool} {s : List Char} {st : State}
    (h : run (stack, .string isKey) s = some st) (he : st.2.mayEnd = true) :
    ∃ k pieces rest, s = k ++ '"' :: rest ∧ Written PieceSpelling k pieces ∧
      run (stack, stringEnd isKey) rest = some st := by
  match s with
  | [] =>
    cases h
    cases he
  | c :: s =>
    obtain ⟨st', hs, hr⟩ := Option.bind_eq_some_iff.1 h
    simp only [step, beq_iff_eq] at hs
    split_ifs at hs with hq hb hc
    · cases hs
      subst hq
      exact ⟨[], [], s, rfl, .nil, hr⟩
    · cases hs
      subst hb
      obtain ⟨w, piece, s', rfl, hw, hs'⟩ := escape_of_run hr he
      have hlt : s'.length < ('\\' :: (w ++ s')).length := by
        simp only [List.length_cons, List.length_append]
        omega
      obtain ⟨k, pieces, rest, rfl, hk, hrest⟩ := string_of_run hs' he
      exact ⟨'\\' :: (w ++ k), _, rest, by simp, .cons hw hk, hrest⟩
    · cases hs
      obtain ⟨k, pieces, rest, rfl, hk, hrest⟩ := string_of_run hr he
      exact ⟨c :: k, _, rest, rfl, .cons (.raw (Bool.eq_false_iff.2 hc) hq hb) hk, hrest⟩
termination_by s.length

theorem word_of_run {left s : List Char} {last : Phase} (hl : left ≠ [])
    (h : run ([], .word left) s = some ([], last)) (he : last.mayEnd = true) : s = left := by
  induction left generalizing s with
  | nil => exact absurd rfl hl
  | cons d left ih =>
    cases s with
    | nil =>
      cases h
      cases he
    | cons c s =>
      obtain ⟨st', hs, hr⟩ := Option.bind_eq_some_iff.1 h
      cases left with
      | nil =>
        simp only [step, beq_iff_eq] at hs
        split_ifs at hs with hc
        cases hs
        rw [hc, run_ended_nil hr]
      | cons d' left =>
        simp only [step, beq_iff_eq] at hs
        split_ifs at hs with hc
        cases hs
        rw [hc, ih (by simp) hr]

theorem run_skipBlanks {st : State} (hs : ∀ c, isBlank c = true → step st.1 st.2 c = some st)
    (s : List Char) : run st s = run st (skipBlanks s) := by
  obtain ⟨u, hu, he⟩ := eq_blanks_append s
  rw [he, run_append, run_blanks hu hs, Option.bind_some, ← he]

theorem lexeme_of_cut {s v rest : List Char} {done : Phase} (hs : skipBlanks s = v ++ rest)
    (h : run ([], .value) v = some ([], done)) (hd : done.mayEnd = true) : Lexeme v := by
  refine ⟨?_, done, h, hd⟩
  cases v with
  | nil => rfl
  | cons d v => exact skipBlanks_eq_self (by simpa using not_blank_of_skipBlanks_eq hs)

/-- After a key come blanks and a colon. -/
theorem colon_of_run {s : List Char} {last : Phase}
    (h : run ([.curly], .colon) s = some ([], last)) : ∃ v after, s = v ++ ':' :: after ∧
      isAllBlank v = true ∧ run ([.curly], .value) after = some ([], last) := by
  rw [run_skipBlanks (fun c hc => by simp [step, hc])] at h
  obtain ⟨v, hv, he⟩ := eq_blanks_append s
  cases hs : skipBlanks s with
  | nil =>
    rw [hs] at h
    cases h
  | cons d after =>
    rw [hs] at h he
    obtain ⟨st, hstep, hr⟩ := Option.bind_eq_some_iff.1 h
    have hd := not_blank_of_skipBlanks_eq hs
    simp only [step, hd, Bool.false_eq_true, if_false, beq_iff_eq] at hstep
    split_ifs at hstep with hc
    cases hstep
    subst hc
    exact ⟨v, after, he, hv, hr⟩

section
variable {n : Nat} (ih : ∀ v : List Char, v.length < n → Lexeme v → ValueText v)
include ih

/-- Inside a bracket a value comes first, after blanks. -/
theorem value_of_run {b : Bracket} {s : List Char} {last : Phase} (hn : s.length ≤ n)
    (h : run ([b], .value) s = some ([], last)) :
    ∃ v c rest, skipBlanks s = v ++ c :: rest ∧ ValueText v ∧
      (followValue [b] c).bind (fun st => run st rest) = some ([], last) := by
  rw [run_skipBlanks (fun c hc => by simp [step, hc])] at h
  have hp : Proper ([], .value) := by simp [Proper, Phase.opens]
  obtain ⟨v, c, rest, done, hs, hv, hd, hf⟩ := run_cut hp h
  have hl : v.length < n := by
    have hle := skipBlanks_le s
    rw [hs, List.length_append, List.length_cons] at hle
    omega
  exact ⟨v, c, rest, hs, ih v hl (lexeme_of_cut hs hv hd), hf⟩

theorem member_of_run {s : List Char} {last : Phase} (hn : s.length ≤ n)
    (hb : skipBlanks s = s) (h : run ([.curly], .key) s = some ([], last))
    (he : last.mayEnd = true) : ∃ t c rest, s = t ++ c :: rest ∧ ItemText .curly t ∧
      (followValue [.curly] c).bind (fun st => run st rest) = some ([], last) := by
  cases s with
  | nil => cases h
  | cons c s =>
    have hc := not_blank_of_skipBlanks_eq hb
    obtain ⟨st', hs, hr⟩ := Option.bind_eq_some_iff.1 h
    simp only [step, hc, Bool.false_eq_true, if_false, beq_iff_eq] at hs
    split_ifs at hs with hq
    cases hs
    subst hq
    obtain ⟨k, pieces, rest, rfl, hk, hr⟩ := string_of_run hr he
    obtain ⟨v, after, rfl, hv, hr⟩ := colon_of_run hr
    have hlen : after.length ≤ n := by
      simp only [List.length_cons, List.length_append] at hn
      omega
    obtain ⟨t, c, rest, hsk, ht, hf⟩ := value_of_run ih hlen hr
    obtain ⟨w, hw, hew⟩ := eq_blanks_append after
    refine ⟨_, c, rest, ?_, .member hk hv hw ht, hf⟩
    rw [hew, hsk]
    simp

theorem item_of_run {b : Bracket} {s : List Char} {last : Phase} (hn : s.length ≤ n)
    (hb : skipBlanks s = s) (h : run ([b], b.next) s = some ([], last))
    (he : last.mayEnd = true) : ∃ t c rest, s = t ++ c :: rest ∧ ItemText b t ∧
      (followValue [b] c).bind (fun st => run st rest) = some ([], last) := by
  cases b with
  | square =>
    obtain ⟨v, c, rest, hs, hv, hf⟩ := value_of_run ih hn h
    exact ⟨v, c, rest, by rw [← hs, hb], .element hv, hf⟩
  | curly => exact member_of_run ih hn hb h he

/-- What comes to the closing bracket is items with commas between them. -/
theorem items_of_run {b : Bracket} {s : List Char} {last : Phase} (hn : s.length ≤ n)
    (hb : skipBlanks s = s) (h : run ([b], b.next) s = some ([], last))
    (he : last.mayEnd = true) : ∃ t w, s = t ++ (w ++ [b.closing]) ∧ isAllBlank w = true ∧
      ItemsText b t := by
  -- on the length of what is left: after a comma it is less
  obtain ⟨t, c, rest, hs, ht, hf⟩ := item_of_run ih hn hb h he
  obtain ⟨w, d, rest', hw, hblank, ⟨rfl, hr⟩ | ⟨rfl, rfl⟩⟩ := after_value hf
  · have hlen : (skipBlanks rest').length < s.length := by
      have hle := skipBlanks_le rest'
      rw [hs, hw]
      simp only [List.length_append, List.length_cons]
      omega
    rw [run_skipBlanks (fun c hc => by cases b <;> simp [Bracket.next, step, hc])] at hr
    obtain ⟨t', w', hs', hw', ht'⟩ := items_of_run (by omega) (skipBlanks_idem rest') hr he
    obtain ⟨v, hv, hev⟩ := eq_blanks_append rest'
    refine ⟨_, w', ?_, hw', .cons ht hblank hv ht'⟩
    rw [hs, hw, hev, hs']
    simp
  · exact ⟨t, w, by rw [hs, hw], hblank, .one ht⟩
termination_by s.length

/-- What is between the brackets, the closing one included. -/
theorem bracketed_of_run {b : Bracket} {s : List Char} {last : Phase} (hn : s.length ≤ n)
    (h : run ([b], b.first) s = some ([], last)) (he : last.mayEnd = true) :
    ValueText (b.opening :: s) := by
  rw [run_skipBlanks (fun c hc => by cases b <;> simp [Bracket.first, step, hc])] at h
  obtain ⟨u, hu, hs⟩ := eq_blanks_append s
  cases hsk : skipBlanks s with
  | nil =>
    rw [hsk] at h
    cases h
  | cons c t =>
    rw [hsk] at h hs
    have hc := not_blank_of_skipBlanks_eq hsk
    by_cases hcb : c = b.closing
    · subst hcb
      have hclose : step [b] b.first b.closing = some ([], .ended) := by cases b <;> rfl
      rw [run, hclose] at h
      cases run_ended_nil h
      rw [hs]
      exact .empty b hu
    · rw [run_first hc hcb] at h
      have hlen : (c :: t).length ≤ n := by
        rw [hs, List.length_append] at hn
        omega
      have hct : skipBlanks (c :: t) = c :: t := by rw [← hsk, skipBlanks_idem]
      obtain ⟨t', w, he', hw, ht'⟩ := items_of_run ih hlen hct h he
      rw [hs, he']
      exact .items hu hw ht'

end

theorem Lexeme.valueText {v : Source} (h : Lexeme v) : ValueText v := by
  have ih : ∀ v' : List Char, v'.length < v.length → Lexeme v' → ValueText v' :=
    fun v' hlt h' => h'.valueText
  obtain ⟨c, s, rfl, hc⟩ := h.exists_cons
  obtain ⟨-, last, hr, he⟩ := h
  have hv : Ends .value (c :: s) := ⟨last, hr, he⟩
  have hn : s.length ≤ (c :: s).length := Nat.le_succ _
  obtain ⟨st, hs, hr⟩ := Option.bind_eq_some_iff.1 hr
  simp only [step, hc, Bool.false_eq_true, if_false] at hs
  unfold startValue at hs
  split at hs
  case h_9 =>
    split_ifs at hs with hd
    exact .number (numberText_of_ends (.inr hd) hv)
  all_goals cases hs
  · exact bracketed_of_run ih hn hr he
  · exact bracketed_of_run ih hn hr he
  · obtain ⟨k, pieces, rest, rfl, hk, hr⟩ := string_of_run hr he
    cases run_ended_nil hr
    exact .string hk
  · rw [word_of_run (by simp) hr he]
    exact .word (by decide)
  · rw [word_of_run (by simp) hr he]
    exact .word (by decide)
  · rw [word_of_run (by simp) hr he]
    exact .word (by decide)
  · exact .number (numberText_of_ends (.inl rfl) hv)
  · exact .number (numberText_of_ends (.inr rfl) hv)
termination_by v.length

def Fits (b : Bracket) (_ : Unit) (t : List Char) : Prop := Starts t ∧ Scans b t

theorem lexeme_of_fits {b : Bracket} {t : List Char} {xs : List Unit}
    (h : Bracketed b (Fits b) t xs) : Lexeme t :=
  h.isLexeme (fun _ _ ht => ht.1) fun _ _ ht => ht.2

mutual

theorem ValueText.lexeme {v : List Char} : ValueText v → Lexeme v
  | .word hw => by
    simp only [words, List.mem_cons, List.not_mem_nil, or_false] at hw
    rcases hw with rfl | rfl | rfl <;> exact ⟨rfl, .ended, rfl, rfl⟩
  | .number hv => hv.lexeme
  | .string hk => ⟨rfl, .ended, run_written hk [] false, rfl⟩
  | .empty _ hv => lexeme_of_fits (.empty hv)
  | .items hv hw ht => by
    obtain ⟨xs, hxs⟩ := ht.separated
    exact lexeme_of_fits (.items hv hw hxs)

theorem ItemText.fits {b : Bracket} {t : List Char} : ItemText b t → Fits b () t
  | .element hv => ⟨hv.lexeme.starts, hv.lexeme.scans⟩
  | .member hk hv hw ht =>
    ⟨⟨'"', _, rfl, rfl, fun b => by cases b <;> decide⟩, scans_keyed hk hv hw ht.lexeme⟩

theorem ItemsText.separated {b : Bracket} {t : List Char} : ItemsText b t →
    ∃ xs : List Unit, Separated (Fits b) t xs
  | .one ht => ⟨[()], .one ht.fits⟩
  | .cons ht hv hw hs => by
    obtain ⟨xs, hxs⟩ := hs.separated
    exact ⟨() :: xs, .cons ht.fits hv hw hxs⟩

end

/-- The scanner takes for values what the rules derive, and nothing else. -/
theorem lexeme_iff_valueText {v : Source} : Lexeme v ↔ ValueText v :=
  ⟨Lexeme.valueText, ValueText.lexeme⟩

theorem Separated.itemsText {α : Type} {Item : α → List Char → Prop} {b : Bracket}
    (hi : ∀ x t, Item x t → ItemText b t) {t : List Char} {xs : List α} (h : Separated Item t xs) :
    ItemsText b t := by
  induction h with
  | one hx => exact .one (hi _ _ hx)
  | cons hx hv hw _ ih => exact .cons (hi _ _ hx) hv hw ih

theorem Bracketed.valueText {α : Type} {Item : α → List Char → Prop} {b : Bracket}
    (hi : ∀ x t, Item x t → ItemText b t) {t : List Char} {xs : List α}
    (h : Bracketed b Item t xs) : ValueText t := by
  cases h with
  | empty hv => exact .empty b hv
  | items hv hw hsep => exact .items hv hw (hsep.itemsText hi)

/-- A text has one value exactly when it is that value with blanks around it. -/
theorem value?_eq_some {s : List Char} {v : Source} :
    value? s = some v ↔ Padded (fun t => t = v ∧ ValueText t) s := by
  constructor
  · intro h
    unfold value? at h
    split at h
    next t rest ht =>
      split_ifs at h with hr
      cases h
      obtain ⟨u, hu, hs⟩ := eq_blanks_append s
      refine ⟨u, v, rest, ?_, hu, hr, rfl, (lexeme_of_takeValue ht).valueText⟩
      rw [hs, takeValue_append ht]
    next => cases h
  · intro h
    obtain ⟨t, ht, rfl, -⟩ := value?_of_padded h fun t ht => ht.2.lexeme
    exact ht

theorem valueText_of_value? {s : List Char} {v : Source} (h : value? s = some v) : ValueText v := by
  obtain ⟨_, _, _, -, -, -, rfl, hv⟩ := value?_eq_some.1 h
  exact hv

end InferenceRecorder.Json
