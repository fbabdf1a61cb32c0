import InferenceRecorder.Proofs.Json.Scan

/-!
The spelling of a number: a sign, an integer without leading zeros, a fraction and an exponent, of
which only the integer has to be there. The scanner takes exactly these spellings.
-/
namespace InferenceRecorder.Json

def AllDigits (s : List Char) : Prop := ∀ c ∈ s, c.isDigit = true

def SomeDigits (s : List Char) : Prop := s ≠ [] ∧ AllDigits s

inductive IntegerText : List Char → Prop
  | zero : IntegerText ['0']
  | digits {c : Char} {s : List Char} : c.isDigit = true → c ≠ '0' → AllDigits s →
    IntegerText (c :: s)

inductive FractionText : List Char → Prop
  | none : FractionText []
  | some {s : List Char} : SomeDigits s → FractionText ('.' :: s)

inductive SignText : List Char → Prop
  | none : SignText []
  | plus : SignText ['+']
  | minus : SignText ['-']

inductive ExponentText : List Char → Prop
  | none : ExponentText []
  | some {c : Char} {sign s : List Char} : c = 'e' ∨ c = 'E' → SignText sign → SomeDigits s →
    ExponentText (c :: (sign ++ s))

def TailText (s : List Char) : Prop := ∃ f e, s = f ++ e ∧ FractionText f ∧ ExponentText e

inductive NumberText : List Char → Prop
  | plain {i s : List Char} : IntegerText i → TailText s → NumberText (i ++ s)
  | negative {i s : List Char} : IntegerText i → TailText s → NumberText ('-' :: (i ++ s))

def Ends (phase : Phase) (s : List Char) : Prop :=
  ∃ last, run ([], phase) s = some ([], last) ∧ last.mayEnd = true

theorem not_blank_of_isDigit {c : Char} (h : c.isDigit = true) : isBlank c = false := by
  refine Bool.eq_false_iff.2 fun hb => ?_
  simp only [isBlank, Bool.or_eq_true, beq_iff_eq] at hb
  rcases hb with ((rfl | rfl) | rfl) | rfl <;> cases h

theorem ends_nil {phase : Phase} : Ends phase [] ↔ phase.mayEnd = true := by
  simp [Ends, run]

theorem ends_cons {phase : Phase} {c : Char} (next : Phase)
    (h : step [] phase c = some ([], next)) (s : List Char) :
    Ends phase (c :: s) ↔ Ends next s := by
  simp [Ends, run, h]

theorem not_ends_cons {phase : Phase} {c : Char} (h : step [] phase c = none) (s : List Char) :
    ¬Ends phase (c :: s) := by
  simp [Ends, run, h]

theorem ends_exponentDigits {s : List Char} : Ends .exponentDigits s ↔ AllDigits s := by
  induction s with
  | nil => simp [ends_nil, Phase.mayEnd, AllDigits]
  | cons c s ih =>
    by_cases hc : c.isDigit = true
    · rw [ends_cons .exponentDigits (by simp [step, hc]), ih]
      simp [AllDigits, hc]
    · have hn : ¬Ends .exponentDigits (c :: s) :=
        not_ends_cons (by simp [step, hc, followValue]) s
      simp [hn, AllDigits, hc]

theorem ends_exponentSign {s : List Char} : Ends .exponentSign s ↔ SomeDigits s := by
  cases s with
  | nil => simp [ends_nil, Phase.mayEnd, SomeDigits]
  | cons c s =>
    by_cases hc : c.isDigit = true
    · rw [ends_cons .exponentDigits (by simp [step, hc]), ends_exponentDigits]
      simp [SomeDigits, AllDigits, hc]
    · have hn : ¬Ends .exponentSign (c :: s) := not_ends_cons (by simp [step, hc]) s
      simp [hn, SomeDigits, AllDigits, hc]

theorem ends_exponent {s : List Char} :
    Ends .exponent s ↔ ∃ sign ds, s = sign ++ ds ∧ SignText sign ∧ SomeDigits ds := by
  constructor
  · intro h
    cases s with
    | nil => cases ends_nil.1 h
    | cons c s =>
      by_cases hc : c.isDigit = true
      · rw [ends_cons .exponentDigits (by simp [step, hc]), ends_exponentDigits] at h
        exact ⟨[], c :: s, rfl, .none, by simp, List.forall_mem_cons.2 ⟨hc, h⟩⟩
      · by_cases hs : c = '+' ∨ c = '-'
        · rw [ends_cons .exponentSign (by simp [step, hc, hs]), ends_exponentSign] at h
          rcases hs with rfl | rfl
          · exact ⟨['+'], s, rfl, .plus, h⟩
          · exact ⟨['-'], s, rfl, .minus, h⟩
        · exact absurd h (not_ends_cons (by simp [step, hc, hs]) s)
  · rintro ⟨sign, ds, rfl, hsign, hds⟩
    cases hsign with
    | none =>
      obtain ⟨hne, hds⟩ := hds
      cases ds with
      | nil => exact absurd rfl hne
      | cons d ds =>
        obtain ⟨hd, hds⟩ := List.forall_mem_cons.1 hds
        exact (ends_cons _ (by simp [step, hd]) ds).2 (ends_exponentDigits.2 hds)
    | plus => exact (ends_cons _ rfl ds).2 (ends_exponentSign.2 hds)
    | minus => exact (ends_cons _ rfl ds).2 (ends_exponentSign.2 hds)

/-- Where an exponent may start, that or the end has to come. -/
theorem ends_of_startExponent {phase : Phase} (hp : phase.mayEnd = true) {s : List Char}
    (h : ∀ c ∈ s.head?, step [] phase c = startExponent [] c) :
    Ends phase s ↔ ExponentText s := by
  cases s with
  | nil => exact iff_of_true (ends_nil.2 hp) .none
  | cons c s =>
    have hc := h c rfl
    by_cases he : c = 'e' ∨ c = 'E'
    · rw [ends_cons .exponent (by simp [hc, startExponent, he]), ends_exponent]
      constructor
      · rintro ⟨sign, ds, rfl, hsign, hds⟩
        exact .some he hsign hds
      · intro ht
        cases ht with
        | some _ hsign hds => exact ⟨_, _, rfl, hsign, hds⟩
    · have hn : ¬Ends phase (c :: s) :=
        not_ends_cons (by simp [hc, startExponent, he, followValue]) s
      refine iff_of_false hn fun ht => ?_
      cases ht with
      | some hc' _ _ => exact he hc'

theorem ExponentText.head {s : List Char} (h : ExponentText s) :
    ∀ c ∈ s.head?, c = 'e' ∨ c = 'E' := by
  cases h with
  | none => simp
  | some hc _ _ => simpa using hc

theorem ends_digits {phase : Phase}
    (hp : ∀ c : Char, c.isDigit = true → step [] phase c = some ([], phase)) {ds : List Char}
    (hds : AllDigits ds) (s : List Char) : Ends phase (ds ++ s) ↔ Ends phase s := by
  induction ds with
  | nil => rfl
  | cons d ds ih =>
    obtain ⟨hd, hds⟩ := List.forall_mem_cons.1 hds
    rw [List.cons_append, ends_cons _ (hp d hd), ih hds]

/-- Digits come before what is left of a text. -/
theorem eq_digits_append (s : List Char) :
    ∃ ds t, s = ds ++ t ∧ AllDigits ds ∧ ∀ c ∈ t.head?, c.isDigit = false := by
  refine ⟨s.takeWhile Char.isDigit, s.dropWhile Char.isDigit, ?_, ?_, ?_⟩
  · exact List.takeWhile_append_dropWhile.symm
  · exact List.all_eq_true.1 List.all_takeWhile
  · intro c hc
    have ht := List.head?_dropWhile_not Char.isDigit s
    rw [Option.mem_def] at hc
    rwa [hc] at ht

theorem not_digit_of_exponent {c : Char} (h : c = 'e' ∨ c = 'E') : c.isDigit = false := by
  rcases h with rfl | rfl <;> rfl

theorem ends_fraction {s : List Char} :
    Ends .fraction s ↔ ∃ ds e, s = ds ++ e ∧ AllDigits ds ∧ ExponentText e := by
  have hloop : ∀ c : Char, c.isDigit = true → step [] .fraction c = some ([], .fraction) :=
    fun c hc => by simp [step, hc]
  have hend {t : List Char} (ht : ∀ c ∈ t.head?, c.isDigit = false) :
      Ends .fraction t ↔ ExponentText t :=
    ends_of_startExponent rfl fun c hc => by simp [step, ht c hc]
  constructor
  · intro h
    obtain ⟨ds, t, rfl, hds, ht⟩ := eq_digits_append s
    exact ⟨ds, t, rfl, hds, (hend ht).1 ((ends_digits hloop hds t).1 h)⟩
  · rintro ⟨ds, e, rfl, hds, he⟩
    refine (ends_digits hloop hds e).2 ((hend fun c hc => ?_).2 he)
    exact not_digit_of_exponent (he.head c hc)

theorem ends_point {s : List Char} :
    Ends .point s ↔ ∃ ds e, s = ds ++ e ∧ SomeDigits ds ∧ ExponentText e := by
  constructor
  · intro h
    cases s with
    | nil => cases ends_nil.1 h
    | cons c s =>
      by_cases hc : c.isDigit = true
      · rw [ends_cons .fraction (by simp [step, hc]), ends_fraction] at h
        obtain ⟨ds, e, rfl, hds, he⟩ := h
        exact ⟨c :: ds, e, rfl, ⟨by simp, List.forall_mem_cons.2 ⟨hc, hds⟩⟩, he⟩
      · exact absurd h (not_ends_cons (by simp [step, hc]) s)
  · rintro ⟨ds, e, rfl, ⟨hne, hds⟩, he⟩
    cases ds with
    | nil => exact absurd rfl hne
    | cons d ds =>
      obtain ⟨hd, hds⟩ := List.forall_mem_cons.1 hds
      refine (ends_cons .fraction (by simp [step, hd]) (ds ++ e)).2 ?_
      exact ends_fraction.2 ⟨ds, e, rfl, hds, he⟩

theorem TailText.head {s : List Char} (h : TailText s) :
    ∀ c ∈ s.head?, c.isDigit = false := by
  obtain ⟨f, e, rfl, hf, he⟩ := h
  cases hf with
  | none => exact fun c hc => not_digit_of_exponent (he.head c hc)
  | some _ =>
    intro c hc
    cases hc
    rfl

theorem tailText_point {s : List Char} :
    TailText ('.' :: s) ↔ ∃ ds e, s = ds ++ e ∧ SomeDigits ds ∧ ExponentText e := by
  constructor
  · rintro ⟨f, e, h, hf, he⟩
    cases hf with
    | none =>
      rw [List.nil_append] at h
      subst h
      exact absurd (he.head '.' rfl) (by decide)
    | some hds =>
      cases h
      exact ⟨_, e, rfl, hds, he⟩
  · rintro ⟨ds, e, rfl, hds, he⟩
    exact ⟨'.' :: ds, e, rfl, .some hds, he⟩

theorem tailText_of_ne {s : List Char} (h : ∀ c ∈ s.head?, c ≠ '.') :
    TailText s ↔ ExponentText s := by
  constructor
  · rintro ⟨f, e, rfl, hf, he⟩
    cases hf with
    | none => exact he
    | some _ => exact absurd rfl (h '.' rfl)
  · exact fun he => ⟨[], s, rfl, .none, he⟩

/-- Where a fraction may start, that, an exponent or the end has to come. -/
theorem ends_of_startFraction {phase : Phase} (hp : phase.mayEnd = true) {s : List Char}
    (h : ∀ c ∈ s.head?, step [] phase c =
      if c == '.' then some ([], .point) else startExponent [] c) : Ends phase s ↔ TailText s := by
  by_cases hd : s.head? = some '.'
  · obtain ⟨t, rfl⟩ := List.head?_eq_some_iff.1 hd
    rw [ends_cons _ (h '.' rfl), ends_point, tailText_point]
  · have hne : ∀ c ∈ s.head?, c ≠ '.' := by
      rintro c hc rfl
      exact hd hc
    rw [tailText_of_ne hne]
    exact ends_of_startExponent hp fun c hc => by simp [h c hc, hne c hc]

theorem ends_zero {s : List Char} : Ends .zero s ↔ TailText s :=
  ends_of_startFraction rfl fun _ _ => rfl

theorem ends_integer {s : List Char} :
    Ends .integer s ↔ ∃ ds t, s = ds ++ t ∧ AllDigits ds ∧ TailText t := by
  have hloop : ∀ c : Char, c.isDigit = true → step [] .integer c = some ([], .integer) :=
    fun c hc => by simp [step, hc]
  have hend {t : List Char} (ht : ∀ c ∈ t.head?, c.isDigit = false) :
      Ends .integer t ↔ TailText t :=
    ends_of_startFraction rfl fun c hc => by simp [step, ht c hc]
  constructor
  · intro h
    obtain ⟨ds, t, rfl, hds, ht⟩ := eq_digits_append s
    exact ⟨ds, t, rfl, hds, (hend ht).1 ((ends_digits hloop hds t).1 h)⟩
  · rintro ⟨ds, t, rfl, hds, ht⟩
    exact (ends_digits hloop hds t).2 ((hend ht.head).2 ht)

/-- The integer and what follows it, whether it starts a value or comes after a sign. -/
theorem ends_start {phase : Phase}
    (h0 : step [] phase '0' = some ([], .zero))
    (hd : ∀ c : Char, c.isDigit = true → c ≠ '0' → step [] phase c = some ([], .integer))
    {c : Char} (hc : c.isDigit = true) (s : List Char) :
    Ends phase (c :: s) ↔ ∃ i t, c :: s = i ++ t ∧ IntegerText i ∧ TailText t := by
  by_cases hz : c = '0'
  · subst hz
    rw [ends_cons _ h0, ends_zero]
    constructor
    · exact fun ht => ⟨['0'], s, rfl, .zero, ht⟩
    · rintro ⟨i, t, h, hi, ht⟩
      cases hi with
      | zero =>
        cases h
        exact ht
      | digits _ hne _ =>
        cases h
        exact absurd rfl hne
  · rw [ends_cons _ (hd c hc hz), ends_integer]
    constructor
    · rintro ⟨ds, t, rfl, hds, ht⟩
      exact ⟨c :: ds, t, rfl, .digits hc hz hds, ht⟩
    · rintro ⟨i, t, h, hi, ht⟩
      cases hi with
      | zero =>
        cases h
        exact absurd rfl hz
      | digits _ _ hds =>
        cases h
        exact ⟨_, t, rfl, hds, ht⟩

theorem IntegerText.head {i : List Char} (h : IntegerText i) :
    ∃ c s, i = c :: s ∧ c.isDigit = true := by
  cases h with
  | zero => exact ⟨'0', [], rfl, rfl⟩
  | digits hc _ _ => exact ⟨_, _, rfl, hc⟩

theorem ends_minus {s : List Char} :
    Ends .minus s ↔ ∃ i t, s = i ++ t ∧ IntegerText i ∧ TailText t := by
  have hd : ∀ c : Char, c.isDigit = true → c ≠ '0' → step [] .minus c = some ([], .integer) :=
    fun c hc hz => by simp [step, hc, hz]
  constructor
  · intro h
    cases s with
    | nil => cases ends_nil.1 h
    | cons c s =>
      by_cases hc : c.isDigit = true
      · exact (ends_start rfl hd hc s).1 h
      · have hz : c ≠ '0' := by
          rintro rfl
          exact hc rfl
        exact absurd h (not_ends_cons (by simp [step, hc, hz]) s)
  · rintro ⟨i, t, rfl, hi, ht⟩
    obtain ⟨c, s, rfl, hc⟩ := hi.head
    exact (ends_start rfl hd hc (s ++ t)).2 ⟨c :: s, t, rfl, hi, ht⟩

theorem step_value_digit {c : Char} (hc : c.isDigit = true) (hz : c ≠ '0') :
    step [] .value c = some ([], .integer) := by
  have hb : isBlank c = false := not_blank_of_isDigit hc
  simp only [step, hb, Bool.false_eq_true, if_false]
  unfold startValue
  split <;> simp_all

theorem NumberText.lexeme {v : List Char} (h : NumberText v) : Lexeme v := by
  cases h with
  | @plain i s hi hs =>
    obtain ⟨c, i, rfl, hc⟩ := hi.head
    refine ⟨skipBlanks_eq_self (by simpa using not_blank_of_isDigit hc), ?_⟩
    exact (ends_start rfl (fun _ => step_value_digit) hc (i ++ s)).2 ⟨c :: i, s, rfl, hi, hs⟩
  | @negative i s hi hs =>
    refine ⟨rfl, (ends_cons .minus rfl (i ++ s)).2 (ends_minus.2 ?_)⟩
    exact ⟨i, s, rfl, hi, hs⟩

/-- A value that starts like a number is one. -/
theorem numberText_of_ends {c : Char} {s : List Char} (hc : c = '-' ∨ c.isDigit = true)
    (h : Ends .value (c :: s)) : NumberText (c :: s) := by
  rcases hc with rfl | hc
  · obtain ⟨i, t, rfl, hi, ht⟩ := ends_minus.1 ((ends_cons .minus rfl s).1 h)
    exact .negative hi ht
  · obtain ⟨i, t, he, hi, ht⟩ := (ends_start rfl (fun _ => step_value_digit) hc s).1 h
    rw [he]
    exact .plain hi ht

end InferenceRecorder.Json
