import InferenceRecorder.Json.Source

/-!
The scanner as an automaton. A lexeme is a text that takes it from nothing to one complete value;
inside brackets it does the same and leaves the brackets as they are. Cutting a value off the front
of a text is finding the lexeme there.
-/
namespace InferenceRecorder.Json

def run : State → List Char → Option State
  | st, [] => some st
  | st, c :: s => (step st.1 st.2 c).bind fun st => run st s

theorem run_append (st : State) (s t : List Char) :
    run st (s ++ t) = (run st s).bind fun st => run st t := by
  induction s generalizing st with
  | nil => rfl
  | cons c s ih =>
    rw [List.cons_append, run, run]
    cases step st.1 st.2 c with
    | none => rfl
    | some st => exact ih st

def continues (c : Char) : Bool := c.isDigit || c == '.' || c == 'e' || c == 'E'

theorem startExponent_of_continues {c : Char} (hc : continues c = false) (stack : List Bracket) :
    startExponent stack c = followValue stack c := by
  simp only [continues, Bool.or_eq_false_iff] at hc
  simp [startExponent, hc]

/-- After a complete value only the brackets decide what comes. -/
theorem step_of_mayEnd {phase : Phase} {c : Char} (hp : phase.mayEnd = true)
    (hc : continues c = false) (stack : List Bracket) :
    step stack phase c = followValue stack c := by
  have he := startExponent_of_continues hc stack
  simp only [continues, Bool.or_eq_false_iff] at hc
  cases phase <;> simp_all [Phase.mayEnd, step]

theorem run_of_scan {stack : List Bracket} {phase : Phase} {taken s lexeme rest : List Char}
    (h : scan stack phase taken s = some (lexeme, rest)) :
    ∃ v st, s = v ++ rest ∧ lexeme = taken.reverse ++ v ∧ run (stack, phase) v = some st ∧
      accepts st.1 st.2 = true := by
  -- what has been taken grows with each character, and stands reversed in front of the lexeme
  induction s generalizing stack phase taken with
  | nil =>
    simp only [scan] at h
    split at h
    next ha =>
      cases h
      exact ⟨[], (stack, phase), rfl, by simp, rfl, ha⟩
    next => cases h
  | cons c s ih =>
    simp only [scan] at h
    split at h
    next stack' phase' hs =>
      obtain ⟨v, st, rfl, rfl, hr, ha⟩ := ih h
      refine ⟨c :: v, st, rfl, by simp, ?_, ha⟩
      rw [run, hs]
      exact hr
    next =>
      split at h
      next ha =>
        cases h
        exact ⟨[], (stack, phase), rfl, by simp, rfl, ha⟩
      next => cases h

theorem scan_of_run {stack : List Bracket} {phase : Phase} {v : List Char} {st : State}
    (h : run (stack, phase) v = some st) (ha : accepts st.1 st.2 = true) {rest : List Char}
    (hr : ∀ c ∈ rest.head?, step st.1 st.2 c = none) (taken : List Char) :
    scan stack phase taken (v ++ rest) = some (taken.reverse ++ v, rest) := by
  induction v generalizing stack phase taken with
  | nil =>
    cases h
    cases rest with
    | nil => simp_all [scan]
    | cons c rest => simp_all [scan]
  | cons c v ih =>
    obtain ⟨⟨stack', phase'⟩, hs, hv⟩ := Option.bind_eq_some_iff.1 h
    dsimp only at hs
    rw [List.cons_append, scan, hs]
    simpa using ih hv (c :: taken)

theorem accepts_iff {stack : List Bracket} {phase : Phase} :
    accepts stack phase = true ↔ stack = [] ∧ phase.mayEnd = true := by
  simp [accepts, List.isEmpty_iff]

structure Lexeme (v : Source) : Prop where
  trimmed : skipBlanks v = v
  complete : ∃ phase, run ([], .value) v = some ([], phase) ∧ phase.mayEnd = true

theorem skipBlanks_eq_self {s : List Char} (h : ∀ c ∈ s.head?, isBlank c = false) :
    skipBlanks s = s := by
  cases s with
  | nil => rfl
  | cons c s => simp [skipBlanks, h c rfl]

theorem not_blank_of_skipBlanks_eq {c : Char} {s t : List Char} (h : skipBlanks s = c :: t) :
    isBlank c = false := by
  have hc := List.head?_dropWhile_not isBlank s
  rw [skipBlanks] at h
  rwa [h] at hc

theorem skipBlanks_idem (s : List Char) : skipBlanks (skipBlanks s) = skipBlanks s := by
  cases hs : skipBlanks s with
  | nil => rfl
  | cons c t => exact skipBlanks_eq_self (by simpa using not_blank_of_skipBlanks_eq hs)

theorem isAllBlank_cons {c : Char} {u : List Char} :
    isAllBlank (c :: u) = true ↔ isBlank c = true ∧ isAllBlank u = true := by
  simp [isAllBlank]

theorem skipBlanks_append_of_allBlank {u : List Char} (hu : isAllBlank u = true) (s : List Char) :
    skipBlanks (u ++ s) = skipBlanks s :=
  List.dropWhile_append_of_pos (by simpa [isAllBlank] using hu)

/-- Blanks come before what is left of a text. -/
theorem eq_blanks_append (s : List Char) :
    ∃ u, isAllBlank u = true ∧ s = u ++ skipBlanks s :=
  ⟨s.takeWhile isBlank, List.all_takeWhile, (List.takeWhile_append_dropWhile).symm⟩

theorem lexeme_of_takeValue {s v rest : List Char}
    (h : takeValue (skipBlanks s) = some (v, rest)) : Lexeme v := by
  obtain ⟨v', st, hs, hv, hr, ha⟩ := run_of_scan h
  rw [List.reverse_nil, List.nil_append] at hv
  subst hv
  obtain ⟨stack, phase⟩ := st
  obtain ⟨rfl, hp⟩ := accepts_iff.1 ha
  refine ⟨?_, phase, hr, hp⟩
  cases v with
  | nil => rfl
  | cons c v =>
    have hc := not_blank_of_skipBlanks_eq hs
    exact skipBlanks_eq_self (by simpa using hc)

/-- A lexeme is cut off whole as long as no number could go on after it. -/
theorem Lexeme.takeValue_append {v : Source} (h : Lexeme v) {rest : List Char}
    (hr : ∀ c ∈ rest.head?, continues c = false) : takeValue (v ++ rest) = some (v, rest) := by
  obtain ⟨-, phase, hv, hp⟩ := h
  refine scan_of_run hv (accepts_iff.2 ⟨rfl, hp⟩) (fun c hc => ?_) []
  rw [step_of_mayEnd hp (hr c hc)]
  rfl

theorem Lexeme.value?_eq {v : Source} (h : Lexeme v) : value? v = some v := by
  have ht : takeValue (v ++ []) = some (v, []) := h.takeValue_append (by simp)
  rw [List.append_nil] at ht
  simp [value?, h.trimmed, ht, isAllBlank]

theorem Lexeme.exists_cons {v : Source} (h : Lexeme v) :
    ∃ c s, v = c :: s ∧ isBlank c = false := by
  obtain ⟨ht, phase, hr, hp⟩ := h
  cases v with
  | nil =>
    cases hr
    cases hp
  | cons c s =>
    exact ⟨c, s, rfl, not_blank_of_skipBlanks_eq ht⟩

def Phase.opens : Phase → Bool
  | .firstElement | .firstKey => true
  | _ => false

def Proper (st : State) : Prop := st.2.opens = true → st.1 ≠ []

theorem followValue_frame {stack : List Bracket} {c : Char} {st : State}
    (h : followValue stack c = some st) (base : List Bracket) :
    followValue (stack ++ base) c = some (st.1 ++ base, st.2) ∧ Proper st := by
  cases stack with
  | nil => cases h
  | cons b stack =>
    rw [List.cons_append]
    by_cases hb : isBlank c = true
    · simp only [followValue, hb, if_true, Option.some.injEq] at h ⊢
      subst h
      simp [Proper, Phase.opens]
    · simp only [followValue, hb, Bool.false_eq_true, if_false] at h ⊢
      split at h <;> cases h <;> simp [Proper, Phase.opens]

theorem startValue_frame {stack : List Bracket} {c : Char} {st : State}
    (h : startValue stack c = some st) (base : List Bracket) :
    startValue (stack ++ base) c = some (st.1 ++ base, st.2) ∧ Proper st := by
  unfold startValue at h ⊢
  split at h
  case h_9 =>
    split at h
    next hd =>
      cases h
      simp [hd, Proper, Phase.opens]
    next => cases h
  all_goals
    cases h
    simp [Proper, Phase.opens]

theorem startExponent_frame {stack : List Bracket} {c : Char} {st : State}
    (h : startExponent stack c = some st) (base : List Bracket) :
    startExponent (stack ++ base) c = some (st.1 ++ base, st.2) ∧ Proper st := by
  unfold startExponent at h ⊢
  split at h
  next hc =>
    cases h
    simp [hc, Proper, Phase.opens]
  next hc =>
    rw [if_neg hc]
    exact followValue_frame h base

/-- What the scanner does with the brackets that it knows of does not depend on those below. -/
theorem step_frame {stack : List Bracket} {phase : Phase} {c : Char} {st : State}
    (hp : Proper (stack, phase)) (h : step stack phase c = some st) (base : List Bracket) :
    step (stack ++ base) phase c = some (st.1 ++ base, st.2) ∧ Proper st := by
  have htail : phase.opens = true → (stack ++ base).tail = stack.tail ++ base :=
    fun ho => List.tail_append_of_ne_nil (hp ho)
  cases phase <;> simp only [step] at h ⊢
  case ended => exact followValue_frame h base
  case hex isKey left => cases left <;> grind [Proper, Phase.opens]
  case word left =>
    cases left with
    | nil => cases h
    | cons d left => cases left <;> grind [Proper, Phase.opens]
  all_goals grind [Proper, Phase.opens, startValue_frame, startExponent_frame, followValue_frame,
    stringEnd]

theorem run_frame {st st' : State} {v : List Char} (hp : Proper st) (h : run st v = some st')
    (base : List Bracket) : run (st.1 ++ base, st.2) v = some (st'.1 ++ base, st'.2) := by
  induction v generalizing st with
  | nil =>
    cases h
    rfl
  | cons c v ih =>
    obtain ⟨next, hs, hv⟩ := Option.bind_eq_some_iff.1 h
    obtain ⟨hf, hn⟩ := step_frame hp hs base
    rw [run, hf]
    exact ih hn hv

theorem Lexeme.run_value {v : Source} (h : Lexeme v) (stack : List Bracket) :
    ∃ phase, run (stack, .value) v = some (stack, phase) ∧ phase.mayEnd = true := by
  obtain ⟨-, phase, hv, hp⟩ := h
  exact ⟨phase, run_frame (by simp [Proper, Phase.opens]) hv stack, hp⟩

end InferenceRecorder.Json
