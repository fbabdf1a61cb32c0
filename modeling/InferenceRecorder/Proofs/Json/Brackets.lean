import InferenceRecorder.Proofs.Json.Quoted

/-!
Items between two brackets. They stand with commas between them and blanks around the commas, and
from one bracket to the other the scanner takes them for one value whatever the items are.
-/
namespace InferenceRecorder.Json
variable {α : Type} {Item : α → List Char → Prop} {b : Bracket}

inductive Separated (Item : α → List Char → Prop) : List Char → List α → Prop
  | one {x : α} {t : List Char} : Item x t → Separated Item t [x]
  | cons {x : α} {t v w s : List Char} {xs : List α} : Item x t → isAllBlank v = true →
    isAllBlank w = true → Separated Item s xs →
    Separated Item (t ++ (v ++ ',' :: (w ++ s))) (x :: xs)

inductive Bracketed (b : Bracket) (Item : α → List Char → Prop) : List Char → List α → Prop
  | empty {v : List Char} : isAllBlank v = true →
    Bracketed b Item (b.opening :: (v ++ [b.closing])) []
  | items {v t w : List Char} {xs : List α} : isAllBlank v = true → isAllBlank w = true →
    Separated Item t xs → Bracketed b Item (b.opening :: (v ++ (t ++ (w ++ [b.closing])))) xs

def Padded (P : List Char → Prop) (s : List Char) : Prop :=
  ∃ u t w, s = u ++ (t ++ w) ∧ isAllBlank u = true ∧ isAllBlank w = true ∧ P t

def Starts (t : List Char) : Prop :=
  ∃ c s, t = c :: s ∧ isBlank c = false ∧ ∀ b : Bracket, c ≠ b.closing

theorem isBlank_closing (b : Bracket) : isBlank b.closing = false := by cases b <;> rfl

theorem not_continues_of_isBlank {c : Char} (h : isBlank c = true) : continues c = false := by
  simp only [isBlank, Bool.or_eq_true, beq_iff_eq] at h
  rcases h with ((rfl | rfl) | rfl) | rfl <;> rfl

/-- After blanks, too, only the character that follows them counts. -/
theorem not_continues_head {u s : List Char} {d : Char} (hu : isAllBlank u = true)
    (hd : continues d = false) : ∀ c ∈ (u ++ d :: s).head?, continues c = false := by
  cases u with
  | nil => simpa using hd
  | cons e u => simpa using not_continues_of_isBlank (isAllBlank_cons.1 hu).1

theorem skipBlanks_blanks_cons {u s : List Char} {c : Char} (hu : isAllBlank u = true)
    (hc : isBlank c = false) : skipBlanks (u ++ c :: s) = c :: s := by
  rw [skipBlanks_append_of_allBlank hu, skipBlanks_eq_self (by simpa using hc)]

theorem Separated.starts (hs : ∀ x t, Item x t → Starts t) {t : List Char} {xs : List α}
    (h : Separated Item t xs) : Starts t := by
  cases h with
  | one hx => exact hs _ _ hx
  | cons hx =>
    obtain ⟨c, s, rfl, hc⟩ := hs _ _ hx
    exact ⟨c, _, rfl, hc⟩

theorem Separated.forall_mem {P : α → Prop} (hi : ∀ x t, Item x t → P x) {t : List Char}
    {xs : List α} (h : Separated Item t xs) : ∀ x ∈ xs, P x := by
  induction h with
  | one hx => simpa using hi _ _ hx
  | cons hx _ _ _ ih => simpa using ⟨hi _ _ hx, ih⟩

theorem Bracketed.forall_mem {P : α → Prop} (hi : ∀ x t, Item x t → P x) {t : List Char}
    {xs : List α} (h : Bracketed b Item t xs) : ∀ x ∈ xs, P x := by
  cases h with
  | empty => simp
  | items _ _ hsep => exact hsep.forall_mem hi

theorem Padded.of_self {P : List Char → Prop} {t : List Char} (h : P t) : Padded P t :=
  ⟨[], t, [], by simp, rfl, rfl, h⟩

theorem startValue_closing (stack : List Bracket) (b : Bracket) :
    startValue stack b.closing = none := by cases b <;> rfl

theorem Lexeme.starts {v : Source} (h : Lexeme v) : Starts v := by
  obtain ⟨c, s, rfl, hc⟩ := h.exists_cons
  refine ⟨c, s, rfl, hc, ?_⟩
  rintro b rfl
  obtain ⟨-, phase, hr, -⟩ := h
  simp [run, step, hc, startValue_closing] at hr

def Bracket.first : Bracket → Phase
  | .square => .firstElement
  | .curly => .firstKey

def Bracket.next : Bracket → Phase
  | .square => .value
  | .curly => .key

def Scans (b : Bracket) (t : List Char) : Prop :=
  ∀ stack, ∃ phase, run (b :: stack, b.next) t = some (b :: stack, phase) ∧ phase.mayEnd = true

theorem run_blanks {st : State} {u : List Char} (hu : isAllBlank u = true)
    (hs : ∀ c, isBlank c = true → step st.1 st.2 c = some st) : run st u = some st := by
  induction u with
  | nil => rfl
  | cons c u ih =>
    obtain ⟨hc, hu⟩ := isAllBlank_cons.1 hu
    rw [run, hs c hc]
    exact ih hu

theorem run_next_blanks {u : List Char} (hu : isAllBlank u = true) (stack : List Bracket) :
    run (b :: stack, b.next) u = some (b :: stack, b.next) :=
  run_blanks hu fun c hc => by cases b <;> simp [Bracket.next, step, hc]

theorem run_first_blanks {u : List Char} (hu : isAllBlank u = true) (stack : List Bracket) :
    run (b :: stack, b.first) u = some (b :: stack, b.first) :=
  run_blanks hu fun c hc => by cases b <;> simp [Bracket.first, step, hc]

theorem run_ended_blanks {u : List Char} (hu : isAllBlank u = true) (stack : List Bracket) :
    run (b :: stack, .ended) u = some (b :: stack, .ended) :=
  run_blanks hu fun c hc => by simp [step, followValue, hc]

theorem run_first {c : Char} (hc : isBlank c = false) (hb : c ≠ b.closing) (s : List Char)
    (stack : List Bracket) :
    run (b :: stack, b.first) (c :: s) = run (b :: stack, b.next) (c :: s) := by
  cases b <;> simp_all [run, Bracket.first, Bracket.next, Bracket.closing, step]

/-- After an item only blanks come before the comma or the closing bracket. -/
theorem run_after_item {phase : Phase} (hp : phase.mayEnd = true) {u : List Char}
    (hu : isAllBlank u = true) {c : Char} (hc : continues c = false) (s : List Char)
    (stack : List Bracket) : run (b :: stack, phase) (u ++ c :: s) =
      (followValue (b :: stack) c).bind fun st => run st s := by
  cases u with
  | nil => rw [List.nil_append, run, step_of_mayEnd hp hc]
  | cons d u =>
    obtain ⟨hblank, hu⟩ := isAllBlank_cons.1 hu
    have hd : step (b :: stack) phase d = some (b :: stack, .ended) := by
      rw [step_of_mayEnd hp (not_continues_of_isBlank hblank)]
      simp [followValue, hblank]
    rw [List.cons_append, run, hd, Option.bind_some, run_append, run_ended_blanks hu]
    rfl

theorem Separated.scans (hi : ∀ x t, Item x t → Scans b t) {t : List Char} {xs : List α}
    (h : Separated Item t xs) : Scans b t := by
  induction h with
  | one hx => exact hi _ _ hx
  | @cons x t v w s xs hx hv hw _ ih =>
    intro stack
    obtain ⟨phase, hr, hp⟩ := hi _ _ hx stack
    obtain ⟨phase', hr', hp'⟩ := ih stack
    have hcomma : followValue (b :: stack) ',' = some (b :: stack, b.next) := by
      cases b <;> rfl
    refine ⟨phase', ?_, hp'⟩
    rw [run_append, hr, Option.bind_some, run_after_item hp hv rfl, hcomma, Option.bind_some,
      run_append, run_next_blanks hw, Option.bind_some, hr']

/-- From bracket to bracket the scanner comes to the end of a value that nothing can go on after. -/
theorem Bracketed.run_eq (hs : ∀ x t, Item x t → Starts t) (hi : ∀ x t, Item x t → Scans b t)
    {t : List Char} {xs : List α} (h : Bracketed b Item t xs) :
    run ([], .value) t = some ([], .ended) := by
  have hstep : step [] .value b.opening = some ([b], b.first) := by cases b <;> rfl
  have hfirst : step [b] b.first b.closing = some ([], .ended) := by cases b <;> rfl
  have hclose : followValue [b] b.closing = some ([], .ended) := by cases b <;> rfl
  have hc : continues b.closing = false := by cases b <;> rfl
  cases h with
  | @empty v hv =>
    rw [run, hstep, Option.bind_some, run_append, run_first_blanks hv, Option.bind_some, run,
      hfirst]
    rfl
  | @items v t w _ hv hw hsep =>
    obtain ⟨phase, ht, hp⟩ := hsep.scans hi []
    obtain ⟨c, s, rfl, hcb, hcc⟩ := hsep.starts hs
    rw [run, hstep, Option.bind_some, run_append, run_first_blanks hv, Option.bind_some,
      List.cons_append, run_first hcb (hcc b), ← List.cons_append, run_append, ht,
      Option.bind_some, run_after_item hp hw hc, hclose]
    rfl

theorem Bracketed.exists_cons {t : List Char} {xs : List α} (h : Bracketed b Item t xs) :
    ∃ s, t = b.opening :: s := by
  cases h <;> exact ⟨_, rfl⟩

theorem Bracketed.exists_concat {t : List Char} {xs : List α} (h : Bracketed b Item t xs) :
    ∃ s, t = s ++ [b.closing] := by
  cases h with
  | @empty v => exact ⟨b.opening :: v, rfl⟩
  | @items v t w => exact ⟨b.opening :: (v ++ (t ++ w)), by simp⟩

theorem isBlank_opening (b : Bracket) : isBlank b.opening = false := by cases b <;> rfl

theorem Bracketed.isLexeme (hs : ∀ x t, Item x t → Starts t) (hi : ∀ x t, Item x t → Scans b t)
    {t : List Char} {xs : List α} (h : Bracketed b Item t xs) : Lexeme t := by
  refine ⟨?_, .ended, h.run_eq hs hi, rfl⟩
  obtain ⟨s, rfl⟩ := h.exists_cons
  exact skipBlanks_eq_self (by simpa using isBlank_opening b)

/-- What is between brackets is no beginning of anything longer that is. -/
theorem Bracketed.eq_of_isPrefix (hs : ∀ x t, Item x t → Starts t)
    (hi : ∀ x t, Item x t → Scans b t) {t t' : List Char} {xs xs' : List α}
    (h : Bracketed b Item t xs) (h' : Bracketed b Item t' xs') (hp : t' <+: t) : t' = t := by
  obtain ⟨s, rfl⟩ := hp
  have hrun := h.run_eq hs hi
  rw [run_append, h'.run_eq hs hi, Option.bind_some] at hrun
  cases s with
  | nil => exact (List.append_nil t').symm
  | cons c s => cases hrun

theorem Lexeme.scans {v : Source} (h : Lexeme v) : Scans .square v :=
  fun stack => h.run_value (.square :: stack)

theorem scans_keyed {k v w t : List Char} {pieces : List Piece}
    (hk : Written PieceSpelling k pieces) (hv : isAllBlank v = true) (hw : isAllBlank w = true)
    (ht : Lexeme t) : Scans .curly ('"' :: (k ++ '"' :: (v ++ ':' :: (w ++ t)))) := by
  intro stack
  obtain ⟨phase, hr, hp⟩ := ht.run_value (.curly :: stack)
  refine ⟨phase, ?_, hp⟩
  have hkey := run_written hk (.curly :: stack) true
  have hcolon : run (.curly :: stack, .colon) v = some (.curly :: stack, .colon) :=
    run_blanks hv fun c hc => by simp [step, hc]
  have hvalue : run (.curly :: stack, .value) w = some (.curly :: stack, .value) :=
    run_blanks hw fun c hc => by simp [step, hc]
  have hquote : step (.curly :: stack) .key '"' = some (.curly :: stack, .string true) := rfl
  have hcut : k ++ '"' :: (v ++ ':' :: (w ++ t)) = (k ++ ['"']) ++ (v ++ ':' :: (w ++ t)) := by
    simp
  rw [Bracket.next, run, hquote, Option.bind_some, hcut, run_append, hkey, Option.bind_some,
    run_append, stringEnd, if_pos rfl, hcolon, Option.bind_some, run]
  change run (.curly :: stack, .value) (w ++ t) = _
  rw [run_append, hvalue, Option.bind_some, hr]

theorem value?_of_padded {P : List Char → Prop} {s : List Char} (h : Padded P s)
    (hP : ∀ t, P t → Lexeme t) : ∃ t, value? s = some t ∧ P t := by
  obtain ⟨u, t, w, rfl, hu, hw, ht⟩ := h
  refine ⟨t, ?_, ht⟩
  obtain ⟨c, t', rfl, hc⟩ := (hP t ht).exists_cons
  have hcut : takeValue (c :: t' ++ w) = some (c :: t', w) := by
    refine (hP _ ht).takeValue_append fun d hd => not_continues_of_isBlank ?_
    exact List.all_eq_true.1 hw d (List.mem_of_mem_head? hd)
  rw [value?, List.cons_append, skipBlanks_blanks_cons hu hc, ← List.cons_append, hcut]
  exact if_pos hw

end InferenceRecorder.Json
