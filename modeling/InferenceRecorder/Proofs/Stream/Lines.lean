import InferenceRecorder.Stream.Lines
import Mathlib.Data.List.Basic
import Mathlib.Data.List.Infix
import Mathlib.Data.List.TakeWhile

/-!
Streams line by line. A body is its lines with line feeds between them; the payloads that it carries
are those of its data lines, up to the line that ends the stream.
-/
namespace InferenceRecorder.Stream

def join (ls : List (List Char)) : List Char := List.intercalate ['\n'] ls

theorem join_cons_cons (l l' : List Char) (ls : List (List Char)) :
    join (l :: l' :: ls) = l ++ '\n' :: join (l' :: ls) := by
  simp [join]

theorem prefix_join (l : List Char) (ls : List (List Char)) : l <+: join (l :: ls) := by
  cases ls with
  | nil => simp [join]
  | cons l' ls =>
    rw [join_cons_cons]
    exact List.prefix_append l _

theorem lines_of_not_mem {l : List Char} (h : '\n' ∉ l) : lines l = [l] := by
  have hd : l.dropWhile (· != '\n') = [] := by
    refine List.dropWhile_eq_nil_iff.2 fun c hc => ?_
    rw [bne_iff_ne]
    rintro rfl
    exact h hc
  rw [lines]
  split
  next => rfl
  next hs => simp [hd] at hs

theorem lines_append {l : List Char} (h : '\n' ∉ l) (s : List Char) :
    lines (l ++ '\n' :: s) = l :: lines s := by
  have hp : ∀ c ∈ l, (c != '\n') = true := by
    intro c hc
    rw [bne_iff_ne]
    rintro rfl
    exact h hc
  have hd : (l ++ '\n' :: s).dropWhile (· != '\n') = '\n' :: s := by
    rw [List.dropWhile_append_of_pos hp]
    rfl
  have ht : (l ++ '\n' :: s).takeWhile (· != '\n') = l := by
    rw [List.takeWhile_append_of_pos hp]
    simp
  rw [lines]
  split
  next hs => simp [hd] at hs
  next hs =>
    rw [hd] at hs
    cases hs
    rw [ht]

/-- A text is one line, or a line and more after a line feed. -/
theorem lines_cases (s : List Char) : '\n' ∉ s ∧ lines s = [s] ∨
    ∃ l rest, '\n' ∉ l ∧ s = l ++ '\n' :: rest ∧ lines s = l :: lines rest := by
  by_cases h : '\n' ∈ s
  · obtain ⟨l, rest, rfl, hl⟩ := List.eq_append_cons_of_mem h
    exact .inr ⟨l, rest, hl, rfl, lines_append hl rest⟩
  · exact .inl ⟨h, lines_of_not_mem h⟩

/-- Every line comes after a line feed, if one is put before the first. -/
theorem infix_of_mem_lines {l s : List Char} (h : l ∈ lines s) : '\n' :: l <:+: '\n' :: s := by
  obtain ⟨-, hs⟩ | ⟨l', rest, -, rfl, hs⟩ := lines_cases s
  · rw [hs, List.mem_singleton] at h
    rw [h]
  · rw [hs] at h
    rcases List.mem_cons.1 h with rfl | h
    · exact (List.prefix_append ('\n' :: l) _).isInfix
    · exact (infix_of_mem_lines h).trans (List.suffix_append ('\n' :: l') _).isInfix
termination_by s.length

theorem not_mem_of_mem_lines {l s : List Char} (h : l ∈ lines s) : '\n' ∉ l := by
  obtain ⟨hs, hlines⟩ | ⟨l', rest, hl', rfl, hlines⟩ := lines_cases s
  · rw [hlines, List.mem_singleton] at h
    exact h ▸ hs
  · rw [hlines] at h
    rcases List.mem_cons.1 h with rfl | h
    · exact hl'
    · exact not_mem_of_mem_lines h
termination_by s.length

/-- A text falls into the lines that it was put together from. -/
theorem lines_join {ls : List (List Char)} (hne : ls ≠ []) (h : ∀ l ∈ ls, '\n' ∉ l) :
    lines (join ls) = ls := by
  induction ls with
  | nil => exact absurd rfl hne
  | cons l ls ih =>
    cases ls with
    | nil => simpa [join] using lines_of_not_mem (h l List.mem_cons_self)
    | cons l' ls =>
      have hrest := ih (by simp) fun l hl => h l (List.mem_cons_of_mem _ hl)
      rw [join_cons_cons, lines_append (h l List.mem_cons_self), hrest]

theorem lines_ne_nil (s : List Char) : lines s ≠ [] := by
  obtain ⟨-, hs⟩ | ⟨l, rest, -, -, hs⟩ := lines_cases s <;> simp [hs]

/-- The lines of a text make up the text. -/
theorem join_lines (s : List Char) : join (lines s) = s := by
  obtain ⟨-, hs⟩ | ⟨l, rest, -, rfl, hs⟩ := lines_cases s
  · simp [hs, join]
  · obtain ⟨l', ls, hrest⟩ := List.exists_cons_of_ne_nil (lines_ne_nil rest)
    rw [hs, hrest, join_cons_cons, ← hrest, join_lines rest]
termination_by s.length

theorem after?_eq_some {start s rest : List Char} :
    after? start s = some rest ↔ s = start ++ rest := by
  induction start generalizing s with
  | nil => simp [after?, eq_comm]
  | cons c start ih =>
    cases s with
    | nil => simp [after?]
    | cons d s =>
      by_cases hc : c = d
      · simp [after?, hc, ih]
      · simp [after?, hc, Ne.symm hc]

theorem trimReturn_concat (line : List Char) : trimReturn (line ++ ['\r']) = line := by
  simp [trimReturn]

def dataLine (payload : List Char) (cr : Bool) : List Char :=
  dataMarker ++ payload ++ if cr then ['\r'] else []

def Closed (payload : List Char) (cr : Bool) : Prop :=
  cr = false → payload.getLast? ≠ some '\r'

theorem payload?_dataLine {payload : List Char} {cr : Bool} (h : Closed payload cr) :
    payload? (dataLine payload cr) = some payload := by
  refine after?_eq_some.2 ?_
  cases cr with
  | true => exact trimReturn_concat _
  | false =>
    have hl : (dataMarker ++ payload).getLast? ≠ some '\r' := by
      cases payload with
      | nil => decide
      | cons c payload => simpa using h rfl
    rw [dataLine, if_neg Bool.false_ne_true, List.append_nil, trimReturn, if_neg hl]

/-- A line has a payload exactly when it is the marker with the payload after it. -/
theorem payload?_eq_some {line payload : List Char} :
    payload? line = some payload ↔ ∃ cr, line = dataLine payload cr ∧ Closed payload cr := by
  refine ⟨fun h => ?_, ?_⟩
  · have hs : trimReturn line = dataMarker ++ payload := after?_eq_some.1 h
    unfold trimReturn at hs
    split at hs
    next hr =>
      obtain ⟨init, rfl⟩ := List.getLast?_eq_some_iff.1 hr
      rw [List.dropLast_concat] at hs
      exact ⟨true, by rw [hs]; rfl, fun hf => (Bool.false_ne_true hf.symm).elim⟩
    next hr =>
      refine ⟨false, by rw [hs, dataLine, if_neg Bool.false_ne_true, List.append_nil],
        fun _ hp => ?_⟩
      obtain ⟨init, rfl⟩ := List.getLast?_eq_some_iff.1 hp
      rw [hs, ← List.append_assoc] at hr
      exact hr List.getLast?_concat
  · rintro ⟨cr, rfl, hc⟩
    exact payload?_dataLine hc

theorem payload?_eq_none {line : List Char} (h : ¬dataMarker <+: line) : payload? line = none := by
  refine Option.eq_none_iff_forall_ne_some.2 fun payload hp => h ?_
  obtain ⟨cr, rfl, -⟩ := payload?_eq_some.1 hp
  rw [dataLine, List.append_assoc]
  exact List.prefix_append _ _

/-- Lines of which none starts like a data line carry nothing. -/
theorem payloads_of_other {s : List Char} (h : ∀ line ∈ lines s, ¬dataMarker <+: line) :
    payloads s = [] := by
  have hnone : (lines s).filterMap payload? = [] :=
    List.filterMap_eq_nil_iff.2 fun line hl => payload?_eq_none (h line hl)
  rw [payloads, hnone, List.takeWhile_nil]

def IsEnd (line : List Char) : Prop := ∃ cr, line = dataLine doneMarker cr

def carried (ls : List (List Char)) : List (List Char) :=
  (ls.filterMap payload?).takeWhile (· != doneMarker)

theorem payloads_eq (s : List Char) : payloads s = carried (lines s) := rfl

theorem isEnd_iff {line : List Char} : IsEnd line ↔ payload? line = some doneMarker := by
  rw [payload?_eq_some, IsEnd]
  have hc : ∀ cr, Closed doneMarker cr := fun cr _ => by decide
  simp [hc]

/-- Before the end of the stream every payload is carried. -/
theorem carried_append {u : List (List Char)} (hu : ∀ l ∈ u, ¬IsEnd l) (v : List (List Char)) :
    carried (u ++ v) = u.filterMap payload? ++ carried v := by
  rw [carried, List.filterMap_append, List.takeWhile_append_of_pos, carried]
  intro payload hp
  obtain ⟨l, hl, hpl⟩ := List.mem_filterMap.1 hp
  rw [bne_iff_ne]
  rintro rfl
  exact hu l hl (isEnd_iff.2 hpl)

theorem carried_cons_none {line : List Char} (h : payload? line = none) (v : List (List Char)) :
    carried (line :: v) = carried v := by
  rw [carried, List.filterMap_cons_none h, carried]

theorem carried_cons_some {line payload : List Char} (h : payload? line = some payload)
    (hne : payload ≠ doneMarker) (v : List (List Char)) :
    carried (line :: v) = payload :: carried v := by
  rw [carried, List.filterMap_cons_some h, List.takeWhile_cons_of_pos (by simpa using hne), carried]

/-- What comes after the end of the stream is not carried, nor is the end itself. -/
theorem carried_end {line : List Char} (h : IsEnd line) (u v : List (List Char)) :
    carried (u ++ line :: v) = carried u := by
  have hend : (doneMarker :: v.filterMap payload?).takeWhile (· != doneMarker) = [] := by simp
  rw [carried, List.filterMap_append, List.filterMap_cons_some (isEnd_iff.1 h),
    List.takeWhile_append, hend, List.append_nil, carried]
  split_ifs with hl
  · exact ((List.takeWhile_prefix _).eq_of_length hl).symm
  · rfl

theorem carried_cons_end {line : List Char} (h : IsEnd line) (v : List (List Char)) :
    carried (line :: v) = [] := carried_end h [] v

/-- The payload stands in one of the lines, with no end of the stream before it and these lines
after it. -/
def Bears (ls : List (List Char)) (payload : List Char) (after : List (List Char)) : Prop :=
  ∃ u cr, ls = u ++ dataLine payload cr :: after ∧ (∀ l ∈ u, ¬IsEnd l) ∧ Closed payload cr

section
variable {ls after : List (List Char)} {payload : List Char}

theorem Bears.cons {line : List Char} (h : Bears ls payload after) (hl : ¬IsEnd line) :
    Bears (line :: ls) payload after := by
  obtain ⟨u, cr, rfl, hu, hc⟩ := h
  exact ⟨line :: u, cr, rfl, List.forall_mem_cons.2 ⟨hl, hu⟩, hc⟩

theorem Bears.carried_eq (h : Bears ls payload after) (hne : payload ≠ doneMarker) :
    ∃ before, carried ls = before ++ payload :: carried after := by
  obtain ⟨u, cr, rfl, hu, hc⟩ := h
  exact ⟨u.filterMap payload?, by
    rw [carried_append hu, carried_cons_some (payload?_dataLine hc) hne]⟩

/-- What is carried stands in the lines, and what is carried after it stands in the lines after
it. -/
theorem bears_of_carried {before : List (List Char)} (h : carried ls = before ++ payload :: after) :
    payload ≠ doneMarker ∧ ∃ rest, Bears ls payload rest ∧ carried rest = after := by
  induction ls generalizing before with
  | nil => cases before <;> cases h
  | cons line ls ih =>
    cases hp : payload? line with
    | none =>
      rw [carried_cons_none hp] at h
      obtain ⟨hne, rest, hb, hr⟩ := ih h
      exact ⟨hne, rest, hb.cons (by simp [isEnd_iff, hp]), hr⟩
    | some p =>
      by_cases hd : p = doneMarker
      · rw [carried_cons_end (isEnd_iff.2 (hd ▸ hp))] at h
        cases before <;> cases h
      · rw [carried_cons_some hp hd] at h
        cases before with
        | nil =>
          obtain ⟨rfl, hr⟩ := List.cons_eq_cons.1 h
          obtain ⟨cr, rfl, hc⟩ := payload?_eq_some.1 hp
          exact ⟨hd, ls, ⟨[], cr, rfl, nofun, hc⟩, hr⟩
        | cons q before =>
          obtain ⟨hne, rest, hb, hr⟩ := ih (List.cons_eq_cons.1 h).2
          exact ⟨hne, rest, hb.cons (by simpa [isEnd_iff, hp] using hd), hr⟩

theorem mem_carried_iff :
    payload ∈ carried ls ↔ payload ≠ doneMarker ∧ ∃ after, Bears ls payload after := by
  constructor
  · intro h
    obtain ⟨before, after, h⟩ := List.append_of_mem h
    obtain ⟨hne, rest, hb, -⟩ := bears_of_carried h
    exact ⟨hne, rest, hb⟩
  · rintro ⟨hne, after, hb⟩
    obtain ⟨before, h⟩ := hb.carried_eq hne
    rw [h]
    exact List.mem_append_right _ List.mem_cons_self

/-- The last payload of its kind, told of the lines and of what they carry. -/
theorem exists_last_borne_iff {P Q : List Char → Prop} (hP : ¬P doneMarker) (hQ : ¬Q doneMarker) :
    (∃ payload after, Bears ls payload after ∧ P payload ∧
      ∀ later rest, Bears after later rest → ¬Q later) ↔
    ∃ before payload after, carried ls = before ++ payload :: after ∧ P payload ∧
      ∀ later ∈ after, ¬Q later := by
  constructor
  · rintro ⟨payload, after, hb, hp, hno⟩
    obtain ⟨before, h⟩ := hb.carried_eq fun he => hP (he ▸ hp)
    refine ⟨before, payload, carried after, h, hp, fun later hl => ?_⟩
    obtain ⟨-, rest, hb'⟩ := mem_carried_iff.1 hl
    exact hno later rest hb'
  · rintro ⟨before, payload, after, h, hp, hno⟩
    obtain ⟨-, rest, hb, rfl⟩ := bears_of_carried h
    refine ⟨payload, rest, hb, hp, fun later lines hl hq => ?_⟩
    have hne : later ≠ doneMarker := fun he => hQ (he ▸ hq)
    exact hno later (mem_carried_iff.2 ⟨hne, lines, hl⟩) hq

end

end InferenceRecorder.Stream
