import InferenceRecorder.Proofs.Stream.Outcome
import InferenceRecorder.Proofs.Text.Cut

/-!
Streams of chunks and their beginnings. Of a data line that stops before the closing bracket of its
object nothing is read, since no beginning of an object is an object: `Chunked.cut`.
-/
namespace InferenceRecorder.Stream
open Json (Member Bracketed MemberText ObjectText isAllBlank)
open Utf8 (Cut width)

/-- Lines of which every data line before the end of the stream carries a chunk, with those chunks.
`before` is what comes in front of the lines; each chunk stands with the text up to its closing
bracket. -/
inductive Chunked : List Char → List (List Char) → List (List Char × Chunk) → Prop
  | nil {before : List Char} : Chunked before [] []
  | other {before line : List Char} {ls : List (List Char)} {cs : List (List Char × Chunk)} :
    ¬dataMarker <+: line → Chunked (before ++ (line ++ ['\n'])) ls cs →
    Chunked before (line :: ls) cs
  | chunk {before u t w : List Char} {members : List Member} {ls : List (List Char)}
    {cs : List (List Char × Chunk)} : isAllBlank u = true → isAllBlank w = true →
    Bracketed .curly MemberText t members →
    Chunked (before ++ (dataMarker ++ (u ++ (t ++ w)) ++ ['\n'])) ls cs →
    Chunked before ((dataMarker ++ (u ++ (t ++ w))) :: ls)
      ((before ++ (dataMarker ++ (u ++ t)), Table.ofList members) :: cs)
  | ended {before line : List Char} {ls : List (List Char)} : IsEnd line →
    Chunked before (line :: ls) []

def came (n : Nat) (cs : List (List Char × Chunk)) : List Chunk :=
  (cs.filter fun c => width c.1 ≤ n).map Prod.snd

theorem came_cons {n : Nat} {c : List Char × Chunk} {cs : List (List Char × Chunk)} :
    came n (c :: cs) = if width c.1 ≤ n then c.2 :: came n cs else came n cs := by
  rw [came, List.filter_cons]
  by_cases hc : width c.1 ≤ n <;> simp [hc, came]

theorem came_eq_nil {n : Nat} {cs : List (List Char × Chunk)} (h : ∀ c ∈ cs, n < width c.1) :
    came n cs = [] := by
  rw [came, List.map_eq_nil_iff, List.filter_eq_nil_iff]
  exact fun c hc => by simpa using h c hc

theorem Chunked.place_after {before : List Char} {ls : List (List Char)}
    {cs : List (List Char × Chunk)} (h : Chunked before ls cs) : ∀ c ∈ cs, before <+: c.1 := by
  induction h with
  | nil => simp
  | other _ _ ih => exact fun c hc => (List.prefix_append _ _).trans (ih c hc)
  | chunk _ _ _ _ ih =>
    refine List.forall_mem_cons.2 ⟨List.prefix_append _ _, fun c hc => ?_⟩
    exact (List.prefix_append _ _).trans (ih c hc)
  | ended => simp

/-- Places in the lines after a line are places in all of them. -/
theorem Chunked.place_within_cons {before line : List Char} {ls : List (List Char)}
    {cs : List (List Char × Chunk)} (h : Chunked (before ++ (line ++ ['\n'])) ls cs)
    (hc : ∀ c ∈ cs, c.1 <+: before ++ (line ++ ['\n']) ++ join ls) :
    ∀ c ∈ cs, c.1 <+: before ++ join (line :: ls) := by
  cases ls with
  | nil =>
    cases h
    simp
  | cons l ls => simpa [join_cons_cons] using hc

/-- The places of the chunks are in the text. -/
theorem Chunked.place_within {before : List Char} {ls : List (List Char)}
    {cs : List (List Char × Chunk)} (h : Chunked before ls cs) :
    ∀ c ∈ cs, c.1 <+: before ++ join ls := by
  induction h with
  | nil => simp
  | other _ hrest ih => exact hrest.place_within_cons ih
  | @chunk before u t w _ _ _ _ _ _ hrest ih =>
    refine List.forall_mem_cons.2 ⟨?_, hrest.place_within_cons ih⟩
    refine (List.prefix_append_right_inj before).2 (List.IsPrefix.trans ?_ (prefix_join _ _))
    exact ⟨w, by simp⟩
  | ended => simp

/-- Chunk by chunk the closing brackets come in their order. -/
theorem Chunked.came_isPrefix {before : List Char} {ls : List (List Char)}
    {cs : List (List Char × Chunk)} (h : Chunked before ls cs) (n : Nat) :
    came n cs <+: cs.map Prod.snd := by
  induction h with
  | nil => exact List.prefix_rfl
  | other _ _ ih => exact ih
  | @chunk before u t w members ls cs _ _ _ hrest ih =>
    rw [came_cons, List.map_cons]
    split_ifs with hn
    · exact (List.prefix_append_right_inj [_]).2 ih
    · rw [Stream.came_eq_nil fun c hc => ?_]
      · exact List.nil_prefix
      · have hb := hrest.place_after c hc
        refine Nat.lt_of_lt_of_le (Nat.not_le.1 hn) (Utf8.width_mono ?_)
        exact List.IsPrefix.trans ⟨w ++ ['\n'], by simp⟩ hb
  | ended => exact List.prefix_rfl

/-- A data line that carries an object is the marker, the object and blanks around it. -/
theorem exists_objectLine {line payload : List Char} {members : List Member}
    (hp : payload? line = some payload) (ho : ObjectText payload members) : ∃ u t w,
    line = dataMarker ++ (u ++ (t ++ w)) ∧ isAllBlank u = true ∧ isAllBlank w = true ∧
      Bracketed .curly MemberText t members := by
  obtain ⟨cr, rfl, -⟩ := payload?_eq_some.1 hp
  obtain ⟨u, t, w, rfl, hu, hw, hb⟩ := ho
  refine ⟨u, t, w ++ if cr then ['\r'] else [], by simp [dataLine], hu, ?_, hb⟩
  have hr : isAllBlank (if cr then ['\r'] else []) = true := by cases cr <;> rfl
  simp only [isAllBlank, List.all_append, Bool.and_eq_true] at hw hr ⊢
  exact ⟨hw, hr⟩

/-- A line that starts with the marker carries a payload. -/
theorem exists_dataLine (s : List Char) :
    ∃ payload cr, dataMarker ++ s = dataLine payload cr ∧ Closed payload cr := by
  by_cases hr : s.getLast? = some '\r'
  · obtain ⟨payload, rfl⟩ := List.getLast?_eq_some_iff.1 hr
    exact ⟨payload, true, by simp [dataLine], fun h => (Bool.false_ne_true h.symm).elim⟩
  · exact ⟨s, false, by simp [dataLine], fun _ => hr⟩

theorem not_prefix_of_payload?_eq_none {line : List Char} (h : payload? line = none) :
    ¬dataMarker <+: line := by
  rintro ⟨s, rfl⟩
  obtain ⟨payload, cr, hl, hc⟩ := exists_dataLine s
  rw [hl, payload?_dataLine hc] at h
  cases h

/-- What comes after the last bracket of an object is blank. -/
theorem blanks_of_concat {s t w x : List Char} {c : Char} {members : List Member}
    (hb : Bracketed .curly MemberText t members) (hw : isAllBlank w = true)
    (h : s ++ (t ++ w) = x ++ [c]) (hc : c ≠ '}') :
    Json.isBlank c = true ∧ ∃ w', x = s ++ (t ++ w') ∧ isAllBlank w' = true := by
  rcases List.eq_nil_or_concat' w with rfl | ⟨w', d, rfl⟩
  · obtain ⟨r, rfl⟩ := hb.exists_concat
    have hlast : (s ++ r) ++ [Json.Bracket.curly.closing] = x ++ [c] := by simpa using h
    cases (List.append_inj' hlast rfl).2
    exact absurd rfl hc
  · have hlast : (s ++ (t ++ w')) ++ [d] = x ++ [c] := by simpa using h
    obtain ⟨rfl, hd⟩ := List.append_inj' hlast rfl
    cases hd
    simp only [isAllBlank, List.all_append, Bool.and_eq_true, List.all_cons, List.all_nil,
      and_true] at hw
    exact ⟨hw.2, w', rfl, hw.1⟩

theorem chunk_of_objectLine {u t w : List Char} {members : List Member} (hu : isAllBlank u = true)
    (hw : isAllBlank w = true) (hb : Bracketed .curly MemberText t members) :
    ∃ payload, payload? (dataMarker ++ (u ++ (t ++ w))) = some payload ∧ payload ≠ doneMarker ∧
      chunk? payload = some (Table.ofList members) := by
  obtain ⟨payload, cr, hl, hc⟩ := exists_dataLine (u ++ (t ++ w))
  have ho : ObjectText payload members := by
    cases cr with
    | false =>
      have hp : payload = u ++ (t ++ w) := by simpa [dataLine] using hl.symm
      exact ⟨u, t, w, hp, hu, hw, hb⟩
    | true =>
      -- the carriage return is the last of the blanks, since the object ends in a bracket
      have hlast : u ++ (t ++ w) = payload ++ ['\r'] := by simpa [dataLine] using hl
      obtain ⟨-, w', rfl, hw'⟩ := blanks_of_concat hb hw hlast (by decide)
      exact ⟨u, t, w', rfl, hu, hw', hb⟩
  refine ⟨payload, by rw [hl, payload?_dataLine hc], ?_, tableOf?_eq_some.2 ⟨members, ho, rfl⟩⟩
  rintro rfl
  exact not_objectText_doneMarker members ho

/-- Lines that carry chunks and nothing else are lines with those chunks. -/
theorem exists_chunked {ls : List (List Char)}
    (h : ∀ payload ∈ carried ls, ∃ members, ObjectText payload members) (before : List Char) :
    ∃ cs, Chunked before ls cs := by
  induction ls generalizing before with
  | nil => exact ⟨[], .nil⟩
  | cons line ls ih =>
    cases hp : payload? line with
    | none =>
      rw [carried_cons_none hp] at h
      obtain ⟨cs, hcs⟩ := ih h (before ++ (line ++ ['\n']))
      exact ⟨cs, .other (not_prefix_of_payload?_eq_none hp) hcs⟩
    | some payload =>
      by_cases hd : payload = doneMarker
      · exact ⟨[], .ended (isEnd_iff.2 (hd ▸ hp))⟩
      · rw [carried_cons_some hp hd] at h
        obtain ⟨⟨members, ho⟩, hrest⟩ := List.forall_mem_cons.1 h
        obtain ⟨u, t, w, rfl, hu, hw, hb⟩ := exists_objectLine hp ho
        obtain ⟨cs, hcs⟩ := ih hrest (before ++ (dataMarker ++ (u ++ (t ++ w)) ++ ['\n']))
        exact ⟨_, .chunk hu hw hb hcs⟩

theorem Chunked.chunks {before : List Char} {ls : List (List Char)}
    {cs : List (List Char × Chunk)} (h : Chunked before ls cs) :
    (carried ls).filterMap chunk? = cs.map Prod.snd := by
  induction h with
  | nil => rfl
  | other hl _ ih => rw [carried_cons_none (payload?_eq_none hl), ih]
  | chunk hu hw hb _ ih =>
    obtain ⟨payload, hp, hne, hc⟩ := chunk_of_objectLine hu hw hb
    rw [carried_cons_some hp hne, List.filterMap_cons_some hc, ih, List.map_cons]
  | ended he => rw [carried_cons_end he, List.filterMap_nil, List.map_nil]

/-- In front of an object there is only one number of blanks, and only one object starts there. -/
theorem object_unique {u t r u' t' r' : List Char} {members members' : List Member}
    (hu : isAllBlank u = true) (hb : Bracketed .curly MemberText t members)
    (hu' : isAllBlank u' = true) (hb' : Bracketed .curly MemberText t' members')
    (h : u ++ (t ++ r) = u' ++ (t' ++ r')) : u = u' ∧ t = t' := by
  have hsame : t ++ r = t' ++ r' := by
    obtain ⟨s, rfl⟩ := hb.exists_cons
    obtain ⟨s', rfl⟩ := hb'.exists_cons
    have hc := Json.isBlank_opening .curly
    have hskip := congrArg Json.skipBlanks h
    rwa [List.cons_append, Json.skipBlanks_blanks_cons hu hc, List.cons_append,
      Json.skipBlanks_blanks_cons hu' hc] at hskip
  refine ⟨?_, ?_⟩
  · rw [hsame] at h
    exact List.append_cancel_right h
  · have ht : t <+: t ++ r := List.prefix_append t r
    have ht' : t' <+: t ++ r := ⟨r', hsame.symm⟩
    rcases List.prefix_or_prefix_of_prefix ht ht' with hp | hp
    · exact Json.eq_of_prefix_curly hb' hb hp
    · exact (Json.eq_of_prefix_curly hb hb' hp).symm

theorem carried_line {line : List Char}
    (h : ∀ payload, payload? line = some payload → ∀ members, ¬ObjectText payload members) :
    (carried [line]).filterMap chunk? = [] := by
  refine List.filterMap_eq_nil_iff.2 fun payload hp => chunk?_eq_none ?_
  have hm : payload ∈ [line].filterMap payload? := (List.takeWhile_prefix _).subset hp
  obtain ⟨l, hl, hpl⟩ := List.mem_filterMap.1 hm
  rw [List.mem_singleton.1 hl] at hpl
  exact h payload hpl

/-- What came of lines stops inside the first one or at its end, or goes on after it. -/
theorem line_cases {line p q : List Char} {ls : List (List Char)}
    (h : join (line :: ls) = p ++ q) :
    (∃ a r, line = p ++ a ∧ q = a ++ r ∧ (ls = [] ∧ r = [] ∨ ∃ s, r = '\n' :: s)) ∨
      ∃ p', p = line ++ '\n' :: p' ∧ ls ≠ [] ∧ join ls = p' ++ q := by
  cases ls with
  | nil =>
    have hline : line = p ++ q := by simpa [join] using h
    exact .inl ⟨q, [], hline, by simp, .inl ⟨rfl, rfl⟩⟩
  | cons l ls =>
    rw [join_cons_cons] at h
    rcases List.append_eq_append_iff.1 h with ⟨s, rfl, hs⟩ | ⟨a, rfl, rfl⟩
    · cases s with
      | nil => exact .inl ⟨[], _, by simp, by simpa using hs.symm, .inr ⟨_, rfl⟩⟩
      | cons c s =>
        rw [List.cons_append] at hs
        obtain ⟨rfl, hrest⟩ := List.cons.inj hs
        exact .inr ⟨s, rfl, by simp, hrest⟩
    · exact .inl ⟨a, _, rfl, rfl, .inr ⟨_, rfl⟩⟩

section
variable {before line p q a r gap payload : List Char} {n : Nat} {members : List Member}

/-- After a line feed that is missing nothing came. -/
theorem Chunked.came_eq_nil {ls : List (List Char)} {cs : List (List Char × Chunk)}
    (h : Chunked (before ++ (p ++ a ++ ['\n'])) ls cs) (hcut : Cut before n p (a ++ r) gap)
    (hr : ls = [] ∧ r = [] ∨ ∃ s, r = '\n' :: s) : came n cs = [] := by
  rcases hr with ⟨rfl, -⟩ | ⟨s, rfl⟩
  · cases h
    rfl
  · refine Stream.came_eq_nil fun c hc => ?_
    have hb := h.place_after c hc
    cases a with
    | nil => exact hcut.lt_width rfl (by simpa using hb)
    | cons d a =>
      refine hcut.lt_width rfl (List.IsPrefix.trans ?_ hb)
      exact ⟨a ++ ['\n'], by simp⟩

/-- No beginning of a line that is no data line starts like one. -/
theorem not_prefix_of_cut (hl : ¬dataMarker <+: p ++ a)
    (hgap : gap = [] ∨ gap = [Utf8.replacement]) :
    ¬dataMarker <+: p ++ gap := by
  have hp : ¬dataMarker <+: p := fun h => hl (h.trans (List.prefix_append p a))
  rcases hgap with rfl | rfl
  · rwa [List.append_nil]
  · rw [List.prefix_concat_iff]
    rintro (he | h)
    · have hm : Utf8.replacement ∈ dataMarker := by rw [he]; simp
      exact absurd hm (by decide)
    · exact hp h

/-- No beginning of the line that ends the stream carries an object. -/
theorem not_object_of_cut_end (he : IsEnd (p ++ a)) (hgap : gap = [] ∨ gap = [Utf8.replacement])
    (hp : payload? (p ++ gap) = some payload) : ¬ObjectText payload members := by
  intro ho
  obtain ⟨u, t, w, hline, -, -, hb⟩ := exists_objectLine hp ho
  obtain ⟨s, rfl⟩ := hb.exists_cons
  have hm : '{' ∈ p ++ gap := by
    rw [hline]
    simp [Json.Bracket.opening]
  have hpa : '{' ∈ p ++ a := by
    rcases List.mem_append.1 hm with hm | hm
    · exact List.mem_append_left a hm
    · rcases hgap with rfl | rfl
      · cases hm
      · exact absurd hm (by decide)
  obtain ⟨cr, hcr⟩ := he
  rw [hcr] at hpa
  cases cr <;> exact absurd hpa (by decide)

/-- An object is not on a beginning of its line that stops before the closing bracket. -/
theorem not_object_of_cut {u t w : List Char} {written : List Member} (hu : isAllBlank u = true)
    (hb : Bracketed .curly MemberText t written) (hl : dataMarker ++ (u ++ (t ++ w)) = p ++ a)
    (hno : ¬dataMarker ++ (u ++ t) <+: p) (hgap : gap = [] ∨ gap = [Utf8.replacement])
    (hp : payload? (p ++ gap) = some payload) : ¬ObjectText payload members := by
  intro ho
  obtain ⟨u', t', w', hline, hu', hw', hb'⟩ := exists_objectLine hp ho
  -- a line that carries an object ends in a blank or a bracket
  have hgap' : gap = [] := by
    refine hgap.resolve_right ?_
    rintro rfl
    have hlast : (dataMarker ++ u') ++ (t' ++ w') = p ++ [Utf8.replacement] := by
      simpa using hline.symm
    exact absurd (blanks_of_concat hb' hw' hlast (by decide)).1 (by decide)
  rw [hgap', List.append_nil] at hline
  rw [hline] at hl
  have hrest : u ++ (t ++ w) = u' ++ (t' ++ (w' ++ a)) := by simpa using hl
  obtain ⟨rfl, rfl⟩ := object_unique hu hb hu' hb' hrest
  exact hno ⟨w', by rw [hline]; simp⟩

theorem payloads_cut (hl : '\n' ∉ p ++ a) (hgap : gap = [] ∨ gap = [Utf8.replacement]) :
    payloads (p ++ gap) = carried [p ++ gap] := by
  have hg : '\n' ∉ gap := by rcases hgap with rfl | rfl <;> decide
  have hp : '\n' ∉ p := fun h => hl (List.mem_append_left a h)
  rw [payloads_eq, lines_of_not_mem (by simp [hp, hg])]

/-- In a beginning of a line that stops at a character of one byte or at the end, nothing stands for
a character that did not come. -/
theorem gap_of_line (hcut : Cut before n p (a ++ r) gap) (ha : isAllBlank a = true)
    (hr : r = [] ∨ ∃ s, r = '\n' :: s) : gap = [] := by
  refine hcut.gap_eq_nil fun c hc => ?_
  have hblank : Json.isBlank c = true → width [c] = 1 := by
    simp only [Json.isBlank, Bool.or_eq_true, beq_iff_eq]
    rintro (((rfl | rfl) | rfl) | rfl) <;> rfl
  cases a with
  | nil =>
    rcases hr with rfl | ⟨s, rfl⟩
    · cases hc
    · cases hc
      rfl
  | cons d a =>
    cases hc
    exact hblank (Json.isAllBlank_cons.1 ha).1

/-- A line that stops after the closing bracket has its chunk. -/
theorem filterMap_of_whole {u t w : List Char} (hu : isAllBlank u = true) (hw : isAllBlank w = true)
    (hb : Bracketed .curly MemberText t members) (hl : dataMarker ++ (u ++ (t ++ w)) = p ++ a)
    (hcut : Cut before n p (a ++ r) gap) (hr : r = [] ∨ ∃ s, r = '\n' :: s)
    (hbracket : dataMarker ++ (u ++ t) <+: p) :
    (carried [p ++ gap]).filterMap chunk? = [Table.ofList members] := by
  obtain ⟨v, rfl⟩ := hbracket
  obtain rfl : w = v ++ a := by simpa using hl
  simp only [isAllBlank, List.all_append, Bool.and_eq_true] at hw
  obtain ⟨payload, hp, hdone, hc⟩ := chunk_of_objectLine hu hw.1 hb
  have hline : dataMarker ++ (u ++ t) ++ v ++ gap = dataMarker ++ (u ++ (t ++ v)) := by
    rw [gap_of_line hcut hw.2 hr]
    simp
  rw [hline, carried_cons_some hp hdone, List.filterMap_cons_some hc]
  rfl

/-- What came stops inside the first line or at its end. -/
theorem Chunked.cut_inside {ls : List (List Char)} {cs : List (List Char × Chunk)}
    (h : Chunked before (line :: ls) cs) (hl : line = p ++ a) (hcut : Cut before n p (a ++ r) gap)
    (hr : ls = [] ∧ r = [] ∨ ∃ s, r = '\n' :: s) :
    (carried [p ++ gap]).filterMap chunk? = came n cs := by
  have hgap : gap = [] ∨ gap = [Utf8.replacement] := hcut.gap_eq.imp_right And.left
  cases h with
  | other hno hrest =>
    rw [hl] at hno hrest
    rw [hrest.came_eq_nil hcut hr]
    refine carried_line fun payload hp => ?_
    rw [payload?_eq_none (not_prefix_of_cut hno hgap)] at hp
    cases hp
  | @chunk _ u t w _ _ _ hu hw hb hrest =>
    have hlater := (hl ▸ hrest : Chunked (before ++ (p ++ a ++ ['\n'])) ls _).came_eq_nil hcut hr
    have hwhole : p ++ (a ++ r) = (dataMarker ++ (u ++ t)) ++ (w ++ r) := by
      rw [← List.append_assoc, ← hl]
      simp
    rw [came_cons, hlater]
    by_cases hbracket : dataMarker ++ (u ++ t) <+: p
    · rw [if_pos ((hcut.width_le_iff hwhole).2 hbracket)]
      exact filterMap_of_whole hu hw hb hl hcut (hr.imp_left And.right) hbracket
    · rw [if_neg (mt (hcut.width_le_iff hwhole).1 hbracket)]
      exact carried_line fun payload hp members => not_object_of_cut hu hb hl hbracket hgap hp
  | ended he =>
    rw [hl] at he
    exact carried_line fun payload hp members => not_object_of_cut_end he hgap hp

end

/-- Read from what came of the lines, there are the chunks of which the closing bracket came. -/
theorem Chunked.cut {before p q gap : List Char} {n : Nat} {ls : List (List Char)}
    {cs : List (List Char × Chunk)} (h : Chunked before ls cs) (hne : ls ≠ [])
    (hlines : ∀ l ∈ ls, '\n' ∉ l) (hjoin : join ls = p ++ q) (hcut : Cut before n p q gap) :
    (payloads (p ++ gap)).filterMap chunk? = came n cs := by
  induction ls generalizing before cs p with
  | nil => exact absurd rfl hne
  | cons line ls ih =>
    obtain ⟨hline, hrestlines⟩ := List.forall_mem_cons.1 hlines
    rcases line_cases hjoin with ⟨a, r, hl, rfl, hr⟩ | ⟨p', rfl, hls, hmore⟩
    · have hgap : gap = [] ∨ gap = [Utf8.replacement] := hcut.gap_eq.imp_right And.left
      rw [payloads_cut (hl ▸ hline) hgap, h.cut_inside hl hcut hr]
    · -- the first line came whole, and the others go on from there
      have hshift : Cut (before ++ (line ++ ['\n'])) n p' q gap := .shift (by simpa using hcut)
      rw [List.append_assoc, List.cons_append, payloads_eq, lines_append hline]
      cases h with
      | other hno hrest =>
        rw [carried_cons_none (payload?_eq_none hno), ← payloads_eq]
        exact ih hrest hls hrestlines hmore hshift
      | @chunk _ u t w _ _ _ hu hw hb hrest =>
        obtain ⟨payload, hp, hdone, hc⟩ := chunk_of_objectLine hu hw hb
        have hplace : width (before ++ (dataMarker ++ (u ++ t))) ≤ n := by
          refine (hcut.width_le_iff (r := w ++ '\n' :: (p' ++ q)) (by simp)).2 ?_
          exact ⟨w ++ '\n' :: p', by simp⟩
        rw [came_cons, if_pos hplace, carried_cons_some hp hdone, List.filterMap_cons_some hc,
          ← payloads_eq, ih hrest hls hrestlines hmore hshift]
      | ended he =>
        rw [carried_cons_end he]
        rfl

end InferenceRecorder.Stream
