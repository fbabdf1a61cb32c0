import InferenceRecorder.Proofs.Json.Grammar
import InferenceRecorder.Proofs.Recorder.Correlation
import InferenceRecorder.Proofs.Stream.Template
import InferenceRecorder.Proofs.Text.Utf8

/-!
Answers that are no streams. The lines of a JSON text are parted by its blanks, since no string
holds a line feed, and what may follow a blank never starts with the letter of the marker. So the
text has no payload, even where its strings spell a whole stream, and it is stored as it came.
-/
namespace InferenceRecorder
namespace Json

def Phase.isBetween : Phase → Bool
  | .value | .firstElement | .firstKey | .key | .colon | .ended => true
  | _ => false

def Phase.Unbroken : Phase → Prop
  | .word left => '\n' ∉ left
  | _ => True

theorem followValue_isBetween {stack : List Bracket} {c : Char} {st : State}
    (h : followValue stack c = some st) : st.2.isBetween = true := by
  unfold followValue at h
  split at h
  · cases h
  · split_ifs at h
    · cases h
      rfl
    · split at h <;> cases h <;> rfl

theorem unbroken_of_isBetween {phase : Phase} (h : phase.isBetween = true) : phase.Unbroken := by
  cases phase with
  | word left => cases h
  | _ => trivial

theorem startValue_unbroken {stack : List Bracket} {c : Char} {st : State}
    (h : startValue stack c = some st) : st.2.Unbroken := by
  unfold startValue at h
  split at h
  case h_9 =>
    split_ifs at h
    cases h
    trivial
  all_goals
    cases h
    simp [Phase.Unbroken]

theorem step_unbroken {stack : List Bracket} {phase : Phase} {c : Char} {st : State}
    (hp : phase.Unbroken) (h : step stack phase c = some st) : st.2.Unbroken := by
  have hf {stack c st} (h : followValue stack c = some st) : st.2.Unbroken :=
    unbroken_of_isBetween (followValue_isBetween h)
  cases phase <;> simp only [step] at h
  case word left =>
    cases left with
    | nil => cases h
    | cons d left => cases left <;> grind [Phase.Unbroken]
  case hex isKey left => cases left <;> grind [Phase.Unbroken]
  all_goals grind [Phase.Unbroken, startValue_unbroken, startExponent, stringEnd]

theorem run_unbroken {st st' : State} {s : List Char} (hp : st.2.Unbroken)
    (h : run st s = some st') : st'.2.Unbroken := by
  induction s generalizing st with
  | nil =>
    cases h
    exact hp
  | cons c s ih =>
    obtain ⟨next, hs, hr⟩ := Option.bind_eq_some_iff.1 h
    exact ih (step_unbroken hp hs) hr

/-- A line feed stands only between two tokens. -/
theorem isBetween_of_lineFeed {stack : List Bracket} {phase : Phase} {st : State}
    (hp : phase.Unbroken) (h : step stack phase '\n' = some st) : st.2.isBetween = true := by
  cases phase
  case word left =>
    cases left with
    | nil => cases h
    | cons d left => cases left <;> grind [Phase.Unbroken, step]
  case ended | zero | integer | fraction | exponentDigits => exact followValue_isBetween h
  case value | firstElement | firstKey | key | colon =>
    cases h
    rfl
  all_goals cases h

/-- Neither a value nor a key nor what follows them starts with this letter. -/
theorem step_isBetween_d {phase : Phase} (hp : phase.isBetween = true) (stack : List Bracket) :
    step stack phase 'd' = none := by
  have hf : followValue stack 'd' = none := by
    cases stack with
    | nil => rfl
    | cons b stack => cases b <;> rfl
  cases phase <;> first | rfl | exact hf | cases hp

theorem not_infix_of_run {st st' : State} {s : List Char} (hp : st.2.Unbroken)
    (h : run st s = some st') : ¬['\n', 'd'] <:+: s := by
  rintro ⟨u, v, rfl⟩
  rw [List.append_assoc, run_append] at h
  obtain ⟨before, hu, h⟩ := Option.bind_eq_some_iff.1 h
  obtain ⟨between, hs, h⟩ := Option.bind_eq_some_iff.1 h
  have hb := isBetween_of_lineFeed (run_unbroken hp hu) hs
  have hd : run between ('d' :: v) = none := by
    rw [run, step_isBetween_d hb]
    rfl
  cases hd.symm.trans h

/-- In a JSON text no line starts with this letter, not even the first. -/
theorem not_infix_of_padded {s : List Char} (h : Padded ValueText s) :
    ¬['\n', 'd'] <:+: '\n' :: s := by
  obtain ⟨u, t, w, rfl, hu, hw, ht⟩ := h
  -- between square brackets the text with its blanks is one value
  have hv : ValueText ('[' :: (u ++ (t ++ (w ++ [']'])))) := .items hu hw (.one (.element ht))
  obtain ⟨-, last, hr, -⟩ := hv.lexeme
  have hrun : run ([.square], .firstElement) ('\n' :: (u ++ (t ++ (w ++ [']'])))) =
      some ([], last) := hr
  have hcut : '\n' :: (u ++ (t ++ (w ++ [']']))) = '\n' :: (u ++ (t ++ w)) ++ [']'] := by simp
  rw [hcut, run_append] at hrun
  obtain ⟨st, hs, -⟩ := Option.bind_eq_some_iff.1 hrun
  have hp : Phase.firstElement.Unbroken := trivial
  exact not_infix_of_run hp hs

end Json

namespace Stream
open Json (Padded ValueText)

theorem reconstruct_of_padded {body : String} (h : Padded ValueText body.toList) :
    reconstruct body = ⟨body, .passthrough, 0⟩ := by
  refine reconstruct_of_other fun line hl hm => Json.not_infix_of_padded h ?_
  have hd : ['\n', 'd'] <+: '\n' :: line :=
    (List.prefix_cons_inj '\n').2 ((by decide : ['d'] <+: dataMarker).trans hm)
  exact hd.isInfix.trans (infix_of_mem_lines hl)

end Stream

namespace Recorder
open Json (Padded ValueText)

/-- A response that is a JSON text is not taken for a stream, and it is stored as it came. -/
theorem plainJson_kept {body : String} (hbody : Padded ValueText body.toList) :
    Stream.reconstruct body = ⟨body, .passthrough, 0⟩ ∧
    ∀ (r : Recorder) (id : String) (runner key : Runner) (came : Captured),
      Utf8.decodeLossy came.body = body → runner.normal? r.roster.normalize = some key →
      r.roster.Holds key id → (r.respond id runner came).result = some true ∧
        r.roster.Filled (r.respond id runner came).recorder.roster key id body came.status := by
  have hs := Stream.reconstruct_of_padded hbody
  refine ⟨hs, fun r id runner key came hc hk hh => ?_⟩
  have hresponse : came.response = body := by
    rw [Captured.response, hc, hs]
    split_ifs <;> rfl
  obtain ⟨hr, -, hf⟩ := r.respond_filled id came hk hh
  rw [hresponse] at hf
  exact ⟨hr, hf⟩

def quotingJson : String :=
  "\x7b\n  \"a\" : \"data: [DONE]\",\r\n\t\"b\":[ \"data: \x7b\x7d\\n\\ndata: [DONE]\\n\" ]\n\x7d\n"

theorem padded_quotingJson : Padded ValueText quotingJson.toList := by
  obtain ⟨v, hv⟩ := Option.isSome_iff_exists.1
    (by decide +kernel : (Json.value? quotingJson.toList).isSome = true)
  obtain ⟨u, t, w, hs, hu, hw, -, ht⟩ := Json.value?_eq_some.1 hv
  exact ⟨u, t, w, hs, hu, hw, ht⟩

def waiting : Recorder := (Recorder.empty oneName 2 "b").run [ask "a" 1]

theorem plainJson_kept_quoting : Padded ValueText quotingJson.toList ∧
    Stream.isEventStream quotingJson = true ∧
    Stream.reconstruct quotingJson = ⟨quotingJson, .passthrough, 0⟩ ∧
    waiting.roster.Holds ⟨"b", "m", .completion⟩ "a_1704110400000000001" ∧
    waiting.roster.Filled (waiting.respond "a_1704110400000000001" ⟨"b", "a_1", .completion⟩
        ⟨Utf8.encode quotingJson, 200⟩).recorder.roster
      ⟨"b", "m", .completion⟩ "a_1704110400000000001" quotingJson 200 := by
  obtain ⟨hs, hstored⟩ := plainJson_kept padded_quotingJson
  have hc : Utf8.decodeLossy (Utf8.encode quotingJson) = quotingJson :=
    Utf8.decodeLossy_encode quotingJson
  have hk : Runner.normal? waiting.roster.normalize ⟨"b", "a_1", .completion⟩ =
      some ⟨"b", "m", .completion⟩ := by decide
  have hl : waiting.roster.entries.lookup ⟨"b", "m", .completion⟩ = some ⟨BackendConfig.empty,
      [⟨"a_1704110400000000001", "a", "POST", "/", "hi", "", ⟨2024, 1, 1, 12, 0, 0, 1⟩, 0,
        ""⟩]⟩ := by decide +kernel
  have hh : waiting.roster.Holds ⟨"b", "m", .completion⟩ "a_1704110400000000001" :=
    ⟨_, hl, _, .head _, rfl⟩
  obtain ⟨-, hf⟩ := hstored waiting _ _ _ ⟨Utf8.encode quotingJson, 200⟩ hc hk hh
  exact ⟨padded_quotingJson, by decide +kernel, hs, hh, hf⟩

end Recorder
end InferenceRecorder
