import InferenceRecorder.Proofs.Record.Document
import InferenceRecorder.Proofs.Record.History
import InferenceRecorder.Proofs.Recorder.Locality

/-!
What a recorder holds is what it was given: dates of the clock, configurations with rates that are
numbers, and nothing where there is no room.
-/
namespace InferenceRecorder

def Operation.Valid : Operation → Prop
  | .configure _ (some config) => config.Canonical
  | .capture _ _ _ time => time.isValid = true
  | _ => True

def Change.Valid : Change → Prop
  | .configured config => config.Canonical
  | .captured c => c.time.isValid = true
  | _ => True

theorem Change.valid_of {op : Operation} (hop : op.Valid) {reply : Reply} {change : Change}
    (h : Change.of? op reply = some change) : change.Valid := by
  unfold Change.of? at h
  split at h <;> cases h
  · exact hop
  · exact hop
  · trivial
  · trivial

theorem History.Valid.answer? {h h' : History} (hv : h.Valid) {id response : String}
    {status : UInt16} (ha : h.answer? id response status = some h') : h'.Valid := by
  obtain ⟨u, e, v, he, -, -, rfl⟩ := History.answer?_eq_some ha
  refine ⟨hv.config, ?_⟩
  have htimes := hv.times
  rw [he] at htimes
  obtain ⟨hu, hev⟩ := List.forall_mem_append.1 htimes
  obtain ⟨hfilled, hrest⟩ := List.forall_mem_cons.1 hev
  exact List.forall_mem_append.2 ⟨hu, List.forall_mem_cons.2 ⟨hfilled, hrest⟩⟩

/-- A valid change leaves a valid history behind, if any. -/
theorem Change.Valid.apply {change : Change} (hc : change.Valid) (capacity : Nat)
    {held : Option History} (hv : ∀ h ∈ held, h.Valid) :
    ∀ h ∈ change.apply capacity held, h.Valid := by
  have hstart : (held.getD History.empty).Valid := by
    cases held with
    | none => exact History.valid_empty
    | some h => exact hv h rfl
  cases change with
  | configured config =>
    rintro _ ⟨⟩
    exact ⟨hc, hstart.times⟩
  | captured c =>
    rintro _ ⟨⟩
    refine ⟨hstart.config, fun e he => ?_⟩
    rcases List.mem_append.1 (List.mem_of_mem_drop he) with he | he
    · exact hstart.times e he
    · rw [List.mem_singleton.1 he]
      exact hc
  | answered id response status =>
    cases held with
    | none => nofun
    | some h =>
      rintro _ ⟨⟩
      dsimp only
      cases ha : h.answer? id response status with
      | none => exact hv h rfl
      | some filled => exact (hv h rfl).answer? ha
  | removed => nofun

namespace Recorder
variable (r : Recorder)

theorem valid_step {op : Operation} (hop : op.Valid) {key : Runner}
    (hv : ∀ h ∈ r.roster.entries.lookup key, h.Valid) :
    ∀ h ∈ (r.step op).recorder.roster.entries.lookup key, h.Valid := by
  rw [(r.step_makes op).lookup]
  cases hc : Call.change? r.roster.normalize r.backend key (op, (r.step op).result) with
  | none => exact hv
  | some change =>
    have hvalid : change.Valid := by
      unfold Call.change? at hc
      split at hc
      · obtain ⟨reply, -, hof⟩ := Option.bind_eq_some_iff.1 hc
        exact Change.valid_of hop hof
      · cases hc
    exact hvalid.apply _ hv

theorem valid_run {ops : List Operation} (hops : ∀ op ∈ ops, op.Valid) {key : Runner}
    (hv : ∀ h ∈ r.roster.entries.lookup key, h.Valid) :
    ∀ h ∈ (r.run ops).roster.entries.lookup key, h.Valid := by
  induction ops generalizing r with
  | nil => exact hv
  | cons op ops ih =>
    obtain ⟨hop, hops⟩ := List.forall_mem_cons.1 hops
    exact ih _ hops (r.valid_step hop hv)

/-- Where nothing is held and there is no room, no call changes that. -/
theorem reply?_without_room (op : Operation) (capacity : Nat) :
    ((op.reply? false none).bind (Change.of? op)).bind (fun change => change.apply capacity none) =
      none := by
  rcases op with ⟨runner, _ | config⟩ | _ | _ | _ | _ | _ <;> rfl

theorem room_step (op : Operation) {key : Runner}
    (hroom : (r.roster.entries.lookup key).isSome → r.reserve?.isSome)
    (h : ((r.step op).recorder.roster.entries.lookup key).isSome) : r.reserve?.isSome := by
  by_cases hk : op.key? r.roster.normalize r.backend = some key
  · have hop : op.isUpdate = true := by
      cases op with
      | query model => cases hk
      | overview => cases hk
      | _ => rfl
    rw [r.lookup_step_own hk, r.result_step hop, hk] at h
    dsimp only at h
    by_contra hno
    have hheld : r.roster.entries.lookup key = none := by
      by_contra hheld
      exact hno (hroom (Option.isSome_iff_ne_none.2 hheld))
    rw [Bool.not_eq_true] at hno
    rw [hheld, hno] at h
    have hnone := reply?_without_room op r.capacity
    cases hc : (op.reply? false none).bind (Change.of? op) with
    | none =>
      rw [hc] at h
      cases h
    | some change =>
      rw [hc, Option.bind_some] at hnone
      rw [hc] at h
      dsimp only at h
      rw [hnone] at h
      cases h
  · rw [r.lookup_step_other hk] at h
    exact hroom h

/-- Whatever is held, there was room for it. -/
theorem room_run (ops : List Operation) {key : Runner}
    (hroom : (r.roster.entries.lookup key).isSome → r.reserve?.isSome)
    (h : ((r.run ops).roster.entries.lookup key).isSome) : r.reserve?.isSome := by
  induction ops generalizing r with
  | nil => exact hroom h
  | cons op ops ih =>
    have hsame : (r.step op).recorder.reserve? = r.reserve? := by
      rw [reserve?, reserve?, (r.step_makes op).capacity]
    rw [← hsame]
    exact ih _ (fun hs => hsame ▸ r.room_step op hroom hs) h

end Recorder
end InferenceRecorder
