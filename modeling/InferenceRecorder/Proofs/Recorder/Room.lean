import InferenceRecorder.Proofs.Recorder.Contents
import InferenceRecorder.Settings.Config

/-!
Room for histories. A recorder is accepted with any capacity from one up. But a new history sets
room aside for one exchange more than it will hold, and there is so much room only up to a bound.
Within it a call that records goes through exactly if the normalizer does, in every state; beyond it
none does, and nothing is ever held: `recording_completes_iff`.
-/
namespace InferenceRecorder

/-- One place more than the capacity can be counted in a word, and the bytes of so many places can
be set aside at once. -/
def Recorder.Reservable (capacity : Nat) : Prop :=
  capacity + 1 < 2 ^ 64 ∧ (capacity + 1) * Recorder.exchangeBytes < 2 ^ 63

theorem RecorderSetup.build_eq_ok_iff {setup : RecorderSetup} {r : Recorder} :
    setup.build = .ok r ↔ 1 ≤ setup.capacity ∧ setup.backend ≠ "" ∧
      r = Recorder.empty setup.normalize setup.capacity setup.backend := by
  unfold build
  split_ifs with hc hb
  · simp [hc]
  · simp [hb]
  · rw [Except.ok.injEq, Nat.one_le_iff_ne_zero]
    exact ⟨fun h => ⟨hc, hb, h.symm⟩, fun h => h.2.2.symm⟩

namespace Recorder
variable (r : Recorder)

/-- The bytes bound the places before the word does. -/
theorem isSome_reserve?_iff : r.reserve?.isSome ↔ Reservable r.capacity := by
  have hbound : memoryBound = 2 ^ 63 := rfl
  have hbytes : exchangeBytes = 184 := rfl
  rw [reserve?, Reservable, hbound, hbytes]
  split_ifs with h
  · simp only [Option.isSome_some, true_iff]
    omega
  · simp only [Option.isSome_none, Bool.false_eq_true, false_iff]
    omega

theorem reservable_iff (capacity : Nat) : Reservable capacity ↔ capacity ≤ 50127021939428128 := by
  unfold Reservable exchangeBytes
  omega

/-- Where whatever is held has its room, an upsert goes through exactly if the runner has a normal
form and there is room. -/
theorem isSome_upsert_iff (hroom : ∀ key, (r.roster.entries.lookup key).isSome → r.reserve?.isSome)
    {β : Type} (runner : Runner) (change : History → History) (answer : β) :
    ((r.roster.upsert runner r.reserve? change).1.map fun _ => answer).isSome ↔
      (r.roster.normalize runner.model).isSome ∧ Reservable r.capacity := by
  rw [Roster.map_upsert, ← isSome_reserve?_iff, Runner.normal?]
  cases hn : r.roster.normalize runner.model with
  | none => simp
  | some model =>
    have hkey := hroom { runner with model := model }
    cases hr : r.reserve? with
    | some history => simp
    | none => simpa [hr] using hkey

/-- Whatever is held after a run from the start, there was room for it. -/
theorem room_run_empty (normalize : Normalizer) (capacity : Nat) (backend : String)
    (ops : List Operation) (key : Runner) :
    let r := (empty normalize capacity backend).run ops
    (r.roster.entries.lookup key).isSome → r.reserve?.isSome := by
  intro r h
  have hsetup := run_setup (empty normalize capacity backend) ops
  rw [isSome_reserve?_iff, hsetup.2.1, ← isSome_reserve?_iff]
  exact room_run (empty normalize capacity backend) ops nofun h

/-- After any run of a recorder that was accepted, setting a configuration and capturing a request
complete exactly if the normalizer does and the capacity leaves one more exchange room, which it
does up to a bound. Beyond it nothing is ever held. -/
theorem recording_completes_iff {setup : RecorderSetup} {start : Recorder}
    (hbuild : setup.build = .ok start) (ops : List Operation) :
    let r := start.run ops
    (∀ runner config, (r.configure runner (some config)).result.isSome ↔
      (setup.normalize runner.model).isSome ∧ Reservable setup.capacity) ∧
    (∀ runner request body time, (r.capture runner request body time).result.isSome ↔
      (setup.normalize runner.model).isSome ∧ Reservable setup.capacity) ∧
    (Reservable setup.capacity ↔ setup.capacity ≤ 50127021939428128) ∧
    (¬Reservable setup.capacity → r.roster.entries = []) := by
  intro r
  obtain ⟨-, -, rfl⟩ := RecorderSetup.build_eq_ok_iff.1 hbuild
  obtain ⟨hnormalize, hcapacity, -⟩ :=
    run_setup (empty setup.normalize setup.capacity setup.backend) ops
  have hroom := room_run_empty setup.normalize setup.capacity setup.backend ops
  have hn : r.roster.normalize = setup.normalize := hnormalize
  have hc : r.capacity = setup.capacity := hcapacity
  refine ⟨fun runner config => ?_, fun runner request body time => ?_, reservable_iff _,
    fun hfull => ?_⟩
  · rw [result_configure, isSome_upsert_iff r hroom, hn, hc]
  · rw [result_capture, isSome_upsert_iff r hroom, hn, hc]
  · refine List.eq_nil_iff_forall_not_mem.2 fun entry he => hfull ?_
    have hkeys : r.roster.entries.keys.Nodup := run_keys _ .nil
    rw [← hc, ← isSome_reserve?_iff]
    exact hroom entry.1 (Option.isSome_of_eq_some (Table.lookup_of_mem hkeys he))

def fullest : RecorderSetup := ⟨some, 50127021939428128, "llama.cpp"⟩

theorem recording_completes_iff_fullest :
    let op : Operation := .capture ⟨"llama.cpp", "m", .completion⟩ ⟨"POST", "/v1", ""⟩ [] default
    ∃ start, fullest.build = .ok start ∧ Reservable fullest.capacity ∧
      ((start.run [op]).capture ⟨"llama.cpp", "n", .embedding⟩ ⟨"POST", "/v1", ""⟩ []
        default).result.isSome ∧
      ((start.run [op]).configure ⟨"vllm", "m", .completion⟩
        (some BackendConfig.empty)).result.isSome := by
  intro op
  have hbuild : fullest.build = .ok (empty some 50127021939428128 "llama.cpp") :=
    RecorderSetup.build_eq_ok_iff.2 ⟨by decide, by decide, rfl⟩
  obtain ⟨hconfigure, hcapture, hbound, -⟩ := recording_completes_iff hbuild [op]
  have hroom : Reservable fullest.capacity := hbound.2 (Nat.le_refl _)
  exact ⟨_, hbuild, hroom, (hcapture _ _ _ _).2 ⟨rfl, hroom⟩, (hconfigure _ _).2 ⟨rfl, hroom⟩⟩

/-- The greatest capacity that a configuration text can ask for is accepted, but nothing can be
recorded with it. -/
theorem no_room_as_configured :
    ∃ config start,
      Config.parse "[recorder]\nhistory_capacity = 9223372036854775807\n" = .ok config ∧
      config.recorderSetup.build = .ok start ∧ config.recorderSetup.normalize "m" = some "m" ∧
      (start.capture ⟨"llama.cpp", "m", .completion⟩ ⟨"POST", "/v1", ""⟩ [] default).result = none ∧
      (start.configure ⟨"llama.cpp", "m", .completion⟩ (some BackendConfig.empty)).result =
        none := by
  have hread : Config.ofText? "[recorder]\nhistory_capacity = 9223372036854775807\n" =
      some ⟨"127.0.0.1:9742", 9223372036854775807, "llama.cpp"⟩ := by decide +kernel
  exact ⟨_, _, by rw [Config.parse, hread],
    RecorderSetup.build_eq_ok_iff.2 ⟨by decide, by decide, rfl⟩, rfl, by decide +kernel,
    by decide +kernel⟩

end Recorder
end InferenceRecorder
