import InferenceRecorder.Proofs.Numeral.Digits
import InferenceRecorder.Proofs.Recorder.Changes

/-!
The ids of exchanges. The time in an id has no underscore, so an id can be taken apart at its last
one, and two captures that share an id share the model and the reading of the clock.
-/
namespace InferenceRecorder

/-- A list falls apart at its last separator in one way only. -/
theorem eq_of_append_cons_eq {α : Type} {sep : α} {u v u' v' : List α} (hv : sep ∉ v)
    (hv' : sep ∉ v') (h : u ++ sep :: v = u' ++ sep :: v') : u = u' ∧ v = v' := by
  rcases List.append_eq_append_iff.1 h with ⟨w, hu, hw⟩ | ⟨w, hu, hw⟩
  · cases w with
    | nil => simp_all
    | cons x w =>
      simp only [List.cons_append, List.cons.injEq] at hw
      exact absurd (hw.2 ▸ List.mem_append_right w List.mem_cons_self) hv
  · cases w with
    | nil => simp_all
    | cons x w =>
      simp only [List.cons_append, List.cons.injEq] at hw
      exact absurd (hw.2 ▸ List.mem_append_right w List.mem_cons_self) hv'

theorem Recorder.exchangeId_inj {model model' : String} {time time' : Instant}
    (h : exchangeId model time = exchangeId model' time') :
    model = model' ∧ time.nanoseconds = time'.nanoseconds := by
  have hl := congrArg String.toList h
  simp only [exchangeId, String.toList_append, String.toList_ofList] at hl
  have hs : "_".toList = ['_'] := rfl
  rw [hs, List.append_assoc, List.append_assoc] at hl
  obtain ⟨hm, ht⟩ := eq_of_append_cons_eq (Numeral.underscore_not_mem_signedDecimal _)
    (Numeral.underscore_not_mem_signedDecimal _) hl
  exact ⟨String.toList_inj.1 hm, Numeral.signedDecimal_inj ht⟩

namespace Capture

def id (c : Capture) : String := Recorder.exchangeId c.runner.model c.time

def mark (c : Capture) : String × Int := (c.runner.model, c.time.nanoseconds)

theorem nodup_ids {cs : List Capture} (h : (cs.map mark).Nodup) : (cs.map id).Nodup := by
  rw [List.Nodup, List.pairwise_map] at h ⊢
  refine h.imp fun {a b} hne he => hne ?_
  obtain ⟨hm, ht⟩ := Recorder.exchangeId_inj he
  exact Prod.ext hm ht

end Capture
end InferenceRecorder
