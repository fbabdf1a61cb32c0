import InferenceRecorder.Recorder.Calls
import Mathlib.Data.Prod.Lex
import Mathlib.Data.String.Basic

/-!
The order of runners: by backend, then by model, then by the kind of work. The lines of an overview
are sorted by it, and where all of them show different runners each comes strictly before the next:
`pairwise_before`.
-/
namespace InferenceRecorder

theorem Mode.rank_injective : Function.Injective rank := by
  intro mode mode' h
  cases mode <;> cases mode' <;> first | rfl | cases h

namespace Runner

def place (r : Runner) : String ×ₗ String ×ₗ Nat := toLex (r.backend, toLex (r.model, r.mode.rank))

theorem before_iff {a b : Runner} : a.before b = true ↔ a.place < b.place := by
  unfold before place
  rw [Prod.Lex.toLex_lt_toLex, Prod.Lex.toLex_lt_toLex]
  split_ifs <;> simp_all

theorem notAfter_iff {a b : Runner} : a.notAfter b = true ↔ a.place ≤ b.place := by
  rw [notAfter, Bool.not_eq_true', ← Bool.not_eq_true, before_iff, not_lt]

theorem place_injective : Function.Injective place := by
  rintro ⟨backend, model, mode⟩ ⟨backend', model', mode'⟩ h
  simp only [place, EmbeddingLike.apply_eq_iff_eq, Prod.mk.injEq] at h
  obtain ⟨rfl, rfl, hmode⟩ := h
  rw [Mode.rank_injective hmode]

end Runner

namespace RunnerSummary

def runner (line : RunnerSummary) : Runner := ⟨line.backend, line.model, line.mode⟩

def place (line : RunnerSummary) : (String ×ₗ String ×ₗ Nat) ×ₗ Nat ×ₗ Nat :=
  toLex (line.runner.place, toLex (line.count, line.pending))

end RunnerSummary

namespace Recorder

theorem summaryNotAfter_iff {a b : RunnerSummary} :
    summaryNotAfter a b = true ↔ a.place ≤ b.place := by
  change (if a.runner = b.runner then _ else a.runner.notAfter b.runner) = true ↔ _
  rw [RunnerSummary.place, RunnerSummary.place, Prod.Lex.toLex_le_toLex]
  by_cases h : a.runner = b.runner
  · rw [if_pos h, h, Prod.Lex.toLex_le_toLex]
    split_ifs <;> simp_all
  · have hne : a.runner.place ≠ b.runner.place := Runner.place_injective.ne h
    rw [if_neg h, Runner.notAfter_iff, le_iff_lt_or_eq]
    simp [hne]

theorem pairwise_summaryNotAfter (lines : List RunnerSummary) :
    (lines.mergeSort summaryNotAfter).Pairwise fun a b => summaryNotAfter a b = true := by
  refine List.pairwise_mergeSort (fun a b c hab hbc => ?_) (fun a b => ?_) lines
  · rw [summaryNotAfter_iff] at hab hbc ⊢
    exact hab.trans hbc
  · rw [Bool.or_eq_true, summaryNotAfter_iff, summaryNotAfter_iff]
    exact le_total _ _

/-- Lines of different runners come strictly one after the other. -/
theorem pairwise_before {lines : List RunnerSummary}
    (hn : (lines.map RunnerSummary.runner).Nodup) :
    (lines.mergeSort summaryNotAfter).Pairwise fun a b => a.runner.before b.runner = true := by
  have hne : (lines.mergeSort summaryNotAfter).Pairwise fun a b => a.runner ≠ b.runner := by
    have hperm := (List.mergeSort_perm lines summaryNotAfter).map RunnerSummary.runner
    exact List.pairwise_map.1 (hperm.nodup_iff.2 hn)
  refine ((pairwise_summaryNotAfter lines).and hne).imp fun {a b} ⟨hle, hne⟩ => ?_
  -- the numbers of two lines decide only where the runners are the same
  rw [summaryNotAfter_iff, RunnerSummary.place, RunnerSummary.place, Prod.Lex.toLex_le_toLex] at hle
  rw [Runner.before_iff]
  exact hle.resolve_right fun heq => Runner.place_injective.ne hne heq.1

end Recorder
end InferenceRecorder
