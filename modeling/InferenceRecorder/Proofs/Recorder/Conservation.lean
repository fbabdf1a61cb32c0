import InferenceRecorder.Proofs.Recorder.Correlation
import InferenceRecorder.Proofs.Recorder.Locality

/-!
What is counted and what is held. Every request that is counted is held, or was evicted, or went
when its history was dropped; a request evicts another exactly if its history is full; and every
response that does not fail is counted as matched or as dropped: `counts_conserve`.
-/
namespace InferenceRecorder

namespace Count

def total (counter : String) (labels : List (String × String)) (counts : List Count) : Nat :=
  ((counts.filter fun c => c.counter = counter ∧ c.labels = labels).map amount).sum

variable (backend : String) (mode : Mode)

def requests (counts : List Count) : Nat :=
  total "huginn_requests_recorded_total" [("backend", backend), ("mode", mode.name)] counts

def evictions (counts : List Count) : Nat :=
  total "huginn_records_evicted_total" [("backend", backend), ("mode", mode.name)] counts

def responses (outcome : String) (counts : List Count) : Nat :=
  total "huginn_responses_recorded_total"
    [("backend", backend), ("mode", mode.name), ("outcome", outcome)] counts

end Count

namespace Mode

theorem name_inj {a b : Mode} : a.name = b.name ↔ a = b := by
  refine ⟨fun h => ?_, congrArg name⟩
  rw [← Option.some.injEq, ← ofName?_name a, ← ofName?_name b, h]

end Mode

namespace Count
variable (backend : String) (mode : Mode)

theorem total_append (counter : String) (labels : List (String × String)) (a b : List Count) :
    total counter labels (a ++ b) = total counter labels a + total counter labels b := by
  simp [total]

theorem requests_requestCounts (runner : Runner) (evicted : Nat) :
    requests backend mode (Recorder.requestCounts runner evicted) =
      if runner.backend = backend ∧ runner.mode = mode then 1 else 0 := by
  unfold requests total Recorder.requestCounts
  split_ifs <;> simp_all [counter, labels, amount, Mode.name_inj]

theorem evictions_requestCounts (runner : Runner) (evicted : Nat) :
    evictions backend mode (Recorder.requestCounts runner evicted) =
      if runner.backend = backend ∧ runner.mode = mode then evicted else 0 := by
  unfold evictions total Recorder.requestCounts
  split_ifs <;> simp_all [counter, labels, amount, Mode.name_inj]

theorem responses_requestCounts (outcome : String) (runner : Runner) (evicted : Nat) :
    responses backend mode outcome (Recorder.requestCounts runner evicted) = 0 := by
  unfold responses total Recorder.requestCounts
  split_ifs <;> simp [counter]

/-- Reading a response raises no other counter than that of the streams. -/
theorem total_reading {counter : String} (h : counter ≠ "huginn_stream_reconstructions_total")
    (labels : List (String × String)) (came : Captured) : total counter labels came.counts = 0 := by
  have hc : ∀ outcome, (Count.streamReconstructed outcome).counter ≠ counter := fun _ => h.symm
  unfold total Captured.counts
  dsimp only
  split_ifs <;> simp [hc]

theorem requests_respond (came : Captured) (runner : Runner) (matched : Bool) :
    requests backend mode (came.counts ++
      [.responseRecorded runner.backend runner.mode matched]) = 0 := by
  rw [requests, total_append, total_reading (by decide)]
  simp [total, counter]

theorem evictions_respond (came : Captured) (runner : Runner) (matched : Bool) :
    evictions backend mode (came.counts ++
      [.responseRecorded runner.backend runner.mode matched]) = 0 := by
  rw [evictions, total_append, total_reading (by decide)]
  simp [total, counter]

/-- A response that was dealt with is counted once, as matched or as dropped. -/
theorem responses_respond (came : Captured) (runner : Runner) (matched : Bool) :
    responses backend mode "matched" (came.counts ++
        [.responseRecorded runner.backend runner.mode matched]) +
      responses backend mode "dropped" (came.counts ++
        [.responseRecorded runner.backend runner.mode matched]) =
      if runner.backend = backend ∧ runner.mode = mode then 1 else 0 := by
  simp only [responses, total_append, total_reading (by decide : "huginn_responses_recorded_total" ≠
    "huginn_stream_reconstructions_total")]
  cases matched <;> split_ifs <;> simp_all [total, counter, labels, amount, Mode.name_inj]

end Count

def share (backend : String) (mode : Mode) (key : Runner) (held : Option History) : Nat :=
  if key.backend = backend ∧ key.mode = mode then (held.getD History.empty).exchanges.length else 0

def heldFor (backend : String) (mode : Mode) (entries : Table Runner History) : Nat :=
  (entries.map fun e => share backend mode e.1 (some e.2)).sum

namespace Operation

def counted (capacity : Nat) (held : Option History) : Operation → Option Reply → List Count
  | .capture runner _ _ _, some _ =>
    Recorder.requestCounts runner ((held.getD History.empty).evictedBy capacity)
  | .respond _ runner came, some (.responded matched) =>
    came.counts ++ [.responseRecorded runner.backend runner.mode matched]
  | .respond _ _ came, none => came.counts
  | _, _ => []

end Operation

namespace Recorder
variable (r : Recorder)

theorem counts_step (op : Operation) : (r.step op).counts =
    op.counted r.capacity
      ((op.key? r.roster.normalize r.backend).bind fun key => r.roster.entries.lookup key)
      (r.step op).result := by
  cases op with
  | configure runner config =>
    cases config with
    | none => rfl
    | some config =>
      simp only [step, Report.map, configure, unlock]
      split <;> rfl
  | capture runner request body time =>
    simp only [step, Report.map, capture, unlock]
    split
    next u roster hu =>
      obtain ⟨key, hk, hl, -⟩ := Roster.upsert_some hu
      have hkey : (Operation.capture runner request body time).key? r.roster.normalize r.backend =
          some key := hk
      have hbefore : (r.roster.entries.lookup key).getD History.empty = u.before := by
        obtain hl | ⟨hl, hinit⟩ := hl
        · rw [hl, Option.getD_some]
        · rw [hl, Option.getD_none, r.eq_empty_of_reserve? hinit]
      rw [hkey, Option.bind_some, ← hbefore]
      rfl
    next roster hu => rfl
  | respond id runner came =>
    obtain ⟨-, hr⟩ | ⟨own, -, ⟨-, notice, -, hr⟩ | ⟨h', -, hr⟩⟩ := r.respond_cases id runner came
    all_goals
      rw [step, Report.map, hr r.poisoned, came.reading_counts]
      rfl
  | query model => rfl
  | remove model =>
    simp only [step, Report.map, remove, unlock]
    split <;> rfl
  | overview => rfl

variable (backend : String) (mode : Mode)

def discards (r : Recorder) : Operation → Nat
  | .remove model =>
    match (r.completionRunner model).normal? r.roster.normalize with
    | some key => share backend mode key (r.roster.entries.lookup key)
    | none => 0
  | _ => 0

def discarded (r : Recorder) : List Operation → Nat
  | [] => 0
  | op :: ops => r.discards backend mode op + discarded (r.step op).recorder ops

/-- What is held changes as much as the share of the key of the call. -/
theorem heldFor_step {op : Operation} {key : Runner} (hn : r.roster.entries.keys.Nodup)
    (hk : op.key? r.roster.normalize r.backend = some key) :
    heldFor backend mode (r.step op).recorder.roster.entries +
        share backend mode key (r.roster.entries.lookup key) =
      heldFor backend mode r.roster.entries +
        share backend mode key ((r.step op).recorder.roster.entries.lookup key) := by
  have hshare : ∀ held : Option History, share backend mode key held =
      (held.map fun h => share backend mode key (some h)).getD 0 := by
    intro held
    cases held <;> simp [share, History.empty]
  rw [hshare, hshare (Table.lookup _ _)]
  refine Table.sum_of_lookup_ne (fun e => share backend mode e.1 (some e.2)) hn
    ((r.step_makes op).keys hn) fun other hother => r.lookup_step_other fun hkey => ?_
  exact hother (Option.some.inj (hkey.symm.trans hk))

theorem heldFor_step_keyless {op : Operation} (hn : r.roster.entries.keys.Nodup)
    (hk : op.key? r.roster.normalize r.backend = none) :
    heldFor backend mode (r.step op).recorder.roster.entries =
      heldFor backend mode r.roster.entries := by
  have hl : ∀ key, (r.step op).recorder.roster.entries.lookup key = r.roster.entries.lookup key :=
    fun key => r.lookup_step_other (by rw [hk]; nofun)
  exact ((Table.perm_of_lookup ((r.step_makes op).keys hn) hn hl).map _).sum_nat

variable {r} {op : Operation} {key : Runner}

/-- The key of a call has the backend and the mode that it counts under. -/
theorem share_normal? {runner : Runner} (hk : runner.normal? r.roster.normalize = some key)
    (held : Option History) : share backend mode key held =
      if runner.backend = backend ∧ runner.mode = mode then
        (held.getD History.empty).exchanges.length
      else 0 := by
  obtain ⟨model, -, rfl⟩ := Option.map_eq_some_iff.1 hk
  rfl

theorem length_append_add_evictedBy (capacity : Nat) (e : Exchange) (h : History) :
    (h.append capacity e).exchanges.length + h.evictedBy capacity = h.exchanges.length + 1 := by
  rw [History.exchanges_append, History.length_lastly, List.length_append, List.length_singleton,
    History.evictedBy]
  omega

theorem share_answered (id response : String) (status : UInt16) (held : Option History) :
    share backend mode key (held.map fun h => (h.answer? id response status).getD h) =
      share backend mode key held := by
  cases held with
  | none => rfl
  | some h =>
    cases ha : h.answer? id response status with
    | none => simp [ha]
    | some filled =>
      obtain ⟨u, e, v, he, -, -, rfl⟩ := History.answer?_eq_some ha
      simp [share, ha, he]

theorem conserves_own (hk : op.key? r.roster.normalize r.backend = some key) :
    Count.requests backend mode (r.step op).counts +
        share backend mode key (r.roster.entries.lookup key) =
      Count.evictions backend mode (r.step op).counts +
        share backend mode key ((r.step op).recorder.roster.entries.lookup key) +
        r.discards backend mode op := by
  rw [counts_step, hk, Option.bind_some, r.lookup_step_own hk]
  cases op with
  | configure runner config =>
    cases config with
    | none => cases hk
    | some config =>
      rw [r.result_step rfl, hk]
      simp only [Operation.reply?]
      split_ifs
      · cases r.roster.entries.lookup key <;> rfl
      · rfl
  | capture runner request body time =>
    rw [r.result_step rfl, hk]
    simp only [Operation.reply?]
    split_ifs
    · have hl := length_append_add_evictedBy r.capacity (begun runner request body time)
        ((r.roster.entries.lookup key).getD History.empty)
      have hafter : ((some (Reply.captured (exchangeId runner.model time))).bind
          (Change.of? (.capture runner request body time))) =
          some (.captured ⟨runner, request, body, time⟩) := rfl
      rw [hafter]
      simp only [Change.apply, Capture.exchange, Operation.counted, Count.requests_requestCounts,
        Count.evictions_requestCounts, share_normal? backend mode hk, Option.getD_some, discards]
      split_ifs
      · omega
      · rfl
    · rfl
  | respond id runner came =>
    rw [r.result_step rfl, hk]
    have hafter : ∀ matched, ((some (Reply.responded matched)).bind
        (Change.of? (.respond id runner came))) =
          some (.answered id came.response came.status) := fun _ => rfl
    simp only [Operation.reply?, Operation.counted, Count.requests_respond,
      Count.evictions_respond, hafter, Change.apply, share_answered, discards]
    omega
  | remove model =>
    have hkey : (r.completionRunner model).normal? r.roster.normalize = some key := hk
    rw [r.result_step rfl, hk]
    simp only [Operation.reply?, Operation.counted, discards, hkey]
    cases r.roster.entries.lookup key <;>
      simp [Change.of?, Change.apply, share, History.empty, Count.requests, Count.evictions,
        Count.total]
  | query model => cases hk
  | overview => cases hk

theorem conserves_keyless (hk : op.key? r.roster.normalize r.backend = none) :
    Count.requests backend mode (r.step op).counts =
      Count.evictions backend mode (r.step op).counts + r.discards backend mode op := by
  rw [counts_step, hk, Option.bind_none]
  cases op with
  | configure runner config => rfl
  | capture runner request body time =>
    rw [r.result_step rfl, hk]
    rfl
  | respond id runner came =>
    rw [r.result_step rfl, hk]
    simp only [Operation.keyless?, Operation.counted, Count.requests, Count.evictions, discards]
    rw [Count.total_reading (by decide), Count.total_reading (by decide)]
  | query model => rfl
  | remove model =>
    have hkey : (r.completionRunner model).normal? r.roster.normalize = none := hk
    simp only [discards, hkey]
    rfl
  | overview => rfl

/-- What one call counts is accounted for by what it changes. -/
theorem conserves_step (op : Operation) (hn : r.roster.entries.keys.Nodup) :
    Count.requests backend mode (r.step op).counts + heldFor backend mode r.roster.entries =
      Count.evictions backend mode (r.step op).counts +
        heldFor backend mode (r.step op).recorder.roster.entries + r.discards backend mode op := by
  cases hk : op.key? r.roster.normalize r.backend with
  | some key =>
    have hown := conserves_own backend mode hk
    have hheld := r.heldFor_step backend mode hn hk
    omega
  | none =>
    rw [r.heldFor_step_keyless backend mode hn hk, conserves_keyless backend mode hk]
    omega

variable (r)

def counts (ops : List Operation) : List Count := (r.reports ops).flatMap Report.counts

theorem conserves_run (ops : List Operation) (hn : r.roster.entries.keys.Nodup) :
    Count.requests backend mode (r.counts ops) + heldFor backend mode r.roster.entries =
      Count.evictions backend mode (r.counts ops) +
        heldFor backend mode (r.run ops).roster.entries + r.discarded backend mode ops := by
  induction ops generalizing r with
  | nil => rfl
  | cons op ops ih =>
    have hstep := conserves_step backend mode op hn
    have hrest := ih (r.step op).recorder ((r.step_makes op).keys hn)
    have hcounts : r.counts (op :: ops) = (r.step op).counts ++ (r.step op).recorder.counts ops :=
      rfl
    unfold Count.requests Count.evictions at *
    rw [hcounts, Count.total_append, Count.total_append, run_cons, discarded]
    omega

end Recorder

def Call.respondsFor (backend : String) (mode : Mode) : Call → Bool
  | (.respond _ runner _, some _) => runner.backend = backend ∧ runner.mode = mode
  | _ => false

namespace Recorder
variable (r : Recorder) (backend : String) (mode : Mode)

theorem responses_step (op : Operation) :
    Count.responses backend mode "matched" (r.step op).counts +
        Count.responses backend mode "dropped" (r.step op).counts =
      if Call.respondsFor backend mode (op, (r.step op).result) then 1 else 0 := by
  rw [counts_step]
  cases op with
  | respond id runner came =>
    rw [r.result_step rfl]
    cases (Operation.respond id runner came).key? r.roster.normalize r.backend with
    | none =>
      simp only [Operation.keyless?, Operation.counted, Count.responses]
      rw [Count.total_reading (by decide), Count.total_reading (by decide)]
      rfl
    | some key =>
      simp only [Operation.reply?, Operation.counted, Count.responses_respond, Call.respondsFor,
        decide_eq_true_eq]
  | capture runner request body time =>
    cases (r.step (.capture runner request body time)).result with
    | none => rfl
    | some reply =>
      simp only [Operation.counted, Count.responses_requestCounts]
      rfl
  | _ => rfl

theorem responses_run (ops : List Operation) :
    Count.responses backend mode "matched" (r.counts ops) +
        Count.responses backend mode "dropped" (r.counts ops) =
      (r.calls ops).countP (Call.respondsFor backend mode) := by
  induction ops generalizing r with
  | nil => rfl
  | cons op ops ih =>
    have hstep := r.responses_step backend mode op
    have hrest := ih (r.step op).recorder
    have hcounts : r.counts (op :: ops) = (r.step op).counts ++ (r.step op).recorder.counts ops :=
      rfl
    unfold Count.responses at *
    rw [hcounts, Count.total_append, Count.total_append, calls_cons, List.countP_cons]
    omega

def isFull (runner : Runner) : Bool :=
  ((runner.normal? r.roster.normalize).bind r.roster.entries.lookup).any fun h =>
    h.exchanges.length = r.capacity

/-- A request evicts one exchange where the history is full, and else none. -/
theorem evictions_capture (hc : 1 ≤ r.capacity)
    (hl : ∀ key h, r.roster.entries.lookup key = some h → h.exchanges.length ≤ r.capacity)
    (runner : Runner) (request : RequestInfo) (body : List UInt8) (time : Instant) :
    Count.evictions backend mode (r.capture runner request body time).counts =
      if runner.backend = backend ∧ runner.mode = mode ∧ r.isFull runner then 1 else 0 := by
  have hcounts := r.counts_step (.capture runner request body time)
  rw [r.result_step rfl] at hcounts
  have hkey : (Operation.capture runner request body time).key? r.roster.normalize r.backend =
      runner.normal? r.roster.normalize := rfl
  rw [show (r.capture runner request body time).counts = _ from hcounts, hkey, isFull]
  cases runner.normal? r.roster.normalize with
  | none => simp [Operation.keyless?, Operation.counted, Count.evictions, Count.total]
  | some key =>
    obtain hk | ⟨h, hk⟩ := (r.roster.entries.lookup key).eq_none_or_eq_some
    · -- a new history has nothing to evict
      have hnone : History.empty.evictedBy r.capacity = 0 := by
        simp only [History.evictedBy, History.empty, List.length_nil]
        omega
      simp only [Option.bind_some, Operation.reply?, hk]
      cases r.reserve?.isSome with
      | false => simp [Operation.counted, Count.evictions, Count.total]
      | true => simp [Operation.counted, Count.evictions_requestCounts, hnone]
    · have hone : h.evictedBy r.capacity = if h.exchanges.length = r.capacity then 1 else 0 := by
        have := hl key h hk
        simp only [History.evictedBy]
        split_ifs <;> omega
      simp only [Option.bind_some, Operation.reply?, hk, Option.isSome_some, Bool.true_or, if_true,
        Operation.counted, Option.getD_some, Count.evictions_requestCounts, hone, Option.any_some,
        decide_eq_true_eq]
      split_ifs <;> simp_all

/-- All requests that were counted under a backend and a mode are held there, or were evicted, or
went when a history was dropped; a request evicts one exchange where its history is full, and else
none; and all responses that did not fail were counted, as matched or as dropped. -/
theorem counts_conserve (normalize : Normalizer) (capacity : Nat) (hc : 1 ≤ capacity)
    (own : String) (ops : List Operation) (backend : String) (mode : Mode) :
    let start := Recorder.empty normalize capacity own
    let r := start.run ops
    Count.requests backend mode (start.counts ops) =
        Count.evictions backend mode (start.counts ops) +
          heldFor backend mode r.roster.entries + start.discarded backend mode ops ∧
      (∀ runner request body time,
        Count.evictions backend mode (r.capture runner request body time).counts =
          if runner.backend = backend ∧ runner.mode = mode ∧ r.isFull runner then 1 else 0) ∧
      Count.responses backend mode "matched" (start.counts ops) +
          Count.responses backend mode "dropped" (start.counts ops) =
        (start.calls ops).countP (Call.respondsFor backend mode) := by
  intro start r
  have hcapacity : r.capacity = capacity := (run_setup start ops).2.1
  refine ⟨start.conserves_run backend mode ops .nil,
    r.evictions_capture backend mode (hcapacity.symm ▸ hc) fun key h hl => ?_,
    start.responses_run backend mode ops⟩
  have w := lookup_window normalize capacity own ops key
  rw [show ((empty normalize capacity own).run ops).roster.entries.lookup key = some h from hl] at w
  exact hcapacity.symm ▸ w.length_le

def counted : List Operation :=
  [ask "a" 0, ask "m" 1, ask "" 2,
    .respond "m_1704110400000000001" ⟨"b", "a", .completion⟩ ⟨[111, 107], 200⟩,
    .respond "m_1704110400000000001" ⟨"b", "", .completion⟩ ⟨[111, 107], 200⟩, .remove "b",
    .respond "m_1704110400000000001" ⟨"b", "a", .completion⟩ ⟨[111, 107], 200⟩, ask "m" 3]

theorem counts_conserve_once_each : 1 ≤ 1 ∧
    let start := Recorder.empty oneName 1 "b"
    let r := start.run counted
    Count.requests "b" .completion (start.counts counted) = 3 ∧
      Count.requests "b" .completion (start.counts counted) =
        Count.evictions "b" .completion (start.counts counted) +
          heldFor "b" .completion r.roster.entries + start.discarded "b" .completion counted ∧
      heldFor "b" .completion r.roster.entries = 1 ∧
      start.discarded "b" .completion counted = 1 ∧
      Count.evictions "b" .completion
        (r.capture ⟨"b", "x", .completion⟩ ⟨"GET", "/", ""⟩ [] default).counts = 1 ∧
      Count.responses "b" .completion "matched" (start.counts counted) +
        Count.responses "b" .completion "dropped" (start.counts counted) = 2 := by
  obtain ⟨hheld, hevicts, hresponses⟩ :=
    counts_conserve oneName 1 (by decide) "b" counted "b" .completion
  refine ⟨by decide, by decide +kernel, hheld, by decide +kernel, by decide +kernel,
    (hevicts _ _ _ _).trans (by decide +kernel), hresponses.trans (by decide +kernel)⟩

end Recorder
end InferenceRecorder
