import InferenceRecorder.Proofs.Json.Reading
import InferenceRecorder.Proofs.Recorder.Correlation
import InferenceRecorder.Tap.MemorySink

/-!
Exchanges that wait for their response. An exchange shows that it waits by a status of zero, and a
response may carry that status as well. So an exchange is pending until it is answered, and again
where its last response left a zero behind: `pending_until_answered`.
-/
namespace InferenceRecorder
open History (lastly)

structure Followed where
  capture : Capture
  answers : List (String × UInt16)
  deriving DecidableEq, Repr

namespace Followed

def isAnswered (f : Followed) : Bool := !f.answers.isEmpty

def endsInZero (f : Followed) : Bool := f.answers.getLast?.any fun answer => answer.2 == 0

def exchange (f : Followed) : Exchange :=
  match f.answers.getLast? with
  | some (response, status) => { f.capture.exchange with response := response, status := status }
  | none => f.capture.exchange

def answered (f : Followed) (answer : String × UInt16) : Followed :=
  { f with answers := f.answers ++ [answer] }

def fill (id : String) (answer : String × UInt16) : List Followed → List Followed
  | [] => []
  | f :: fs => if f.capture.id = id then f.answered answer :: fs else f :: fill id answer fs

end Followed

def Change.follow (capacity : Nat) : Change → List Followed → List Followed
  | .configured _, fs => fs
  | .captured c, fs => lastly capacity (fs ++ [⟨c, []⟩])
  | .answered id response status, fs => Followed.fill id (response, status) fs
  | .removed, _ => []

def followed (capacity : Nat) (past : List Change) : List Followed :=
  past.foldl (fun fs change => change.follow capacity fs) []

theorem followed_concat (capacity : Nat) (past : List Change) (change : Change) :
    followed capacity (past ++ [change]) = change.follow capacity (followed capacity past) := by
  simp [followed]

namespace Followed

theorem id_exchange (f : Followed) : f.exchange.id = f.capture.id := by
  unfold exchange
  split <;> rfl

theorem exchange_answered (f : Followed) (response : String) (status : UInt16) :
    (f.answered (response, status)).exchange =
      { f.exchange with response := response, status := status } := by
  have hlast : (f.answered (response, status)).answers.getLast? = some (response, status) :=
    List.getLast?_concat
  rw [exchange, hlast, exchange]
  cases f.answers.getLast? <;> rfl

theorem isPending_exchange (f : Followed) :
    f.exchange.isPending = (!f.isAnswered || f.endsInZero) := by
  unfold exchange
  cases hlast : f.answers.getLast? with
  | none =>
    have hnone : f.isAnswered = false := by
      simp [isAnswered, List.getLast?_eq_none_iff.1 hlast]
    rw [hnone]
    rfl
  | some answer =>
    have hsome : f.isAnswered = true := by
      have hne : f.answers ≠ [] := by
        rintro hnil
        simp [hnil] at hlast
      simp [isAnswered, hne]
    rw [hsome, endsInZero, hlast]
    rfl

/-- A request without an answer has no last answer either. -/
theorem endsInZero_of_not_isAnswered {f : Followed} (h : f.isAnswered = false) :
    f.endsInZero = false := by
  have hnil : f.answers = [] := by simpa [isAnswered] using h
  simp [endsInZero, hnil]

/-- An exchange tells rightly whether it waits exactly if its last response left no zero. -/
theorem isPending_iff (f : Followed) :
    (f.exchange.isPending = true ↔ f.isAnswered = false) ↔ f.endsInZero = false := by
  rw [isPending_exchange]
  cases ha : f.isAnswered with
  | false => simp [endsInZero_of_not_isAnswered ha]
  | true => simp

theorem countP_isPending (fs : List Followed) : (fs.map exchange).countP Exchange.isPending =
    fs.countP (fun f => !f.isAnswered) + fs.countP endsInZero := by
  induction fs with
  | nil => rfl
  | cons f fs ih =>
    -- a request without an answer does not end in zero, so none is counted twice
    rw [List.map_cons, List.countP_cons, List.countP_cons, List.countP_cons, ih, isPending_exchange]
    cases ha : f.isAnswered with
    | false =>
      simp [endsInZero_of_not_isAnswered ha]
      omega
    | true => simp; omega

theorem map_fill (id response : String) (status : UInt16) (fs : List Followed) :
    (fill id (response, status) fs).map exchange =
      (History.answer?.fill id response status (fs.map exchange)).getD (fs.map exchange) := by
  induction fs with
  | nil => rfl
  | cons f fs ih =>
    rw [List.map_cons, fill]
    split_ifs with hid
    · rw [History.fill_cons_eq (f.id_exchange.trans hid), Option.getD_some, List.map_cons,
        exchange_answered]
    · have hne : f.exchange.id ≠ id := fun h => hid (f.id_exchange.symm.trans h)
      rw [History.getD_fill_cons_ne hne, List.map_cons, ih]

theorem map_lastly (capacity : Nat) (fs : List Followed) :
    (lastly capacity fs).map exchange = lastly capacity (fs.map exchange) := by
  rw [lastly, lastly, List.map_drop, List.length_map]

end Followed

/-- The requests that are followed make up the history, change by change. -/
theorem exchanges_follow {capacity : Nat} {h : Option History} {fs : List Followed}
    (hf : (h.getD History.empty).exchanges = fs.map Followed.exchange) (change : Change) :
    ((change.apply capacity h).getD History.empty).exchanges =
      (change.follow capacity fs).map Followed.exchange := by
  cases change with
  | configured config => exact hf
  | captured c =>
    have hone : [c.exchange] = [(⟨c, []⟩ : Followed)].map Followed.exchange := rfl
    rw [Change.follow, Followed.map_lastly, List.map_append, ← hf, ← hone]
    rfl
  | answered id response status =>
    rw [Change.follow, Followed.map_fill, ← hf]
    cases h with
    | none => rfl
    | some kept =>
      simp only [Change.apply, Option.map_some, Option.getD_some, History.answer?]
      cases History.answer?.fill id response status kept.exchanges <;> rfl
  | removed => rfl

theorem exchanges_followed (capacity : Nat) (past : List Change) :
    ((past.foldl (fun h change => change.apply capacity h) none).getD History.empty).exchanges =
      (followed capacity past).map Followed.exchange := by
  induction past using List.reverseRecOn with
  | nil => rfl
  | append_singleton past change ih =>
    rw [followed_concat, List.foldl_append]
    exact exchanges_follow ih change

theorem Followed.mem_fill {id : String} {answer : String × UInt16} {fs : List Followed}
    {f : Followed} (h : f ∈ fill id answer fs) :
    f ∈ fs ∨ ∃ held ∈ fs, held.capture.id = id ∧ f = held.answered answer := by
  induction fs with
  | nil => cases h
  | cons first fs ih =>
    rw [fill] at h
    split_ifs at h with hid
    · rcases List.mem_cons.1 h with rfl | h
      · exact .inr ⟨first, List.mem_cons_self, hid, rfl⟩
      · exact .inl (List.mem_cons_of_mem _ h)
    · rcases List.mem_cons.1 h with rfl | h
      · exact .inl List.mem_cons_self
      · rcases ih h with h | ⟨held, hm, hid, rfl⟩
        · exact .inl (List.mem_cons_of_mem _ h)
        · exact .inr ⟨held, List.mem_cons_of_mem _ hm, hid, rfl⟩

/-- What is filled in for a request came to its id. -/
theorem mem_answers_followed {capacity : Nat} {past : List Change} :
    ∀ f ∈ followed capacity past, ∀ answer ∈ f.answers,
      Change.answered f.capture.id answer.1 answer.2 ∈ past := by
  -- from the last change backwards, of which only an answer adds to what was filled in
  induction past using List.reverseRecOn with
  | nil => nofun
  | append_singleton past change ih =>
    have hpast : ∀ f ∈ followed capacity past, ∀ answer ∈ f.answers,
        Change.answered f.capture.id answer.1 answer.2 ∈ past ++ [change] := fun f hf answer ha =>
      List.mem_append_left _ (ih f hf answer ha)
    rw [followed_concat]
    cases change with
    | configured config => exact hpast
    | captured c =>
      intro f hf
      rcases List.mem_append.1 (mem_of_mem_lastly hf) with hf | hf
      · exact hpast f hf
      · rw [List.mem_singleton.1 hf]
        nofun
    | answered id response status =>
      intro f hf answer ha
      rcases Followed.mem_fill hf with hf | ⟨held, hm, hid, rfl⟩
      · exact hpast f hf answer ha
      · rcases List.mem_append.1 ha with ha | ha
        · exact hpast held hm answer ha
        · rw [List.mem_singleton.1 ha, ← hid]
          exact List.mem_append_right _ List.mem_cons_self
    | removed => nofun

theorem Change.eq_of_of?_answered {op : Operation} {reply : Reply} {id response : String}
    {status : UInt16} (h : Change.of? op reply = some (.answered id response status)) :
    ∃ runner came, op = .respond id runner came ∧ came.status = status := by
  unfold Change.of? at h
  split at h <;> cases h
  exact ⟨_, _, rfl, rfl⟩

namespace Recorder
variable (normalize : Normalizer) (capacity : Nat) (backend : String) (ops : List Operation)

def following (key : Runner) : List Followed :=
  followed capacity (changes normalize backend key ((empty normalize capacity backend).calls ops))

theorem exchanges_run (key : Runner) :
    ((((empty normalize capacity backend).run ops).roster.entries.lookup key).getD
      History.empty).exchanges =
        (following normalize capacity backend ops key).map Followed.exchange := by
  rw [lookup_run_empty]
  exact exchanges_followed capacity _

theorem pending_run (key : Runner) :
    ((((empty normalize capacity backend).run ops).roster.entries.lookup key).getD
      History.empty).pending =
        (following normalize capacity backend ops key).countP (fun f => !f.isAnswered) +
          (following normalize capacity backend ops key).countP Followed.endsInZero := by
  rw [History.pending, exchanges_run, Followed.countP_isPending]

/-- A zero is left behind only by a response that carries one. -/
theorem endsInZero_eq_false {key : Runner}
    (hops : ∀ id runner came, Operation.respond id runner came ∈ ops → came.status ≠ 0) :
    ∀ f ∈ following normalize capacity backend ops key, f.endsInZero = false := by
  intro f hf
  rw [Followed.endsInZero]
  cases hlast : f.answers.getLast? with
  | none => rfl
  | some answer =>
    have hanswer := mem_answers_followed f hf answer (List.mem_of_getLast? hlast)
    obtain ⟨⟨op, reply⟩, hcall, hchange⟩ := List.mem_filterMap.1 hanswer
    unfold Call.change? at hchange
    split at hchange
    · obtain ⟨given, -, hof⟩ := Option.bind_eq_some_iff.1 hchange
      obtain ⟨runner, came, rfl, hstatus⟩ := Change.eq_of_of?_answered hof
      have hne := hops _ runner came (List.of_mem_zip hcall).1
      rw [hstatus] at hne
      simpa using hne
    · cases hchange

/-- A response is matched exactly if a request of its id is followed under its runner. -/
theorem matched_iff {runner key : Runner} (hk : runner.normal? normalize = some key) (id : String)
    (came : Captured) :
    (((empty normalize capacity backend).run ops).respond id runner came).result = some true ↔
      ∃ f ∈ following normalize capacity backend ops key, f.capture.id = id := by
  have hkey : runner.normal? ((empty normalize capacity backend).run ops).roster.normalize =
      some key := by
    rw [(run_setup _ ops).1]
    exact hk
  have hholds : ((empty normalize capacity backend).run ops).roster.Holds key id ↔
      ∃ f ∈ following normalize capacity backend ops key, f.capture.id = id := by
    have hexchanges := exchanges_run normalize capacity backend ops key
    have hids : (∃ e ∈ (following normalize capacity backend ops key).map Followed.exchange,
        e.id = id) ↔ ∃ f ∈ following normalize capacity backend ops key, f.capture.id = id := by
      simp [Followed.id_exchange]
    rw [← hids, ← hexchanges, Roster.Holds]
    cases ((empty normalize capacity backend).run ops).roster.entries.lookup key with
    | none => simp [History.empty]
    | some h => simp
  rw [← hholds]
  by_cases hh : ((empty normalize capacity backend).run ops).roster.Holds key id
  · exact iff_of_true (respond_filled _ id came hkey hh).1 hh
  · refine iff_of_false ?_ hh
    rw [(respond_dropped _ id came hkey hh).1]
    simp

structure Counts (fs : List Followed) (runner : Runner) (line : RunnerSummary) : Prop where
  backend : line.backend = runner.backend
  mode : line.mode = runner.mode
  count : line.count = fs.length
  pending : line.pending =
    fs.countP (fun f => !f.isAnswered) + fs.countP Followed.endsInZero

/-- An overview has one line for each runner. -/
theorem counts_overview {lines : List RunnerSummary}
    (h : ((empty normalize capacity backend).run ops).overview.result = some lines) :
    ∃ shown, lines.Perm shown ∧ List.Forall₂
      (fun entry => Counts (following normalize capacity backend ops entry.1) entry.1)
      ((empty normalize capacity backend).run ops).roster.entries shown := by
  obtain ⟨shown, hshown, rfl⟩ := Option.map_eq_some_iff.1 h
  refine ⟨shown, List.mergeSort_perm _ _, ?_⟩
  have hkeys : ((empty normalize capacity backend).run ops).roster.entries.keys.Nodup :=
    run_keys _ .nil
  have hheld : ∀ entry ∈ ((empty normalize capacity backend).run ops).roster.entries,
      ((empty normalize capacity backend).run ops).roster.entries.lookup entry.1 = some entry.2 :=
    fun entry hm => Table.lookup_of_mem hkeys hm
  refine ((List.forall₂_and_left _ _).2 ⟨hheld, Json.forall₂_of_mapM_eq_some hshown⟩).imp ?_
  rintro entry line ⟨hentry, hline⟩
  have hexchanges := exchanges_run normalize capacity backend ops entry.1
  have hpending := pending_run normalize capacity backend ops entry.1
  rw [hentry, Option.getD_some] at hexchanges hpending
  obtain ⟨spelling, -, rfl⟩ := Option.map_eq_some_iff.1 hline
  refine ⟨rfl, rfl, ?_, hpending⟩
  simpa using congrArg List.length hexchanges

/-- An exchange is pending until a response is matched with it, and its runner counts it so, exactly
if the last response did not carry a status of zero. -/
theorem pending_until_answered (normalize : Normalizer) (capacity : Nat) (backend : String)
    (ops : List Operation) :
    let r := (empty normalize capacity backend).run ops
    let held := following normalize capacity backend ops
    (∀ key h, r.roster.entries.lookup key = some h →
      h.exchanges = (held key).map Followed.exchange ∧
      (∀ f ∈ held key,
        (f.exchange.isPending = true ↔ f.isAnswered = false) ↔ f.endsInZero = false) ∧
      (h.pending = (held key).countP (fun f => !f.isAnswered) ↔
        ∀ f ∈ held key, f.endsInZero = false)) ∧
    (∀ lines, r.overview.result = some lines → ∃ shown, lines.Perm shown ∧
      List.Forall₂ (fun entry => Counts (held entry.1) entry.1) r.roster.entries shown) ∧
    (∀ runner key id came, runner.normal? normalize = some key →
      ((r.respond id runner came).result = some true ↔ ∃ f ∈ held key, f.capture.id = id)) ∧
    ((∀ id runner came, Operation.respond id runner came ∈ ops → came.status ≠ 0) →
      ∀ key, ∀ f ∈ held key, f.endsInZero = false) := by
  intro r held
  refine ⟨fun key h hl => ?_, fun lines => counts_overview normalize capacity backend ops,
    fun runner key id came hk => matched_iff normalize capacity backend ops hk id came,
    fun hops key => endsInZero_eq_false normalize capacity backend ops hops⟩
  have hexchanges := exchanges_run normalize capacity backend ops key
  have hpending := pending_run normalize capacity backend ops key
  rw [hl, Option.getD_some] at hexchanges hpending
  refine ⟨hexchanges, fun f _ => f.isPending_iff, ?_⟩
  rw [hpending, Nat.add_eq_left, List.countP_eq_zero]
  simp only [Bool.not_eq_true]
  rfl

/-- Two spellings of one model, of which the second is answered under the first. -/
theorem pending_until_answered_respelled :
    (∀ id runner came, Operation.respond id runner came ∈ answered → came.status ≠ 0) ∧
    (∃ h, ((empty oneName 2 "b").run answered).roster.entries.lookup ⟨"b", "m", .completion⟩ =
        some h ∧
      h.exchanges = (following oneName 2 "b" answered ⟨"b", "m", .completion⟩).map
        Followed.exchange ∧
      h.exchanges.map Exchange.isPending = [true, false] ∧
      h.pending = (following oneName 2 "b" answered ⟨"b", "m", .completion⟩).countP
        (fun f => !f.isAnswered)) ∧
    (((empty oneName 2 "b").run answered).overview.result =
        some [⟨"b", "a_1", .completion, 2, 1⟩] ∧
      ∃ shown, [⟨"b", "a_1", .completion, 2, 1⟩].Perm shown ∧ List.Forall₂
        (fun entry => Counts (following oneName 2 "b" answered entry.1) entry.1)
        ((empty oneName 2 "b").run answered).roster.entries shown) ∧
    Runner.normal? oneName ⟨"b", "a_1", .completion⟩ = some ⟨"b", "m", .completion⟩ ∧
    (((empty oneName 2 "b").run answered).respond "a_1_1704110400000000000"
      ⟨"b", "a_1", .completion⟩ ⟨[], 500⟩).result = some true := by
  obtain ⟨hheld, hlines, hmatched, hzero⟩ := pending_until_answered oneName 2 "b" answered
  have hops : ∀ id runner came, Operation.respond id runner came ∈ answered → came.status ≠ 0 := by
    intro id runner came hm
    obtain ⟨-, -, rfl⟩ : id = "a_1704110400000000001" ∧
        runner = ⟨"b", "a_1", .completion⟩ ∧ came = ⟨[111, 107], 200⟩ := by
      simpa [answered, ask] using hm
    decide
  have hl : ((empty oneName 2 "b").run answered).roster.entries.lookup ⟨"b", "m", .completion⟩ =
      some ⟨BackendConfig.empty,
        [⟨"a_1_1704110400000000000", "a_1", "POST", "/", "hi", "", ⟨2024, 1, 1, 12, 0, 0, 0⟩, 0,
            ""⟩,
          ⟨"a_1704110400000000001", "a", "POST", "/", "hi", "ok", ⟨2024, 1, 1, 12, 0, 0, 1⟩, 200,
            ""⟩]⟩ := by decide +kernel
  have hk : Runner.normal? oneName ⟨"b", "a_1", .completion⟩ = some ⟨"b", "m", .completion⟩ := by
    decide
  obtain ⟨hexchanges, -, hcount⟩ := hheld _ _ hl
  have hoverview : ((empty oneName 2 "b").run answered).overview.result =
      some [⟨"b", "a_1", .completion, 2, 1⟩] := by decide +kernel
  obtain ⟨shown, hshown⟩ := hlines _ hoverview
  have hwaits : ∃ f ∈ following oneName 2 "b" answered ⟨"b", "m", .completion⟩,
      f.capture.id = "a_1_1704110400000000000" := by decide +kernel
  exact ⟨hops, ⟨_, hl, hexchanges, rfl, hcount.2 (hzero hops _)⟩, ⟨hoverview, shown, hshown⟩, hk,
    (hmatched _ _ _ _ hk).2 hwaits⟩

def zeroResponse : Captured :=
  ((Sink.memory ⟨none, none, [], .unable⟩).tapped.run (Tap.fresh MemorySink.empty)
    [.setStatus 0, .write [111, 107]]).2.captured

def answeredByZero : List Operation :=
  [ask "m" 0, .respond "m_1704110400000000000" ⟨"b", "m", .completion⟩ zeroResponse]

/-- The response is matched, and the exchange is pending all the same. -/
theorem pending_although_answered :
    ((empty oneName 1 "b").calls answeredByZero).map Prod.snd =
      [some (.captured "m_1704110400000000000"), some (.responded true)] ∧
    (following oneName 1 "b" answeredByZero ⟨"b", "m", .completion⟩).map Followed.answers =
      [[("ok", 0)]] ∧
    (((empty oneName 1 "b").run answeredByZero).roster.entries.lookup
      ⟨"b", "m", .completion⟩).map (fun h => h.exchanges.map Exchange.isPending) = some [true] ∧
    ((empty oneName 1 "b").run answeredByZero).overview.result =
      some [⟨"b", "m", .completion, 1, 1⟩] := by
  exact ⟨by decide +kernel, by decide +kernel, by decide +kernel, by decide +kernel⟩

end Recorder
end InferenceRecorder
