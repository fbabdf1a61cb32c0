import InferenceRecorder.Proofs.Recorder.Identity
import InferenceRecorder.Proofs.Recorder.Window

/-!
Responses and their requests. As long as no model is captured twice at one reading of the clock,
each exchange that is held carries the last response that came for its own request, and no other.
-/
namespace InferenceRecorder
open History (lastly)

def Capture.call (c : Capture) : Operation := .capture c.runner c.request c.body c.time

def Call.capture? : Call → Option Capture
  | (.capture runner request body time, some _) => some ⟨runner, request, body, time⟩
  | _ => none

def Call.id? (call : Call) : Option String :=
  match call.2 with
  | some (.captured id) => some id
  | _ => none

def Change.answer? (id : String) : Change → Option (String × UInt16)
  | .answered other response status => if other = id then some (response, status) else none
  | _ => none

/-- Response and status of an exchange of this id after these changes, from a capture on. -/
def lastAnswer (id : String) (past : List Change) : String × UInt16 :=
  (past.filterMap (Change.answer? id)).getLast?.getD ("", 0)

def Roster.Holds (roster : Roster History) (key : Runner) (id : String) : Prop :=
  ∃ h, roster.entries.lookup key = some h ∧ ∃ e ∈ h.exchanges, e.id = id

def Roster.Filled (roster roster' : Roster History) (key : Runner) (id response : String)
    (status : UInt16) : Prop :=
  ∃ h u e v, roster.entries.lookup key = some h ∧ h.exchanges = u ++ e :: v ∧ e.id = id ∧
    roster' = { roster with
      entries := roster.entries.put key
        { h with exchanges := u ++ { e with response := response, status := status } :: v } }

def Captured.counts (captured : Captured) : List Count :=
  let body := Utf8.decodeLossy captured.body
  if Stream.dataMarker <:+: body.toList then
    [.streamReconstructed (Stream.reconstruct body).outcome]
  else []

theorem Captured.reading_counts (captured : Captured) : captured.reading.2 = captured.counts := by
  rw [reading_eq, counts]
  dsimp only
  split_ifs <;> rfl

theorem lastAnswer_concat (id : String) (past : List Change) (change : Change) :
    lastAnswer id (past ++ [change]) = (change.answer? id).getD (lastAnswer id past) := by
  cases hc : change.answer? id <;> simp [lastAnswer, hc]

/-- The exchange was begun by a capture among the changes, and carries the last answer since. -/
def AnsweredIn (past : List Change) (e : Exchange) : Prop :=
  ∃ u c v, past = u ++ Change.captured c :: v ∧ c.Began e ∧
    (e.response, e.status) = lastAnswer e.id v

theorem AnsweredIn.concat {past : List Change} {e : Exchange} (h : AnsweredIn past e)
    {change : Change} (hc : change.answer? e.id = none) : AnsweredIn (past ++ [change]) e := by
  obtain ⟨u, c, v, rfl, hb, ha⟩ := h
  refine ⟨u, c, v ++ [change], by simp, hb, ?_⟩
  rw [lastAnswer_concat, hc, Option.getD_none, ha]

theorem AnsweredIn.answered {past : List Change} {e : Exchange} (h : AnsweredIn past e)
    (response : String) (status : UInt16) :
    AnsweredIn (past ++ [.answered e.id response status])
      { e with response := response, status := status } := by
  obtain ⟨u, c, v, rfl, hb, -⟩ := h
  refine ⟨u, c, v ++ [.answered e.id response status], by simp, hb.answered response status, ?_⟩
  simp [lastAnswer_concat, Change.answer?]

theorem mem_of_mem_lastly {α : Type} {n : Nat} {xs : List α} {x : α} (h : x ∈ lastly n xs) :
    x ∈ xs := List.mem_of_mem_drop h

theorem captures_sinceRemoval_sublist (past : List Change) :
    (captures (sinceRemoval past)).Sublist (captures past) :=
  (List.rtakeWhile_suffix _ _).sublist.filterMap _

/-- What is held has ids of its own if the captured requests have. -/
theorem Window.nodup_ids {capacity : Nat} {past : List Change} {h : History}
    (w : Window capacity past (some h)) (hn : ((captures past).map Capture.id).Nodup) :
    (h.exchanges.map Exchange.id).Nodup := by
  have he : ∀ {cs : List Capture} {es : List Exchange}, List.Forall₂ Capture.Began cs es →
      es.map Exchange.id = cs.map Capture.id := by
    intro cs es hb
    induction hb with
    | nil => rfl
    | cons hd _ ih => rw [List.map_cons, List.map_cons, hd.id, ih, Capture.id]
  have hs : (lastly capacity (captures (sinceRemoval past))).Sublist (captures past) :=
    (List.drop_sublist _ _).trans (captures_sinceRemoval_sublist past)
  rw [← Option.getD_some (a := h) (b := History.empty), he w.exchanges]
  exact hn.sublist (hs.map _)

theorem answeredIn_answer? {past : List Change} {kept filled : History} {id response : String}
    {status : UInt16} (hn : (kept.exchanges.map Exchange.id).Nodup)
    (ih : ∀ e ∈ kept.exchanges, AnsweredIn past e)
    (ha : kept.answer? id response status = some filled) :
    ∀ e ∈ filled.exchanges, AnsweredIn (past ++ [.answered id response status]) e := by
  obtain ⟨u, x, v, hx, rfl, hu, rfl⟩ := History.answer?_eq_some ha
  -- the answer goes to the first exchange of the id; that there is no second one is `hn`
  have hv : ∀ e ∈ v, e.id ≠ x.id := by
    rw [hx, List.map_append, List.map_cons, List.nodup_append] at hn
    intro e he heq
    have hm := List.mem_map_of_mem (f := Exchange.id) he
    rw [heq] at hm
    exact (List.nodup_cons.1 hn.2.1).1 hm
  have hother : ∀ e ∈ kept.exchanges, e.id ≠ x.id →
      AnsweredIn (past ++ [.answered x.id response status]) e := by
    intro e he hne
    exact (ih e he).concat (by simp [Change.answer?, hne.symm])
  intro e he
  rcases List.mem_append.1 he with hm | hm
  · exact hother e (by simp [hx, hm]) (hu e hm)
  · rcases List.mem_cons.1 hm with rfl | hm
    · exact (ih x (by simp [hx])).answered response status
    · exact hother e (by simp [hx, hm]) (hv e hm)

theorem answeredIn_apply {capacity : Nat} {past : List Change} {h : Option History}
    (hn : ∀ kept, h = some kept → (kept.exchanges.map Exchange.id).Nodup)
    (ih : ∀ e ∈ (h.getD History.empty).exchanges, AnsweredIn past e) (change : Change) :
    ∀ e ∈ ((change.apply capacity h).getD History.empty).exchanges,
      AnsweredIn (past ++ [change]) e := by
  cases change with
  | removed => simp [Change.apply, History.empty]
  | configured config => exact fun e he => (ih e he).concat rfl
  | captured c =>
    intro e he
    rcases List.mem_append.1 (mem_of_mem_lastly he) with he | he
    · exact (ih e he).concat rfl
    · rw [List.mem_singleton.1 he]
      exact ⟨past, c, [], rfl, c.began_exchange, rfl⟩
  | answered id response status =>
    cases h with
    | none => simp [Change.apply, History.empty]
    | some kept =>
      simp only [Change.apply, Option.map_some, Option.getD_some] at ih ⊢
      cases ha : kept.answer? id response status with
      | none =>
        intro e he
        have hid := History.answer?_eq_none_iff.1 ha e he
        exact (ih e he).concat (by simp [Change.answer?, hid.symm])
      | some filled => exact answeredIn_answer? (hn kept rfl) ih ha

/-- Each exchange that the changes leave behind carries the last answer since its capture. -/
theorem answeredIn_changes (capacity : Nat) {past : List Change}
    (hn : ((captures past).map Capture.id).Nodup) :
    ∀ e ∈ ((past.foldl (fun h change => change.apply capacity h) none).getD
      History.empty).exchanges, AnsweredIn past e := by
  induction past using List.reverseRecOn with
  | nil => simp [History.empty]
  | append_singleton past change ih =>
    have hp : ((captures past).map Capture.id).Nodup := by
      rw [captures_concat, List.map_append] at hn
      exact (List.nodup_append.1 hn).1
    rw [List.foldl_append]
    refine answeredIn_apply (fun kept hk => ?_) (ih hp) change
    have w := window_changes capacity past
    rw [hk] at w
    exact w.nodup_ids hp

theorem Change.eq_of_of?_captured {op : Operation} {reply : Reply} {c : Capture}
    (h : Change.of? op reply = some (.captured c)) : op = c.call ∧ ∃ id, reply = .captured id := by
  unfold Change.of? at h
  split at h <;> cases h
  exact ⟨rfl, _, rfl⟩

/-- Only a capture that went through changes a history as a capture. -/
theorem Call.eq_of_change?_captured {normalize : Normalizer} {backend : String} {key : Runner}
    {call : Call} {c : Capture} (h : call.change? normalize backend key = some (.captured c)) :
    c.runner.normal? normalize = some key ∧ call.capture? = some c ∧
      ∃ reply, call = (c.call, some reply) := by
  obtain ⟨op, reply⟩ := call
  unfold Call.change? at h
  split at h
  next hk =>
    obtain ⟨reply, rfl, ho⟩ := Option.bind_eq_some_iff.1 h
    obtain ⟨rfl, id, rfl⟩ := Change.eq_of_of?_captured ho
    exact ⟨hk, rfl, _, rfl⟩
  next => cases h

theorem captures_changes_sublist (normalize : Normalizer) (backend : String) (key : Runner)
    (calls : List Call) : (captures (changes normalize backend key calls)).Sublist
      (calls.filterMap Call.capture?) := by
  induction calls with
  | nil => exact .slnil
  | cons call calls ih =>
    unfold captures changes at ih ⊢
    cases hc : call.change? normalize backend key with
    | none =>
      rw [List.filterMap_cons_none hc]
      exact ih.trans ((List.sublist_cons_self call calls).filterMap _)
    | some change =>
      rw [List.filterMap_cons_some hc]
      cases hx : change.capture? with
      | none =>
        rw [List.filterMap_cons_none hx]
        exact ih.trans ((List.sublist_cons_self call calls).filterMap _)
      | some c =>
        cases change <;> cases hx
        obtain ⟨-, hcall, -⟩ := Call.eq_of_change?_captured hc
        rw [List.filterMap_cons_some hcall]
        exact ih.cons_cons c

/-- What is true of the changes to a history, told of the calls. -/
theorem AnsweredIn.exists_call {normalize : Normalizer} {backend : String} {key : Runner}
    {calls : List Call} {e : Exchange} (h : AnsweredIn (changes normalize backend key calls) e) :
    ∃ (before : List Call) (c : Capture) (reply : Reply) (after : List Call),
      calls = before ++ (c.call, some reply) :: after ∧
      c.runner.normal? normalize = some key ∧ c.Began e ∧
      (e.response, e.status) = lastAnswer e.id (changes normalize backend key after) := by
  obtain ⟨u, c, v, hcalls, hb, ha⟩ := h
  obtain ⟨before, rest, rfl, -, hr⟩ := List.filterMap_eq_append_iff.1 hcalls
  obtain ⟨between, call, after, rfl, -, hc, rfl⟩ := List.filterMap_eq_cons_iff.1 hr
  obtain ⟨hk, -, reply, rfl⟩ := Call.eq_of_change?_captured hc
  exact ⟨before ++ between, c, reply, after, by simp, hk, hb, ha⟩

/-- Only a capture hands out an id. -/
theorem Call.id?_map_eq_none {α : Type} {f : α → Reply} (hf : ∀ x id, f x ≠ .captured id)
    (op : Operation) (result : Option α) : Call.id? (op, result.map f) = none := by
  cases result with
  | none => rfl
  | some x =>
    rw [Option.map_some]
    cases hx : f x with
    | captured id => exact absurd hx (hf x id)
    | _ => rfl

namespace Recorder

theorem id?_step (r : Recorder) (op : Operation) :
    Call.id? (op, (r.step op).result) =
      (Call.capture? (op, (r.step op).result)).map Capture.id := by
  cases op with
  | capture runner request body time =>
    simp only [step, Report.map, capture, failedLocked]
    split <;> rfl
  | configure runner config => exact Call.id?_map_eq_none (fun _ _ h => by cases h) _ _
  | respond id runner came => exact Call.id?_map_eq_none (fun _ _ h => by cases h) _ _
  | query model => exact Call.id?_map_eq_none (fun _ _ h => by cases h) _ _
  | remove model => exact Call.id?_map_eq_none (fun _ _ h => by cases h) _ _
  | overview => exact Call.id?_map_eq_none (fun _ _ h => by cases h) _ _

theorem id?_of_mem_calls (r : Recorder) (ops : List Operation) :
    ∀ call ∈ r.calls ops, call.id? = call.capture?.map Capture.id := by
  induction ops generalizing r with
  | nil => exact List.forall_mem_nil _
  | cons op ops ih =>
    rw [calls_cons]
    exact List.forall_mem_cons.2 ⟨r.id?_step op, ih _⟩

theorem ids_calls (r : Recorder) (ops : List Operation) :
    (r.calls ops).filterMap Call.id? =
      ((r.calls ops).filterMap Call.capture?).map Capture.id := by
  rw [List.map_filterMap]
  exact List.filterMap_congr (r.id?_of_mem_calls ops)

/-- The reply to a capture that went through is the id of its exchange. -/
theorem reply_of_mem_calls {r : Recorder} {ops : List Operation} {c : Capture} {reply : Reply}
    (h : (c.call, some reply) ∈ r.calls ops) : reply = .captured c.id := by
  have hid : Call.id? (c.call, some reply) = some c.id := r.id?_of_mem_calls ops _ h
  unfold Call.id? at hid
  split at hid
  next hreply =>
    cases hid
    exact Option.some.inj hreply
  next => cases hid

theorem answer?_none_of_not_holds {roster : Roster History} {key : Runner} {id response : String}
    {status : UInt16} :
    (roster.entries.lookup key).bind (History.answer? id response status) = none ↔
      ¬roster.Holds key id := by
  cases hl : roster.entries.lookup key with
  | none => simp [Roster.Holds, hl]
  | some h => simp [Roster.Holds, hl, History.answer?_eq_none_iff]

theorem respond_dropped (r : Recorder) (id : String) {runner key : Runner} (came : Captured)
    (hk : runner.normal? r.roster.normalize = some key) (hh : ¬r.roster.Holds key id) :
    (r.respond id runner came).result = some false ∧
      (r.respond id runner came).counts =
        came.counts ++ [.responseRecorded runner.backend runner.mode false] ∧
      (r.respond id runner came).recorder.roster = r.roster := by
  obtain ⟨hn, -⟩ | ⟨own, ho, ⟨-, notice, -, hr⟩ | ⟨h', ha, -⟩⟩ := r.respond_cases id runner came
  · rw [hk] at hn
    cases hn
  · rw [hr r.poisoned, came.reading_counts]
    exact ⟨rfl, rfl, rfl⟩
  · rw [hk, Option.some.injEq] at ho
    subst ho
    rw [answer?_none_of_not_holds.2 hh] at ha
    cases ha

theorem respond_filled (r : Recorder) (id : String) {runner key : Runner} (came : Captured)
    (hk : runner.normal? r.roster.normalize = some key) (hh : r.roster.Holds key id) :
    (r.respond id runner came).result = some true ∧
      (r.respond id runner came).counts =
        came.counts ++ [.responseRecorded runner.backend runner.mode true] ∧
      r.roster.Filled (r.respond id runner came).recorder.roster key id came.response
        came.status := by
  obtain ⟨hn, -⟩ | ⟨own, ho, hcases⟩ := r.respond_cases id runner came
  · rw [hk] at hn
    cases hn
  · rw [hk, Option.some.injEq] at ho
    subst ho
    obtain ⟨ha, -⟩ | ⟨h', ha, hr⟩ := hcases
    · exact absurd hh (answer?_none_of_not_holds.1 ha)
    · obtain ⟨h, hl, hh⟩ := Option.bind_eq_some_iff.1 ha
      obtain ⟨u, e, v, he, hi, -, rfl⟩ := History.answer?_eq_some hh
      rw [hr r.poisoned, came.reading_counts]
      exact ⟨rfl, rfl, h, u, e, v, hl, he, hi, rfl⟩

/-- A response is counted as matched when one exchange was filled, and else as dropped. -/
theorem respond_counts (r : Recorder) (id : String) {runner key : Runner} (came : Captured)
    (hk : runner.normal? r.roster.normalize = some key) :
    ∃ filled, (r.respond id runner came).result = some filled ∧
      (r.respond id runner came).counts =
        came.counts ++ [.responseRecorded runner.backend runner.mode filled] ∧
      (filled = true ↔ r.roster.Filled (r.respond id runner came).recorder.roster key id
        came.response came.status) ∧
      (¬r.roster.Holds key id →
        filled = false ∧ (r.respond id runner came).recorder.roster = r.roster) := by
  by_cases hh : r.roster.Holds key id
  · obtain ⟨hr, hc, hf⟩ := r.respond_filled id came hk hh
    exact ⟨true, hr, hc, ⟨fun _ => hf, fun _ => rfl⟩, fun hn => absurd hh hn⟩
  · obtain ⟨hr, hc, hs⟩ := r.respond_dropped id came hk hh
    refine ⟨false, hr, hc, ⟨fun h => (Bool.false_ne_true h).elim, ?_⟩, fun _ => ⟨rfl, hs⟩⟩
    -- what is filled was held
    rintro ⟨h, u, e, v, hl, he, hi, -⟩
    exact absurd ⟨h, hl, e, by simp [he], hi⟩ hh

variable (normalize : Normalizer) (capacity : Nat) (backend : String) (ops : List Operation)

theorem answeredIn_run
    (hclock : (((Recorder.empty normalize capacity backend).calls ops).filterMap
      Call.capture?).map Capture.mark |>.Nodup)
    {key : Runner} {h : History}
    (hl : ((Recorder.empty normalize capacity backend).run ops).roster.entries.lookup key =
      some h) :
    ∀ e ∈ h.exchanges, AnsweredIn (changes normalize backend key
      ((Recorder.empty normalize capacity backend).calls ops)) e := by
  rw [lookup_run_empty] at hl
  have hn := (Capture.nodup_ids hclock).sublist
    ((captures_changes_sublist normalize backend key _).map Capture.id)
  have ha := answeredIn_changes capacity hn
  rw [hl] at ha
  exact ha

/-- Responses reach their own requests and no others. The id that a capture handed out is the one
that the exchange is held under. -/
theorem responses_reach_requests
    (hclock : ((((Recorder.empty normalize capacity backend).calls ops).filterMap
      Call.capture?).map Capture.mark).Nodup) :
    (((Recorder.empty normalize capacity backend).calls ops).filterMap Call.id?).Nodup ∧
    (∀ key h, ((Recorder.empty normalize capacity backend).run ops).roster.entries.lookup key =
        some h → ∀ e ∈ h.exchanges, ∃ before c after,
      (Recorder.empty normalize capacity backend).calls ops =
        before ++ (Capture.call c, some (.captured e.id)) :: after ∧
      c.runner.normal? normalize = some key ∧ c.Began e ∧
      (e.response, e.status) = lastAnswer e.id (changes normalize backend key after)) ∧
    ∀ id runner key came, runner.normal? normalize = some key →
      let r := (Recorder.empty normalize capacity backend).run ops
      ∃ filled, (r.respond id runner came).result = some filled ∧
        (r.respond id runner came).counts =
          came.counts ++ [.responseRecorded runner.backend runner.mode filled] ∧
        (filled = true ↔ r.roster.Filled (r.respond id runner came).recorder.roster key id
          came.response came.status) ∧
        (¬r.roster.Holds key id →
          filled = false ∧ (r.respond id runner came).recorder.roster = r.roster) := by
  refine ⟨?_, fun key h hl e he => ?_, fun id runner key came hk => ?_⟩
  · rw [ids_calls]
    exact Capture.nodup_ids hclock
  · obtain ⟨before, c, reply, after, hcalls, hk, hb, ha⟩ :=
      (answeredIn_run normalize capacity backend ops hclock hl e he).exists_call
    have hmem : (c.call, some reply) ∈ (Recorder.empty normalize capacity backend).calls ops := by
      rw [hcalls]
      exact List.mem_append_right before List.mem_cons_self
    have hid : e.id = c.id := hb.id
    rw [reply_of_mem_calls hmem, ← hid] at hcalls
    exact ⟨before, c, after, hcalls, hk, hb, ha⟩
  · refine respond_counts _ id came ?_
    rw [(run_setup _ ops).1]
    exact hk

def answered : List Operation :=
  [ask "a_1" 0, ask "a" 1,
    .respond "a_1704110400000000001" ⟨"b", "a_1", .completion⟩ ⟨[111, 107], 200⟩]

def answeredExchange : Exchange :=
  ⟨"a_1704110400000000001", "a", "POST", "/", "hi", "ok", ⟨2024, 1, 1, 12, 0, 0, 1⟩, 200, ""⟩

theorem responses_reach_requests_respelled :
    ((((Recorder.empty oneName 2 "b").calls answered).filterMap
      Call.capture?).map Capture.mark).Nodup ∧
    (((Recorder.empty oneName 2 "b").calls answered).filterMap Call.id?).Nodup ∧
    (∃ h e, ((Recorder.empty oneName 2 "b").run answered).roster.entries.lookup
        ⟨"b", "m", .completion⟩ = some h ∧ e ∈ h.exchanges ∧ (e.response, e.status) = ("ok", 200) ∧
      ∃ before c after, (Recorder.empty oneName 2 "b").calls answered =
        before ++ (Capture.call c, some (.captured e.id)) :: after ∧
      c.runner.normal? oneName = some ⟨"b", "m", .completion⟩ ∧ c.Began e ∧
      (e.response, e.status) =
        lastAnswer e.id (changes oneName "b" ⟨"b", "m", .completion⟩ after)) ∧
    Runner.normal? oneName ⟨"b", "a", .embedding⟩ = some ⟨"b", "m", .embedding⟩ ∧
    ∃ filled, (((Recorder.empty oneName 2 "b").run answered).respond "a_1704110400000000001"
      ⟨"b", "a", .embedding⟩ ⟨[], 500⟩).result = some filled := by
  have hclock : ((((Recorder.empty oneName 2 "b").calls answered).filterMap
      Call.capture?).map Capture.mark).Nodup := by decide +kernel
  obtain ⟨hids, hheld, hrespond⟩ := responses_reach_requests oneName 2 "b" answered hclock
  have hother : Runner.normal? oneName ⟨"b", "a", .embedding⟩ = some ⟨"b", "m", .embedding⟩ := by
    decide
  obtain ⟨filled, hfilled, -⟩ := hrespond "a_1704110400000000001" _ _ ⟨[], 500⟩ hother
  have hl : ((Recorder.empty oneName 2 "b").run answered).roster.entries.lookup
      ⟨"b", "m", .completion⟩ = some ⟨BackendConfig.empty,
        [⟨"a_1_1704110400000000000", "a_1", "POST", "/", "hi", "", ⟨2024, 1, 1, 12, 0, 0, 0⟩, 0,
          ""⟩, answeredExchange]⟩ := by decide +kernel
  have hcall := hheld _ _ hl answeredExchange (.tail _ (.head _))
  exact ⟨hclock, hids, ⟨_, answeredExchange, hl, .tail _ (.head _), rfl, hcall⟩, hother, filled,
    hfilled⟩

end Recorder
end InferenceRecorder
