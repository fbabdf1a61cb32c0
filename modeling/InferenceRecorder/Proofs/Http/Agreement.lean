import InferenceRecorder.Proofs.Http.Records
import InferenceRecorder.Proofs.Recorder.Names
import InferenceRecorder.Proofs.Runner.Order

/-!
The overview beside the records. Whatever is called, where normal forms are their own normal forms,
the lines of the overview and the histories held tell of each other one to one, and an answer about
the records of a model says what its line says: `overview_agrees`.
-/
namespace InferenceRecorder
open Json
open Normalizer (total)

structure Tells (f : String → String) (entry : Runner × History) (line : RunnerSummary) : Prop where
  key : entry.1 = ⟨line.backend, f line.model, line.mode⟩
  count : line.count = entry.2.exchanges.length
  pending : line.pending = entry.2.pending

section OneToOne
variable {f : String → String} {entries : Table Runner History}
  {line : Runner × History → RunnerSummary}

/-- With no key repeated, a line tells of one entry only. -/
theorem Tells.entry_unique {entry other : Runner × History} {shown : RunnerSummary}
    (hn : entries.keys.Nodup) (he : entry ∈ entries) (ho : other ∈ entries)
    (h : Tells f entry shown) (h' : Tells f other shown) : entry = other :=
  List.inj_on_of_nodup_map hn he ho (h.key.trans h'.key.symm)

theorem nodup_runners (hn : entries.keys.Nodup) (ht : ∀ e ∈ entries, Tells f e (line e)) :
    ((entries.map line).map RunnerSummary.runner).Nodup := by
  rw [List.map_map]
  refine List.Nodup.map_on (fun e he e' he' heq => ?_) (List.Nodup.of_map _ hn)
  refine List.inj_on_of_nodup_map hn he he' ?_
  have hruns : (line e).runner = (line e').runner := heq
  simp only [RunnerSummary.runner, Runner.mk.injEq] at hruns
  rw [(ht e he).key, (ht e' he').key, hruns.1, hruns.2.1, hruns.2.2]

theorem existsUnique_entry (hn : entries.keys.Nodup) (ht : ∀ e ∈ entries, Tells f e (line e))
    {shown : RunnerSummary} (hs : shown ∈ entries.map line) :
    ∃! entry, entry ∈ entries ∧ Tells f entry shown := by
  obtain ⟨e, he, rfl⟩ := List.mem_map.1 hs
  exact ⟨e, ⟨he, ht e he⟩, fun other ⟨ho, h⟩ => Tells.entry_unique hn ho he h (ht e he)⟩

/-- A key that is held stands behind one line only. -/
theorem existsUnique_line_of_key (hn : entries.keys.Nodup) (ht : ∀ e ∈ entries, Tells f e (line e))
    {entry : Runner × History} (he : entry ∈ entries) : ∃! shown, shown ∈ entries.map line ∧
      entry.1 = ⟨shown.backend, f shown.model, shown.mode⟩ := by
  refine ⟨line entry, ⟨List.mem_map_of_mem he, (ht entry he).key⟩, ?_⟩
  rintro _ ⟨hs, hkey⟩
  obtain ⟨e, hm, rfl⟩ := List.mem_map.1 hs
  rw [List.inj_on_of_nodup_map hn he hm (hkey.trans (ht e hm).key.symm)]

theorem existsUnique_line (hn : entries.keys.Nodup) (ht : ∀ e ∈ entries, Tells f e (line e))
    {entry : Runner × History} (he : entry ∈ entries) :
    ∃! shown, shown ∈ entries.map line ∧ Tells f entry shown := by
  refine ⟨line entry, ⟨List.mem_map_of_mem he, ht entry he⟩, fun shown ⟨hs, h⟩ => ?_⟩
  exact (existsUnique_line_of_key hn ht he).unique ⟨hs, h.key⟩
    ⟨List.mem_map_of_mem he, (ht entry he).key⟩

end OneToOne

theorem Recorder.tells_line (f : String → String) (hf : ∀ name, f (f name) = f name)
    (capacity : Nat) (backend : String) (ops : List Operation) :
    let r := (empty (total f) capacity backend).run ops
    ∀ entry ∈ r.roster.entries, Tells f entry (line f r.roster entry) := by
  rintro r ⟨key, h⟩ hm
  obtain ⟨name, -, hname, hmodel⟩ := exists_maker_of_line f capacity backend hf ops hm
  refine ⟨?_, rfl, rfl⟩
  rw [hmodel, hname]
  rfl

namespace Http

inductive ModelTarget (model : String) : String → Prop
  | mk {query : List Char} : QueryForm query [("model", model)] → query.all isQueryChar = true →
    Utf8.size ("/requests?" ++ String.ofList query) ≤ longestUri →
    ModelTarget model ("/requests?" ++ String.ofList query)

/-- The answer tells of as many records as the line, and of as many without a response. -/
def AnswersFor (r : Recorder) (request : Request) (line : RunnerSummary) : Prop :=
  ∃ response body, (answer r request).result = some response ∧ response.status = 200 ∧
    RecordsBody.read? response.body = some body ∧ body.count = line.count ∧
    body.records.countP (fun e => e.status == 0) = line.pending

theorem modelTarget_modelQuery {name : String}
    (h : Utf8.size ("/requests?" ++ String.ofList (modelQuery name)) ≤ longestUri) :
    ModelTarget name ("/requests?" ++ String.ofList (modelQuery name)) :=
  .mk (queryForm_modelQuery name) (isQueryChar_modelQuery name) h

theorem ModelTarget.isSome_request {model target : String} (h : ModelTarget model target) :
    (Request.of? "GET" target []).isSome = true := by
  obtain ⟨hq, hall, hsize⟩ := h
  rw [Request.of?, if_neg (by decide), read?_asking hq.sharp_not_mem, if_pos ⟨hsize, hall⟩]
  rfl

theorem ModelTarget.asks {model target : String} (h : ModelTarget model target)
    (hm : model ≠ "") {headers : List (String × List UInt8)} {request : Request}
    (hr : Request.of? "GET" target headers = some request) :
    request.method = "GET" ∧ request.uri.path = "/requests" ∧
      askedModel? request.uri.query = some model := by
  obtain ⟨hq, -, -⟩ := h
  obtain ⟨hmethod, hpath, hasks⟩ := (RecordsTarget.asking hq).asks hr
  refine ⟨hmethod, hpath, hasks.trans ?_⟩
  simp [hm]

section Agreement
variable {f : String → String} {capacity : Nat} {backend : String} {ops : List Operation}

/-- The name that is asked for is looked up in its normal form. -/
theorem result_answer {request : Request} {model : String} (hmethod : request.method = "GET")
    (hpath : request.uri.path = "/requests") (hasked : askedModel? request.uri.query = some model) :
    let r := (Recorder.empty (total f) capacity backend).run ops
    (answer r request).result = some
      ((r.roster.entries.lookup ⟨backend, f model, .completion⟩).elim (recordsMissing model)
        fun h => jsonResponse (recordsDocument model h)) := by
  intro r
  obtain ⟨hn, -, hb⟩ := Recorder.run_setup (Recorder.empty (total f) capacity backend) ops
  have hb : r.backend = backend := hb
  rw [answer_records hmethod hpath, answerRecords_total hn hasked, hb]
  cases r.roster.entries.lookup ⟨backend, f model, .completion⟩ <;> rfl

/-- An answer about the model of a line says what the line says. -/
theorem answersFor_line (hops : ∀ op ∈ ops, op.Valid) {request : Request} {line : RunnerSummary}
    {entry : Runner × History} (hbackend : line.backend = backend) (hmode : line.mode = .completion)
    (he : entry ∈ ((Recorder.empty (total f) capacity backend).run ops).roster.entries)
    (ht : Tells f entry line) (hmethod : request.method = "GET")
    (hpath : request.uri.path = "/requests")
    (hasked : askedModel? request.uri.query = some line.model) :
    AnswersFor ((Recorder.empty (total f) capacity backend).run ops) request line := by
  obtain ⟨key, h⟩ := entry
  have hkeys : ((Recorder.empty (total f) capacity backend).run ops).roster.entries.keys.Nodup :=
    Recorder.run_keys _ .nil
  have hkey : key = ⟨backend, f line.model, .completion⟩ := by
    rw [← hbackend, ← hmode]
    exact ht.key
  have hl := Table.lookup_of_mem hkeys he
  rw [hkey] at hl
  refine ⟨jsonResponse (recordsDocument line.model h), _, ?_, rfl,
    read?_held f capacity backend hops hl line.model, ht.count.symm, ht.pending.symm⟩
  rw [result_answer hmethod hpath hasked, hl]
  rfl

/-- Only what is held is told of. -/
theorem exists_held_of_ok {request : Request} {response : Response}
    (hmethod : request.method = "GET") (hpath : request.uri.path = "/requests")
    (hresult : (answer ((Recorder.empty (total f) capacity backend).run ops) request).result =
      some response) (hok : response.status = 200) :
    ∃ model h, askedModel? request.uri.query = some model ∧
      (⟨backend, f model, .completion⟩, h) ∈
        ((Recorder.empty (total f) capacity backend).run ops).roster.entries := by
  cases hasked : askedModel? request.uri.query with
  | none =>
    rw [answer_records hmethod hpath, answerRecords, hasked] at hresult
    cases hresult
    cases hok
  | some model =>
    rw [result_answer hmethod hpath hasked] at hresult
    cases hl : ((Recorder.empty (total f) capacity backend).run ops).roster.entries.lookup
      ⟨backend, f model, .completion⟩ with
    | none =>
      rw [hl] at hresult
      cases hresult
      cases hok
    | some h => exact ⟨model, h, rfl, Table.mem_of_lookup hl⟩

/-- The overview is sorted without repetition and tells of each history in one line. Whoever asks
for the records of a line's model gets as many as it says, and whoever gets records has asked for
the model of one line. -/
theorem overview_agrees (hf : ∀ name, f (f name) = f name) (capacity : Nat) (backend : String)
    (hops : ∀ op ∈ ops, op.Valid) :
    let r := (Recorder.empty (total f) capacity backend).run ops
    ∃ lines, r.overview.result = some lines ∧
      lines.Pairwise (fun a b => a.runner.before b.runner = true) ∧
      (∀ line ∈ lines, ∃! entry, entry ∈ r.roster.entries ∧ Tells f entry line) ∧
      (∀ entry ∈ r.roster.entries, ∃! line, line ∈ lines ∧ Tells f entry line) ∧
      (∀ line ∈ lines, line.backend = backend → line.mode = .completion → line.model ≠ "" →
        ∀ target, ModelTarget line.model target → (Request.of? "GET" target []).isSome = true ∧
          ∀ headers request, Request.of? "GET" target headers = some request →
            AnswersFor r request line) ∧
      ∀ request response, request.method = "GET" → request.uri.path = "/requests" →
        (answer r request).result = some response → response.status = 200 →
        ∃ model, askedModel? request.uri.query = some model ∧
          ∃! line, line ∈ lines ∧ line.backend = backend ∧ line.mode = .completion ∧
            f line.model = f model := by
  intro r
  have hkeys : r.roster.entries.keys.Nodup := Recorder.run_keys _ .nil
  have htells := Recorder.tells_line f hf capacity backend ops
  have hmem : ∀ line, line ∈ (r.roster.entries.map (Recorder.line f r.roster)).mergeSort
      Recorder.summaryNotAfter ↔ line ∈ r.roster.entries.map (Recorder.line f r.roster) :=
    fun line => (List.mergeSort_perm _ _).mem_iff
  refine ⟨_, Recorder.overview_total f (Recorder.run_setup _ ops).1,
    Recorder.pairwise_before (nodup_runners hkeys htells), ?_, ?_, ?_, ?_⟩
  · intro line hline
    exact existsUnique_entry hkeys htells ((hmem line).1 hline)
  · intro entry he
    simp only [hmem]
    exact existsUnique_line hkeys htells he
  · intro line hline hbackend hmode hnamed target htarget
    obtain ⟨entry, ⟨he, ht⟩, -⟩ := existsUnique_entry hkeys htells ((hmem line).1 hline)
    refine ⟨htarget.isSome_request, fun headers request hr => ?_⟩
    obtain ⟨hmethod, hpath, hasked⟩ := htarget.asks hnamed hr
    exact answersFor_line hops hbackend hmode he ht hmethod hpath hasked
  · intro request response hmethod hpath hresult hok
    obtain ⟨model, h, hasked, he⟩ := exists_held_of_ok hmethod hpath hresult hok
    refine ⟨model, hasked, ?_⟩
    -- another line in a spelling of this model would tell of the same entry
    refine (existsUnique_congr fun line => ?_).1 (existsUnique_line_of_key hkeys htells he)
    rw [hmem, Runner.mk.injEq, eq_comm (a := backend), eq_comm (a := f model),
      eq_comm (a := Mode.completion), and_comm (a := f line.model = f model)]

end Agreement

def escapedSession : List Operation :=
  quotedSession ++ [.capture ⟨"b", "é &", .completion⟩ ⟨"GET", "/", ""⟩ [] ⟨0, 1, 1, 0, 0, 0, 0⟩]

def escapedLine : RunnerSummary := ⟨"b", "é &", .completion, 1, 1⟩

theorem overview_agrees_escaped :
    (∀ name, small (small name) = small name) ∧ (∀ op ∈ escapedSession, op.Valid) ∧
    let r := (Recorder.empty (total small) 1 "b").run escapedSession
    r.overview.result = some [⟨"b", "M", .completion, 1, 1⟩, escapedLine] ∧
      ∃ request, Request.of? "GET" "/requests?model=%C3%A9+%26" [] = some request ∧
        AnswersFor r request escapedLine := by
  have hsmall : ∀ name, small (small name) = small name := by
    intro name
    by_cases hname : name = "M"
    · subst hname
      decide
    · simp [small, hname]
  have hops : ∀ op ∈ escapedSession, op.Valid := by
    have htime : Instant.isValid ⟨0, 1, 1, 0, 0, 0, 0⟩ = true := by decide
    exact List.forall_mem_append.2 ⟨valid_quotedSession, List.forall_mem_singleton.2 htime⟩
  have hoverview : ((Recorder.empty (total small) 1 "b").run escapedSession).overview.result =
      some [⟨"b", "M", .completion, 1, 1⟩, escapedLine] := by
    rw [Recorder.overview_total small (Recorder.run_setup _ _).1]
    have hlines : ((Recorder.empty (total small) 1 "b").run escapedSession).roster.entries.map
        (Recorder.line small ((Recorder.empty (total small) 1 "b").run escapedSession).roster) =
          [⟨"b", "M", .completion, 1, 1⟩, escapedLine] := by decide +kernel
    rw [hlines, List.mergeSort_of_pairwise (by decide +kernel)]
  have htarget : ModelTarget escapedLine.model "/requests?model=%C3%A9+%26" :=
    @modelTarget_modelQuery "é &" (by decide +kernel)
  refine ⟨hsmall, hops, hoverview, ?_⟩
  obtain ⟨lines, hlines, -, -, -, hanswers, -⟩ := overview_agrees hsmall 1 "b" hops
  obtain rfl := Option.some.inj (hoverview.symm.trans hlines)
  obtain ⟨htaken, hall⟩ := hanswers escapedLine (by simp) rfl rfl (by decide) _ htarget
  obtain ⟨request, hrequest⟩ := Option.isSome_iff_exists.1 htaken
  exact ⟨request, hrequest, hall [] request hrequest⟩

end Http
end InferenceRecorder
