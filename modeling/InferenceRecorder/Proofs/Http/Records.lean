import InferenceRecorder.Http.Router
import InferenceRecorder.Proofs.Http.Form
import InferenceRecorder.Proofs.Recorder.Contents
import InferenceRecorder.Proofs.Recorder.Window

/-!
The records of one model, asked for over the network. However the name is written into the query and
whatever the exchanges hold, the answer tells what is held for the model: `records_answered`.
-/
namespace InferenceRecorder

open Json
open Normalizer (total)

namespace Http

inductive RecordsTarget : String → List (String × String) → Prop
  | bare : RecordsTarget "/requests" []
  | asking {query : List Char} {pairs : List (String × String)} : QueryForm query pairs →
    RecordsTarget ("/requests?" ++ String.ofList query) pairs

/-- Path and query of a target that asks for records. -/
theorem pathAndQuery?_records {query : List Char} (h : '#' ∉ query) :
    pathAndQuery? ("/requests".toList ++ '?' :: query) =
      if query.all isQueryChar then some ("/requests".toList, some query) else none := by
  have hsharp : ("/requests".toList ++ '?' :: query).takeWhile (· != '#') =
      "/requests".toList ++ '?' :: query := by
    rw [List.takeWhile_eq_self_iff]
    intro c hc
    rw [bne_iff_ne]
    rintro rfl
    simp [h] at hc
  have hpath : ("/requests".toList ++ '?' :: query).takeWhile (· != '?') = "/requests".toList := rfl
  have hquery :
      ("/requests".toList ++ '?' :: query).drop "/requests".toList.length = '?' :: query := rfl
  have hall : "/requests".toList.all isPathChar = true := by decide
  simp only [pathAndQuery?, hsharp, hpath, hquery, hall, Bool.not_true, Bool.false_eq_true,
    if_false]

/-- A target that asks for records is taken if it is short enough and of the right characters. -/
theorem read?_asking {query : List Char} (h : '#' ∉ query) :
    Uri.read? ("/requests?" ++ String.ofList query) =
      if Utf8.size ("/requests?" ++ String.ofList query) ≤ longestUri ∧ query.all isQueryChar then
        some ⟨"/requests", some (String.ofList query)⟩
      else none := by
  have htext : ("/requests?" ++ String.ofList query).toList =
      "/requests".toList ++ '?' :: query := by
    have hquery : (String.ofList query).toList = query := String.toList_ofList
    rw [String.toList_append, hquery]
    rfl
  by_cases hlong : longestUri < Utf8.size ("/requests?" ++ String.ofList query)
  · rw [Uri.read?, if_pos hlong, if_neg (by omega)]
  · rw [Uri.read?, if_neg hlong, htext]
    change (pathAndQuery? ("/requests".toList ++ '?' :: query)).map _ = _
    rw [pathAndQuery?_records h]
    by_cases hall : query.all isQueryChar = true
    · rw [if_pos hall, if_pos ⟨Nat.not_lt.1 hlong, hall⟩]
      rfl
    · rw [if_neg hall, if_neg fun hboth => hall hboth.2]
      rfl

theorem read?_records {query : List Char} {pairs : List (String × String)}
    (hq : QueryForm query pairs) {uri : Uri}
    (h : Uri.read? ("/requests?" ++ String.ofList query) = some uri) :
    uri = ⟨"/requests", some (String.ofList query)⟩ := by
  rw [read?_asking hq.sharp_not_mem] at h
  split_ifs at h
  cases h
  rfl

theorem formValue?_eq (key : String) (pairs : List (String × String)) :
    formValue? key pairs = pairs.lookup key := by
  induction pairs with
  | nil => rfl
  | cons pair pairs ih =>
    obtain ⟨k, v⟩ := pair
    rw [List.lookup_cons, ← ih]
    by_cases hk : k = key
    · simp [formValue?, hk]
    · simp [formValue?, hk, beq_false_of_ne (Ne.symm hk)]

/-- What a request asks for, when it is taken at all. -/
theorem RecordsTarget.asks {target : String} {pairs : List (String × String)}
    (ht : RecordsTarget target pairs) {method : String} {headers : List (String × List UInt8)}
    {request : Request} (hr : Request.of? method target headers = some request) :
    request.method = method ∧ request.uri.path = "/requests" ∧
      askedModel? request.uri.query = (pairs.lookup "model").filter (· != "") := by
  unfold Request.of? at hr
  split_ifs at hr
  split at hr
  next uri _ huri _ =>
    split_ifs at hr
    cases hr
    cases ht with
    | bare =>
      have hbare : Uri.read? "/requests" = some ⟨"/requests", none⟩ := by decide +kernel
      obtain rfl : (⟨"/requests", none⟩ : Uri) = uri := Option.some.inj (hbare.symm.trans huri)
      have hnone : decodeForm "" = [] := decodeForm_of_queryForm ⟨[], .nil, rfl⟩
      refine ⟨rfl, rfl, ?_⟩
      rw [askedModel?, Option.getD_none, hnone, formValue?_eq]
    | asking hq =>
      rw [read?_records hq huri]
      refine ⟨rfl, rfl, ?_⟩
      rw [askedModel?, Option.getD_some, decodeForm_of_queryForm hq, formValue?_eq]
  next => cases hr

structure RecordsBody where
  model : String
  records : List Exchange
  count : Nat
  config : BackendConfig

def RecordsBody.read? : String → Option RecordsBody := readDocument fun s =>
  match fields? ["model", "records", "count", "config"] s with
  | some [model, records, count, config] => do
    some ⟨← required readText model, ← required (readList Exchange.read?) records,
      ← required (readNat wordBound) count,
      ← required (BackendConfig.readWith? readNearest) config⟩
  | _ => none

def documentFields (model : String) (h : History) : List Field :=
  [("model", some (quote model)), ("records", some (array (h.exchanges.map Exchange.write))),
    ("count", some (writeNat h.exchanges.length)), ("config", some h.config.write)]

theorem document_eq (model : String) (h : History) :
    recordsDocument model h = object (present (documentFields model h)) := rfl

theorem RecordsBody.read?_document (model : String) {h : History} (hv : h.Valid)
    (hlength : h.exchanges.length < wordBound) :
    RecordsBody.read? (String.ofList (recordsDocument model h)) =
      some ⟨model, h.exchanges, h.exchanges.length, h.config⟩ := by
  have hvalues : ∀ f ∈ documentFields model h, ∀ v ∈ f.2, ValueText v := by
    simp [documentFields, valueText_quote, valueText_writeNat, Exchange.valueText_list,
      BackendConfig.valueText_write hv.config]
  have hfields : fields? ["model", "records", "count", "config"] (recordsDocument model h) =
      some ((documentFields model h).map Prod.snd) :=
    fields?_of_eq (document_eq model h) rfl (by decide) hvalues
  have hconfig : BackendConfig.readWith? readNearest h.config.write = some h.config :=
    BackendConfig.readWith?_write hv.config hv.config.readsBack_nearest
  have hdocument : ValueText (recordsDocument model h) := valueText_present hvalues
  rw [RecordsBody.read?, readDocument_ofList hdocument]
  simp only [hfields, documentFields, List.map_cons, List.map_nil, required, readText_quote,
    Exchange.readList_write hv.times, readNat_writeNat hlength (Nat.le_refl _), hconfig]
  rfl

/-- An empty name asks for nothing. -/
theorem filter_eq_none {name : Option String} :
    name.filter (· != "") = none ↔ name = none ∨ name = some "" := by
  cases name <;> simp

theorem answer_records {r : Recorder} {request : Request} (hm : request.method = "GET")
    (hp : request.uri.path = "/requests") :
    answer r request = answerRecords r request.uri.query := by
  simp [answer, route?, hp, hm, answerRoute]

/-- With a normalizer that never fails, the name that is asked for is looked up in its normal
form. -/
theorem answerRecords_total {r : Recorder} {f : String → String}
    (hn : r.roster.normalize = total f) {query : Option String} {model : String}
    (hq : askedModel? query = some model) :
    answerRecords r query =
      ⟨some (match r.roster.entries.lookup ⟨r.backend, f model, .completion⟩ with
          | some h => jsonResponse (recordsDocument model h)
          | none => recordsMissing model),
        r.unlock.1, r.unlock.2, []⟩ := by
  have hquery : r.query model =
      ⟨some (r.roster.entries.lookup ⟨r.backend, f model, .completion⟩), r.unlock.1, r.unlock.2,
        []⟩ := by
    have hget : r.roster.get? ⟨r.backend, model, .completion⟩ =
        some (r.roster.entries.lookup ⟨r.backend, f model, .completion⟩) := by
      simp [Roster.get?, Roster.key?_eq, Runner.normal?, hn, total]
    simp only [Recorder.query, Recorder.unlock, Recorder.completionRunner, hget]
  unfold answerRecords
  rw [hq]
  dsimp only
  rw [hquery]
  cases r.roster.entries.lookup ⟨r.backend, f model, .completion⟩ with
  | none => rfl
  | some h => rfl

section Answer
variable (f : String → String) (capacity : Nat) (backend : String)

/-- Every history that is held after valid calls can be told in an answer. -/
theorem read?_held {ops : List Operation} (hops : ∀ op ∈ ops, op.Valid) {key : Runner}
    {h : History}
    (hl : ((Recorder.empty (total f) capacity backend).run ops).roster.entries.lookup key = some h)
    (model : String) : RecordsBody.read? (String.ofList (recordsDocument model h)) =
      some ⟨model, h.exchanges, h.exchanges.length, h.config⟩ := by
  have hvalid : h.Valid := Recorder.valid_run _ hops (by rintro _ ⟨⟩) h hl
  have hroom : (Recorder.empty (total f) capacity backend).reserve?.isSome :=
    Recorder.room_run _ ops (by rintro ⟨⟩) (by rw [hl]; rfl)
  have hle : h.exchanges.length ≤ capacity := by
    have w := Recorder.lookup_window (total f) capacity backend ops key
    rw [hl] at w
    exact w.length_le
  have hbound : capacity < wordBound := by
    unfold Recorder.reserve? at hroom
    have hword : wordBound = 2 * Recorder.memoryBound := rfl
    split_ifs at hroom with hcapacity
    · simp only [Recorder.empty, Recorder.exchangeBytes] at hcapacity
      omega
    · cases hroom
  exact RecordsBody.read?_document model hvalid (hle.trans_lt hbound)

/-- A request for records is answered by what is held for the first model that it names, and nothing
but the mark of a failed call is changed. Without a name the status is 400, for a model of which
nothing is held it is 404; otherwise the body tells all that is held. -/
theorem records_answered {ops : List Operation} (hops : ∀ op ∈ ops, op.Valid) {target : String}
    {pairs : List (String × String)} (ht : RecordsTarget target pairs)
    {headers : List (String × List UInt8)} {request : Request}
    (hr : Request.of? "GET" target headers = some request) :
    let r := (Recorder.empty (total f) capacity backend).run ops
    ∃ response, (answer r request).result = some response ∧
      { (answer r request).recorder with poisoned := r.poisoned } = r ∧
      (response.status = 400 ↔
        pairs.lookup "model" = none ∨ pairs.lookup "model" = some "") ∧
      ∀ model, pairs.lookup "model" = some model → model ≠ "" →
        (response.status = 404 ↔
          r.roster.entries.lookup ⟨backend, f model, .completion⟩ = none) ∧
        ∀ h, r.roster.entries.lookup ⟨backend, f model, .completion⟩ = some h →
          response.status = 200 ∧ response.contentType = some jsonType ∧
          RecordsBody.read? response.body =
            some ⟨model, h.exchanges, h.exchanges.length, h.config⟩ := by
  intro r
  obtain ⟨hmethod, hpath, hasks⟩ := ht.asks hr
  obtain ⟨hn, -, hb⟩ := Recorder.run_setup (Recorder.empty (total f) capacity backend) ops
  rw [answer_records hmethod hpath]
  cases hasked : (pairs.lookup "model").filter (· != "") with
  | none =>
    have hmissing : answerRecords r request.uri.query = ⟨some modelMissing, r, [], []⟩ := by
      unfold answerRecords
      rw [hasks, hasked]
    have hunnamed := filter_eq_none.1 hasked
    rw [hmissing]
    refine ⟨_, rfl, rfl, iff_of_true rfl hunnamed, fun model hmodel hne => ?_⟩
    simp [hmodel, hne] at hunnamed
  | some asked =>
    obtain ⟨hlookup, -⟩ := Option.filter_eq_some_iff.1 hasked
    have hnamed : ¬(pairs.lookup "model" = none ∨ pairs.lookup "model" = some "") := fun hno =>
      absurd (hasked.symm.trans (filter_eq_none.2 hno)) nofun
    rw [answerRecords_total hn (hasks.trans hasked), hb]
    cases hl : r.roster.entries.lookup
      ⟨(Recorder.empty (total f) capacity backend).backend, f asked, .completion⟩ with
    | none =>
      have hstatus : (recordsMissing asked).status ≠ 400 := by simp [recordsMissing, textResponse]
      refine ⟨_, rfl, rfl, iff_of_false hstatus hnamed, fun model hmodel _ => ?_⟩
      obtain rfl : asked = model := Option.some.inj (hlookup.symm.trans hmodel)
      exact ⟨iff_of_true rfl hl, fun h hh => absurd (hl.symm.trans hh) nofun⟩
    | some h =>
      have hstatus : (jsonResponse (recordsDocument asked h)).status = 200 := rfl
      refine ⟨_, rfl, rfl, iff_of_false (by simp [hstatus]) hnamed, fun model hmodel _ => ?_⟩
      obtain rfl : asked = model := Option.some.inj (hlookup.symm.trans hmodel)
      refine ⟨iff_of_false (by simp [hstatus]) fun hnone => ?_, fun h' hh => ?_⟩
      · exact absurd (hl.symm.trans hnone) nofun
      obtain rfl : h = h' := Option.some.inj (hl.symm.trans hh)
      exact ⟨rfl, rfl, read?_held f capacity backend hops hl asked⟩

end Answer

def small (name : String) : String := if name = "M" then "m" else name

def halfRate : BackendConfig :=
  ⟨some 5, ["--x"], some ⟨"d", none, some ⟨false, 2 ^ 52, -53⟩⟩⟩

def quotedSession : List Operation :=
  [.configure ⟨"b", "M", .completion⟩ (some halfRate),
    .capture ⟨"b", "m", .completion⟩ ⟨"POST", "/v1", ""⟩ [34, 10] ⟨2016, 12, 31, 23, 59, 60, 5000⟩]

def quotedExchange : Exchange :=
  ⟨"m_1483228800000005000", "m", "POST", "/v1", "\"\n", "", ⟨2016, 12, 31, 23, 59, 60, 5000⟩, 0, ""⟩

theorem valid_quotedSession : ∀ op ∈ quotedSession, op.Valid := by
  have hrate : halfRate.Canonical := by
    rintro _ ⟨⟩ _ ⟨⟩
    exact ⟨by decide, by decide, by decide, .inr (by decide)⟩
  have htime : Instant.isValid ⟨2016, 12, 31, 23, 59, 60, 5000⟩ = true := by decide
  simp only [quotedSession, List.forall_mem_cons]
  exact ⟨hrate, htime, nofun⟩

def escapedQuery : List Char :=
  ['x', '=', '1', '&', 'm', 'o', 'd', 'e', 'l', '=', '%', '4', 'd', '&', 'm', 'o', 'd', 'e', 'l',
    '=']

/-- Of a name that is given twice the first one counts, and it may be escaped. -/
theorem queryForm_escaped : QueryForm escapedQuery [("x", "1"), ("model", "M"), ("model", "")] := by
  have hbyte : EscapedByte 0x4d ['%', '4', 'd'] := .mk (c := '4') (d := 'd') rfl rfl
  have hname : TextForm ['%', '4', 'd'] "M" := .one (.escaped (.one hbyte))
  have hmodel : TextForm ['m', 'o', 'd', 'e', 'l'] "model" := textForm_self rfl
  have hx : TextForm ['x'] "x" := textForm_self rfl
  have hone : TextForm ['1'] "1" := textForm_self rfl
  refine ⟨[['x', '=', '1'], ['m', 'o', 'd', 'e', 'l', '=', '%', '4', 'd'],
    ['m', 'o', 'd', 'e', 'l', '=']], ?_, rfl⟩
  refine .cons ⟨['x'], ['1'], rfl, hx, hone⟩ ?_
  refine .cons ⟨['m', 'o', 'd', 'e', 'l'], ['%', '4', 'd'], rfl, hmodel, hname⟩ ?_
  exact .cons ⟨['m', 'o', 'd', 'e', 'l'], [], rfl, hmodel, .nil⟩ .nil

theorem records_answered_escaped :
    (∀ op ∈ quotedSession, op.Valid) ∧
    RecordsTarget ("/requests?" ++ String.ofList escapedQuery)
      [("x", "1"), ("model", "M"), ("model", "")] ∧
    ∃ request, Request.of? "GET" ("/requests?" ++ String.ofList escapedQuery) [] = some request ∧
      ∃ response,
        (answer ((Recorder.empty (total small) 1 "b").run quotedSession) request).result =
          some response ∧
        response.status = 200 ∧
        RecordsBody.read? response.body = some ⟨"M", [quotedExchange], 1, halfRate⟩ := by
  have htarget := RecordsTarget.asking queryForm_escaped
  have hrequest : Request.of? "GET" ("/requests?" ++ String.ofList escapedQuery) [] =
      some ⟨"GET", ⟨"/requests", some "x=1&model=%4d&model="⟩, []⟩ := rfl
  refine ⟨valid_quotedSession, htarget, _, hrequest, ?_⟩
  obtain ⟨response, hresult, -, -, hall⟩ :=
    records_answered small 1 "b" valid_quotedSession htarget hrequest
  obtain ⟨-, hfound⟩ := hall "M" rfl (by decide)
  have hheld : ((Recorder.empty (total small) 1 "b").run quotedSession).roster.entries.lookup
      ⟨"b", small "M", .completion⟩ = some ⟨halfRate, [quotedExchange]⟩ := by decide +kernel
  obtain ⟨hstatus, -, hbody⟩ := hfound _ hheld
  exact ⟨response, hresult, hstatus, hbody⟩

end Http
end InferenceRecorder
