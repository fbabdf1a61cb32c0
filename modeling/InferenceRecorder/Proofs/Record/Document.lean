import InferenceRecorder.Proofs.Calendar.Timestamp
import InferenceRecorder.Proofs.Json.Fields
import InferenceRecorder.Record.Document

/-!
The documents of records, written and read back. What is left out when a record is written is what
its reader puts in for a field that is not there: `documents_read_back`.
-/
namespace InferenceRecorder

open Json
open Numeral (Binary64)

theorem readUInt16_write (n : UInt16) : readUInt16 (writeUInt16 n) = some n := by
  rw [readUInt16, writeUInt16, readNat_writeNat n.toNat_lt (by decide), Option.map_some,
    UInt16.ofNat_toNat]

theorem readUInt32_write (n : UInt32) : readUInt32 (writeUInt32 n) = some n := by
  rw [readUInt32, writeUInt32, readNat_writeNat n.toNat_lt (by decide), Option.map_some,
    UInt32.ofNat_toNat]

theorem readUInt64_write (n : UInt64) : readUInt64 (writeUInt64 n) = some n := by
  rw [readUInt64, writeUInt64, readNat_writeNat n.toNat_lt (by decide), Option.map_some,
    UInt64.ofNat_toNat]

theorem valueText_writeNat (n : Nat) : ValueText (writeNat n) := .number (numberText_writeNat n)

theorem isNull_writeNat (n : Nat) : isNull (writeNat n) = false :=
  isNull_of_numberText (numberText_writeNat n)

variable {readRate : Source → Option Binary64}

namespace Speculation

def Canonical (s : Speculation) : Prop := ∀ x ∈ s.leastAcceptance, x.Canonical

def ReadsBack (readRate : Source → Option Binary64) (s : Speculation) : Prop :=
  ∀ x ∈ s.leastAcceptance, readRate (writeFloat x) = some x

def fields (s : Speculation) : List Field :=
  [("draft_model", some (quote s.draftModel)), ("num_tokens", s.tokens.map writeUInt32),
    ("min_acceptance_rate", s.leastAcceptance.map writeFloat)]

theorem write_eq (s : Speculation) : s.write = object (present s.fields) := by
  simp only [write, fields, present_some, present_optional, present_nil, List.append_nil,
    List.cons_append]

theorem valueText_fields {s : Speculation} (h : s.Canonical) :
    ∀ f ∈ s.fields, ∀ v ∈ f.2, ValueText v := by
  have hrate : ∀ x ∈ s.leastAcceptance, ValueText (writeFloat x) := fun x hx =>
    .number (writeFloat_spec (h x hx)).1
  simpa [fields, valueText_quote, writeUInt32, valueText_writeNat] using hrate

theorem valueText_write {s : Speculation} (h : s.Canonical) : ValueText s.write := by
  rw [write_eq]
  exact valueText_present (valueText_fields h)

theorem readWith?_write {s : Speculation} (h : s.Canonical) (hr : s.ReadsBack readRate) :
    readWith? readRate s.write = some s := by
  have hfields : fields? ["draft_model", "num_tokens", "min_acceptance_rate"] s.write =
      some (s.fields.map Prod.snd) :=
    fields?_of_eq s.write_eq rfl (by decide) (valueText_fields h)
  have htokens : optional readUInt32 (s.tokens.map writeUInt32) = some s.tokens :=
    optional_map (fun n _ => readUInt32_write n) fun n _ => isNull_writeNat n.toNat
  have hrate : optional readRate (s.leastAcceptance.map writeFloat) = some s.leastAcceptance :=
    optional_map hr fun x hx =>
      isNull_of_numberText (writeFloat_spec (h x hx)).1
  simp only [readWith?, hfields, fields, List.map_cons, List.map_nil, required, readText_quote,
    htokens, hrate]
  rfl

end Speculation

namespace BackendConfig

def Canonical (config : BackendConfig) : Prop := ∀ s ∈ config.speculation, s.Canonical

def ReadsBack (readRate : Source → Option Binary64) (config : BackendConfig) : Prop :=
  ∀ s ∈ config.speculation, s.ReadsBack readRate

def fields (config : BackendConfig) : List Field :=
  [("context_size", config.contextSize.map writeUInt64),
    ("runtime_flags",
      if !config.flags.isEmpty then some (array (config.flags.map quote)) else none),
    ("speculative", config.speculation.map Speculation.write)]

theorem write_eq (config : BackendConfig) : config.write = object (present config.fields) := by
  simp only [write, fields, present_optional, present_if, present_nil, List.append_nil,
    List.append_assoc]

theorem valueText_fields {config : BackendConfig} (h : config.Canonical) :
    ∀ f ∈ config.fields, ∀ v ∈ f.2, ValueText v := by
  have hspeculation : ∀ s ∈ config.speculation, ValueText s.write := fun s hs =>
    Speculation.valueText_write (h s hs)
  have hflags : ValueText (array (config.flags.map quote)) :=
    valueText_array (List.forall_mem_map.2 fun text _ => valueText_quote text)
  simpa [fields, writeUInt64, valueText_writeNat, hflags] using hspeculation

theorem valueText_write {config : BackendConfig} (h : config.Canonical) :
    ValueText config.write := by
  rw [write_eq]
  exact valueText_present (valueText_fields h)

/-- A reader that rounds to the nearest number finds every rate again. -/
theorem Canonical.readsBack_nearest {config : BackendConfig} (h : config.Canonical) :
    config.ReadsBack readNearest := fun s hs x hx => (writeFloat_spec (h s hs x hx)).2

theorem readWith?_write {config : BackendConfig} (h : config.Canonical)
    (hr : config.ReadsBack readRate) : readWith? readRate config.write = some config := by
  have hfields : fields? ["context_size", "runtime_flags", "speculative"] config.write =
      some (config.fields.map Prod.snd) :=
    fields?_of_eq config.write_eq rfl (by decide) (valueText_fields h)
  have hsize : optional readUInt64 (config.contextSize.map writeUInt64) = some config.contextSize :=
    optional_map (fun n _ => readUInt64_write n) fun n _ => isNull_writeNat n.toNat
  have hflags : defaulted [] (readList readText)
      (if !config.flags.isEmpty then some (array (config.flags.map quote)) else none) =
        some config.flags := by
    cases hempty : config.flags with
    | nil => rfl
    | cons flag flags =>
      exact readList_array (fun text _ => valueText_quote text) fun text _ => readText_quote text
  have hspeculation : optional (Speculation.readWith? readRate)
      (config.speculation.map Speculation.write) = some config.speculation :=
    optional_map (fun s hs => Speculation.readWith?_write (h s hs) (hr s hs)) fun _ _ => rfl
  simp only [readWith?, hfields, fields, List.map_cons, List.map_nil, hsize, hflags, hspeculation]
  rfl

end BackendConfig

namespace Exchange

def fields (e : Exchange) : List Field :=
  [("id", some (quote e.id)), ("model", some (quote e.model)), ("method", some (quote e.method)),
    ("url", some (quote e.url)), ("request", some (quote e.request)),
    ("response", some (quote e.response)),
    ("timestamp", some (quoteChars (Timestamp.write e.time))),
    ("status_code", some (writeUInt16 e.status)),
    ("user_agent", if e.userAgent != "" then some (quote e.userAgent) else none)]

theorem write_eq (e : Exchange) : e.write = object (present e.fields) := by
  simp only [write, fields, present_some, present_if, present_nil, List.append_nil,
    List.cons_append, List.nil_append]

theorem quoteChars_eq (text : List Char) : quoteChars text = quote (String.ofList text) := by
  rw [quote, String.toList_ofList]

theorem valueText_fields (e : Exchange) : ∀ f ∈ e.fields, ∀ v ∈ f.2, ValueText v := by
  simp [fields, valueText_quote, quoteChars_eq, writeUInt16, valueText_writeNat]

theorem valueText_write (e : Exchange) : ValueText e.write := by
  rw [write_eq]
  exact valueText_present e.valueText_fields

theorem readTime_write {t : Instant} (h : t.isValid = true) :
    readTime (quoteChars (Timestamp.write t)) = some t := by
  rw [readTime, quoteChars_eq, readText_quote, Option.bind_some, String.toList_ofList,
    Timestamp.read?_write h]

theorem read?_write {e : Exchange} (h : e.time.isValid = true) : read? e.write = some e := by
  have hfields : fields? ["id", "model", "method", "url", "request", "response", "timestamp",
      "status_code", "user_agent"] e.write = some (e.fields.map Prod.snd) :=
    fields?_of_eq e.write_eq rfl (by decide) e.valueText_fields
  have huser : defaulted "" readText
      (if e.userAgent != "" then some (quote e.userAgent) else none) = some e.userAgent := by
    split_ifs with hempty
    · exact readText_quote e.userAgent
    · simp_all [defaulted]
  simp only [read?, hfields, fields, List.map_cons, List.map_nil, required, readText_quote,
    readTime_write h, readUInt16_write, huser]
  rfl

theorem valueText_list (exchanges : List Exchange) : ValueText (array (exchanges.map write)) :=
  valueText_array (List.forall_mem_map.2 fun e _ => e.valueText_write)

theorem readList_write {exchanges : List Exchange}
    (h : ∀ e ∈ exchanges, e.time.isValid = true) :
    readList read? (array (exchanges.map write)) = some exchanges :=
  readList_array (fun e _ => e.valueText_write) fun e he => read?_write (h e he)

end Exchange

namespace History

structure Valid (h : History) : Prop where
  config : h.config.Canonical
  times : ∀ e ∈ h.exchanges, e.time.isValid = true

theorem valid_empty : empty.Valid := ⟨nofun, nofun⟩

def fields (h : History) : List Field :=
  [("config", some h.config.write), ("records", some (array (h.exchanges.map Exchange.write)))]

theorem write_eq (h : History) : h.write = object (present h.fields) := rfl

theorem valueText_fields {h : History} (hv : h.Valid) : ∀ f ∈ h.fields, ∀ v ∈ f.2, ValueText v := by
  simp [fields, BackendConfig.valueText_write hv.config, Exchange.valueText_list]

theorem valueText_write {h : History} (hv : h.Valid) : ValueText h.write := by
  rw [write_eq]
  exact valueText_present (valueText_fields hv)

theorem readWith?_write {h : History} (hv : h.Valid) (hr : h.config.ReadsBack readRate) :
    readWith? readRate h.write = some h := by
  have hfields : fields? ["config", "records"] h.write = some (h.fields.map Prod.snd) :=
    fields?_of_eq h.write_eq rfl (by decide) (valueText_fields hv)
  simp only [readWith?, hfields, fields, List.map_cons, List.map_nil, required,
    BackendConfig.readWith?_write hv.config hr, Exchange.readList_write hv.times]
  rfl

end History

theorem Mode.read?_write (mode : Mode) : read? mode.write = some mode := by
  have hname : unquote? mode.write = some mode.name := readText_quote mode.name
  simp only [read?, hname, ofName?_name]

namespace Runner

def fields (r : Runner) : List Field :=
  [("backend", some (quote r.backend)), ("model", some (quote r.model)),
    ("mode", some r.mode.write)]

theorem write_eq (r : Runner) : r.write = object (present r.fields) := rfl

theorem valueText_fields (r : Runner) : ∀ f ∈ r.fields, ∀ v ∈ f.2, ValueText v := by
  simp [fields, valueText_quote, Mode.write]

theorem valueText_write (r : Runner) : ValueText r.write := by
  rw [write_eq]
  exact valueText_present r.valueText_fields

theorem read?_write (r : Runner) : read? r.write = some r := by
  have hfields : fields? ["backend", "model", "mode"] r.write = some (r.fields.map Prod.snd) :=
    fields?_of_eq r.write_eq rfl (by decide) r.valueText_fields
  simp only [read?, hfields, fields, List.map_cons, List.map_nil, required, readText_quote,
    Mode.read?_write]
  rfl

end Runner

namespace RunnerSummary

def fields (r : RunnerSummary) : List Field :=
  [("backend", some (quote r.backend)), ("model", some (quote r.model)),
    ("mode", some r.mode.write), ("count", some (writeNat r.count)),
    ("pending", some (writeNat r.pending))]

theorem write_eq (r : RunnerSummary) : r.write = object (present r.fields) := rfl

theorem valueText_fields (r : RunnerSummary) : ∀ f ∈ r.fields, ∀ v ∈ f.2, ValueText v := by
  simp [fields, valueText_quote, Mode.write, valueText_writeNat]

theorem valueText_write (r : RunnerSummary) : ValueText r.write := by
  rw [write_eq]
  exact valueText_present r.valueText_fields

theorem read?_write {r : RunnerSummary} (hcount : r.count < wordBound)
    (hpending : r.pending < wordBound) : read? r.write = some r := by
  have hfields : fields? ["backend", "model", "mode", "count", "pending"] r.write =
      some (r.fields.map Prod.snd) :=
    fields?_of_eq r.write_eq rfl (by decide) r.valueText_fields
  simp only [read?, hfields, fields, List.map_cons, List.map_nil, required, readText_quote,
    Mode.read?_write, readNat_writeNat hcount (Nat.le_refl _),
    readNat_writeNat hpending (Nat.le_refl _)]
  rfl

end RunnerSummary

/-- Every document is read back as what was written, whichever way rates are read, as long as the
rate of this one is found again. The readers of the records take `readFloat`. -/
theorem documents_read_back (readRate : Source → Option Binary64) :
    (∀ s : Speculation, s.Canonical → s.ReadsBack readRate →
      readDocument (Speculation.readWith? readRate) (String.ofList s.write) = some s) ∧
    (∀ config : BackendConfig, config.Canonical → config.ReadsBack readRate →
      readDocument (BackendConfig.readWith? readRate) (String.ofList config.write) =
        some config) ∧
    (∀ e : Exchange, e.time.isValid = true →
      readDocument Exchange.read? (String.ofList e.write) = some e) ∧
    (∀ h : History, h.Valid → h.config.ReadsBack readRate →
      readDocument (History.readWith? readRate) (String.ofList h.write) = some h) ∧
    (∀ r : RunnerSummary, r.count < wordBound → r.pending < wordBound →
      readDocument RunnerSummary.read? (String.ofList r.write) = some r) ∧
    ∀ r : Runner, readDocument Runner.read? (String.ofList r.write) = some r := by
  refine ⟨fun s hs hr => ?_, fun config hc hr => ?_, fun e he => ?_, fun h hv hr => ?_,
    fun r hcount hpending => ?_, fun r => ?_⟩
  · rw [readDocument_ofList (Speculation.valueText_write hs), Speculation.readWith?_write hs hr]
  · rw [readDocument_ofList (BackendConfig.valueText_write hc),
      BackendConfig.readWith?_write hc hr]
  · rw [readDocument_ofList e.valueText_write, Exchange.read?_write he]
  · rw [readDocument_ofList (History.valueText_write hv), History.readWith?_write hv hr]
  · rw [readDocument_ofList r.valueText_write, RunnerSummary.read?_write hcount hpending]
  · rw [readDocument_ofList r.valueText_write, Runner.read?_write]

def draftOnly : Speculation := ⟨"\"d\\", none, some ⟨false, 2 ^ 52, -53⟩⟩

def draftedConfig : BackendConfig := ⟨none, [], some draftOnly⟩

def oldExchange : Exchange :=
  ⟨"m_0", "m", "POST", "/v1", "\u0001\n", "", ⟨0, 2, 29, 23, 59, 60, 5000⟩, 65535, ""⟩

def oldHistory : History := ⟨draftedConfig, [oldExchange]⟩

def fullSummary : RunnerSummary := ⟨"", "\"", .reranking, wordBound - 1, 0⟩

theorem documents_read_back_half :
    (draftOnly.Canonical ∧ draftOnly.ReadsBack readFloat ∧ oldHistory.Valid ∧
      fullSummary.count < wordBound ∧ fullSummary.pending < wordBound) ∧
    readDocument Speculation.read? (String.ofList draftOnly.write) = some draftOnly ∧
    readDocument BackendConfig.read? (String.ofList draftedConfig.write) = some draftedConfig ∧
    readDocument Exchange.read? (String.ofList oldExchange.write) = some oldExchange ∧
    readDocument History.read? (String.ofList oldHistory.write) = some oldHistory ∧
    readDocument RunnerSummary.read? (String.ofList fullSummary.write) = some fullSummary := by
  have hspeculation : draftOnly.Canonical := by
    rintro _ ⟨⟩
    exact ⟨by decide, by decide, by decide, .inr (by decide)⟩
  have hrate : draftOnly.ReadsBack readFloat := by
    rintro _ ⟨⟩
    decide +kernel
  have hconfig : draftedConfig.Canonical := by
    rintro _ ⟨⟩
    exact hspeculation
  have hrates : draftedConfig.ReadsBack readFloat := by
    rintro _ ⟨⟩
    exact hrate
  have htime : oldExchange.time.isValid = true := by decide
  have hhistory : oldHistory.Valid := ⟨hconfig, by simpa [oldHistory] using htime⟩
  have hcount : fullSummary.count < wordBound := by decide
  have hpending : fullSummary.pending < wordBound := by decide
  obtain ⟨hs, hc, he, hh, hr, -⟩ := documents_read_back readFloat
  exact ⟨⟨hspeculation, hrate, hhistory, hcount, hpending⟩, hs _ hspeculation hrate,
    hc _ hconfig hrates, he _ htime, hh _ hhistory hrates, hr _ hcount hpending⟩

end InferenceRecorder
