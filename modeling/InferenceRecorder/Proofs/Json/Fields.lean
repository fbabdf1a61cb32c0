import InferenceRecorder.Json.Fields
import InferenceRecorder.Proofs.Json.Compact
import InferenceRecorder.Proofs.Json.Float
import InferenceRecorder.Proofs.Table

/-!
Records in JSON, written and read. An object put together from the fields that say something is
taken apart into all fields again, and those left out are told by their absence: `fields?_present`.
What a reader makes of one field is a lemma of its own.
-/
namespace InferenceRecorder.Json

open Numeral (decimal)

variable {α : Type}

abbrev Field := String × Option Source

def present (fields : List Field) : List Member := fields.filterMap fun f => f.2.map (f.1, ·)

@[simp] theorem present_nil : present [] = [] := rfl

@[simp] theorem present_some (name : String) (v : Source) (fields : List Field) :
    present ((name, some v) :: fields) = (name, v) :: present fields := rfl

theorem present_optional (name : String) (write : α → Source) (o : Option α) (fields : List Field) :
    present ((name, o.map write) :: fields) = memberOf name write o ++ present fields := by
  cases o <;> rfl

theorem present_if (b : Bool) (name : String) (v : Source) (fields : List Field) :
    present ((name, if b then some v else none) :: fields) =
      memberIf b name v ++ present fields := by
  cases b <;> rfl

theorem mem_present {fields : List Field} {m : Member} :
    m ∈ present fields ↔ (m.1, some m.2) ∈ fields := by
  obtain ⟨name, v⟩ := m
  simp only [present, List.mem_filterMap, Option.map_eq_some_iff, Prod.mk.injEq]
  constructor
  · rintro ⟨⟨_, _⟩, hf, _, rfl, rfl, rfl⟩
    exact hf
  · exact fun hf => ⟨_, hf, v, rfl, rfl, rfl⟩

theorem names_present (fields : List Field) :
    (present fields).map Prod.fst = (fields.filter fun f => f.2.isSome).map Prod.fst := by
  induction fields with
  | nil => rfl
  | cons f fields ih =>
    obtain ⟨name, o⟩ := f
    cases o with
    | none => simpa [present] using ih
    | some v => simpa using ih

theorem nodup_present {fields : List Field} (hn : (fields.map Prod.fst).Nodup) :
    ((present fields).map Prod.fst).Nodup := by
  rw [names_present]
  exact hn.sublist (List.filter_sublist.map Prod.fst)

theorem lookup_present {fields : List Field} (hn : (fields.map Prod.fst).Nodup) {f : Field}
    (hf : f ∈ fields) : Table.lookup f.1 (present fields) = f.2 := by
  obtain ⟨name, o⟩ := f
  cases o with
  | some v => exact Table.lookup_of_mem (nodup_present hn) (mem_present.2 hf)
  | none =>
    refine Table.lookup_eq_none_iff.2 fun hm => ?_
    obtain ⟨⟨_, v⟩, hv, rfl⟩ := List.mem_map.1 hm
    cases List.inj_on_of_nodup_map hn hf (mem_present.1 hv) rfl

theorem repeatsName_eq_false (names : List String) {members : List Member}
    (hn : (members.map Prod.fst).Nodup) : repeatsName names members = false := by
  induction members with
  | nil => rfl
  | cons m members ih =>
    obtain ⟨hm, hn⟩ := List.nodup_cons.1 hn
    have hany : (members.any fun n => n.1 == m.1) = false := by
      simp only [List.any_eq_false, beq_iff_eq]
      exact fun n hmem heq => hm (heq ▸ List.mem_map_of_mem hmem)
    rw [repeatsName, hany, Bool.and_false, Bool.false_or]
    exact ih hn

theorem elements?_object (members : List Member) : elements? (object members) = none := rfl

/-- The object of the fields that say something is read as all the fields. -/
theorem fields?_present {fields : List Field} (hn : (fields.map Prod.fst).Nodup)
    (hv : ∀ f ∈ fields, ∀ v ∈ f.2, ValueText v) :
    fields? (fields.map Prod.fst) (object (present fields)) = some (fields.map Prod.snd) := by
  have hmembers : members? (object (present fields)) = some (present fields) :=
    members?_eq_some.2 (objectText_object fun _ hm => hv _ (mem_present.1 hm) _ rfl)
  have hvalues : (fields.map Prod.fst).map (fun name => Table.lookup name (present fields)) =
      fields.map Prod.snd := by
    rw [List.map_map]
    exact List.map_congr_left fun f hf => lookup_present hn hf
  rw [fields?, elements?_object, hmembers]
  simp only [repeatsName_eq_false _ (nodup_present hn), Bool.false_eq_true, if_false, hvalues]

/-- What is written of fields is read by their names. -/
theorem fields?_of_eq {names : List String} {fields : List Field} {s : Source}
    (hs : s = object (present fields)) (hnames : fields.map Prod.fst = names) (hn : names.Nodup)
    (hv : ∀ f ∈ fields, ∀ v ∈ f.2, ValueText v) : fields? names s = some (fields.map Prod.snd) := by
  subst hs hnames
  exact fields?_present hn hv

theorem valueText_present {fields : List Field} (hv : ∀ f ∈ fields, ∀ v ∈ f.2, ValueText v) :
    ValueText (object (present fields)) :=
  valueText_object fun _ hm => hv _ (mem_present.1 hm) _ rfl

section Readers
variable {read : Source → Option α} {write : α → Source}

theorem optional_map {o : Option α} (hread : ∀ a ∈ o, read (write a) = some a)
    (hnull : ∀ a ∈ o, isNull (write a) = false) : optional read (o.map write) = some o := by
  cases o with
  | none => rfl
  | some a => simp [optional, hnull a rfl, hread a rfl]

theorem mapM_map {xs : List α} (hread : ∀ a ∈ xs, read (write a) = some a) :
    (xs.map write).mapM read = some xs := by
  induction xs with
  | nil => rfl
  | cons a xs ih =>
    obtain ⟨ha, hxs⟩ := List.forall_mem_cons.1 hread
    simp [ha, ih hxs]

theorem readList_array {xs : List α} (hvalue : ∀ a ∈ xs, ValueText (write a))
    (hread : ∀ a ∈ xs, read (write a) = some a) :
    readList read (array (xs.map write)) = some xs := by
  have helements : elements? (array (xs.map write)) = some (xs.map write) :=
    elements?_eq_some.2 (arrayText_array (List.forall_mem_map.2 hvalue))
  rw [readList, helements, Option.bind_some, mapM_map hread]

theorem readDocument_ofList {s : Source} (h : ValueText s) :
    readDocument read (String.ofList s) = read s := by
  rw [readDocument, String.toList_ofList, h.lexeme.value?_eq, Option.bind_some]

end Readers

theorem readText_quote (text : String) : readText (quote text) = some text :=
  unquote?_eq_some.2 (quotedText_quote text)

theorem integerText_decimal (n : Nat) : IntegerText (decimal n) := by
  cases n with
  | zero => exact .zero
  | succ n =>
    have hdigits : AllDigits (decimal (n + 1)) := fun _ => Numeral.isDigit_of_mem_decimal
    obtain ⟨c, s, hs, hc⟩ := Numeral.decimal_eq_cons n.succ_pos
    rw [hs] at hdigits ⊢
    obtain ⟨hdigit, hall⟩ := List.forall_mem_cons.1 hdigits
    exact .digits hdigit hc hall

theorem spelled_decimal (n : Nat) : Spelled (decimal n) n 0 := by
  have h := Spelled.mk (integerText_decimal n) someDigits_none .none
  simpa [pointed, Numeral.ofDecimal_decimal] using h

theorem numberText_writeNat (n : Nat) : NumberText (writeNat n) :=
  (spelled_decimal n).numberText false

theorem number?_writeNat {n : Nat} (h : n < wordBound) :
    number? (writeNat n) = some (.integer n) := by
  have hparts := of_parts false (integerText_decimal n) someDigits_none .none
  have hnumber : isNumber (decimal n) = true := by
    obtain ⟨c, s, hs, hc⟩ := (integerText_decimal n).head
    rw [hs]
    unfold isNumber
    split <;> simp_all
  simp only [Bool.false_eq_true, if_false, pointed, List.append_nil] at hparts
  rw [writeNat, number?, if_pos hnumber, hparts]
  simp [NumberParts.integer?, exponentPart, Numeral.ofDecimal_decimal, h]

theorem readNat_writeNat {n bound : Nat} (h : n < bound) (hb : bound ≤ wordBound) :
    readNat bound (writeNat n) = some n := by
  simp [readNat, number?_writeNat (h.trans_le hb), h]

theorem isNull_of_numberText {s : Source} (h : NumberText s) : isNull s = false := by
  cases h with
  | negative _ _ => rfl
  | plain hi _ =>
    obtain ⟨c, s, rfl, hc⟩ := hi.head
    rw [isNull, beq_eq_false_iff_ne]
    intro heq
    rw [(List.cons.inj heq).1] at hc
    cases hc

end InferenceRecorder.Json
