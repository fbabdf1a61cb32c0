import InferenceRecorder.Proofs.Json.Legible

/-!
Texts that stand down a path. The first element of an array and the member of an object under the
name `0` both count as the first place, and an object may hide what it stands for in a text. What is
found at a path in the value that is read is what stands there in this sense: `at?_eq_string_iff`.
-/
namespace InferenceRecorder.Json
variable {readSpelled : Source → Option Value} {depth : Nat} {text : String} {path : List String}

inductive Reaches (text : String) : List String → Source → Prop
  | here {s : Source} : Padded (QuotedText · text) s → Reaches text [] s
  | first {path : List String} {s t : Source} : HasFirst s t → Reaches text path t →
    Reaches text ("0" :: path) s
  | member {path : List String} {name : String} {s t : Source} : HasMember s name t →
    Reaches text path t → Reaches text (name :: path) s
  | hidden {path : List String} {s v : Source} {inner : String} :
    ObjectText s [(spellingKey, v)] → QuotedText v inner → Reaches text path inner.toList →
    Reaches text path s

/-- No step but `0` names a place in an array, and none what hides a value. -/
def PlainPath (path : List String) : Prop :=
  ∀ name ∈ path, (name = "0" ∨ arrayIndex? name = none) ∧ name ≠ spellingKey

theorem at?_nil (v : Value) : v.at? [] = some v := by rw [Value.at?]

theorem at?_cons (v : Value) (name : String) (path : List String) :
    v.at? (name :: path) = (v.child? name).bind fun v => v.at? path := by
  rw [Value.at?]
  cases v.child? name <;> rfl

section
variable (hr : ∀ t v, readSpelled t = some v → ∀ path, PlainPath path →
  (v.at? path = some (.string text) ↔ Reaches text path t))
include hr

theorem at?_of_reaches (hpath : PlainPath path) {s : Source} (h : Reaches text path s) {v : Value}
    (hv : readValue? readSpelled depth s = some v) : v.at? path = some (.string text) := by
  induction h generalizing depth v with
  | here hq =>
    cases (readValue?_quotedText hq).symm.trans hv
    exact at?_nil _
  | first hf _ ih =>
    obtain ⟨d, x, hx, hread⟩ := hf.read hv
    rw [at?_cons, hx, Option.bind_some]
    exact ih (fun name hn => hpath name (List.mem_cons_of_mem _ hn)) hread
  | member hm _ ih =>
    obtain ⟨d, x, hx, hread⟩ := hm.read (hpath _ List.mem_cons_self).2 hv
    rw [at?_cons, hx, Option.bind_some]
    exact ih (fun name hn => hpath name (List.mem_cons_of_mem _ hn)) hread
  | hidden ho hq h _ =>
    obtain ⟨_, _, hm, hq', hread⟩ | ⟨hno, -⟩ := readValue?_object ho hv
    · cases hm
      cases hq.unique hq'
      exact (hr _ v hread _ hpath).2 h
    · simp [holdsSpelling] at hno

theorem reaches_of_at? (hpath : PlainPath path) {s : Source} {v : Value}
    (hv : readValue? readSpelled depth s = some v) (hat : v.at? path = some (.string text)) :
    Reaches text path s := by
  -- one bracket is opened for each step of the path, unless an object hides the rest
  induction path generalizing depth s v with
  | nil =>
    rw [at?_nil, Option.some_inj] at hat
    subst hat
    cases form_of_isSome (Option.isSome_of_eq_some hv) with
    | word hw hp =>
      obtain ⟨w, hread, hno, -⟩ := readValue?_word hw hp
      cases hread.symm.trans hv
      cases hno
    | number hn hp =>
      rw [readValue?_numberText hn hp] at hv
      obtain ⟨_, -, hv⟩ := Option.map_eq_some_iff.1 hv
      cases hv
    | text hq =>
      cases (readValue?_quotedText hq).symm.trans hv
      exact .here hq
    | array ha =>
      obtain ⟨_, _, hvs, -⟩ := readValue?_array ha hv
      cases hvs
    | object ho =>
      obtain ⟨_, _, rfl, hq, hread⟩ | ⟨-, _, _, hvs, -⟩ := readValue?_object ho hv
      · exact .hidden ho hq ((hr _ _ hread _ hpath).1 (at?_nil _))
      · cases hvs
  | cons name path ih =>
    obtain ⟨hname, hpath'⟩ := List.forall_mem_cons.1 hpath
    obtain ⟨x, hx, hrest⟩ := Option.bind_eq_some_iff.1 ((at?_cons v name path).symm.trans hat)
    cases form_of_isSome (Option.isSome_of_eq_some hv) with
    | word hw hp =>
      obtain ⟨w, hread, -, hno⟩ := readValue?_word hw hp
      cases hread.symm.trans hv
      cases (hno name).symm.trans hx
    | number hn hp =>
      rw [readValue?_numberText hn hp] at hv
      obtain ⟨_, -, rfl⟩ := Option.map_eq_some_iff.1 hv
      cases hx
    | text hq =>
      cases (readValue?_quotedText hq).symm.trans hv
      cases hx
    | array ha =>
      obtain ⟨d, vs, rfl, hf⟩ := readValue?_array ha hv
      rcases hname.1 with rfl | hnone
      · cases hf with
        | nil => cases hx
        | cons hfirst _ =>
          cases hx
          exact .first ⟨_, ha⟩ (ih hpath' hfirst hrest)
      · simp [Value.child?, hnone] at hx
    | object ho =>
      obtain ⟨_, _, rfl, hq, hread⟩ | ⟨-, d, vs, rfl, hf⟩ := readValue?_object ho hv
      · exact .hidden ho hq ((hr _ _ hread _ hpath).1 hat)
      · obtain ⟨t, ht, hread⟩ := exists_member_of_child? hf hx
        exact .member ⟨_, ho, ht⟩ (ih hpath' hread hrest)

end

theorem at?_readNested?_iff {n : Nat} {s : Source} {v : Value} (hv : readNested? n s = some v)
    (hpath : PlainPath path) : v.at? path = some (.string text) ↔ Reaches text path s := by
  induction n generalizing s v path with
  | zero =>
    have hr : ∀ t v, (none : Option Value) = some v → ∀ path, PlainPath path →
        (v.at? path = some (.string text) ↔ Reaches text path t) := nofun
    exact ⟨reaches_of_at? hr hpath hv, fun h => at?_of_reaches hr hpath h hv⟩
  | succ n ih =>
    have hr : ∀ t v, readNested? n t = some v → ∀ path, PlainPath path →
        (v.at? path = some (.string text) ↔ Reaches text path t) := fun _ _ ht _ hp => ih ht hp
    exact ⟨reaches_of_at? hr hpath hv, fun h => at?_of_reaches hr hpath h hv⟩

/-- What is found at a path in a value stands down the path in the text that it was read from. -/
theorem at?_eq_string_iff {s : Source} {v : Value} (hv : read? s = some v)
    (hpath : PlainPath path) : v.at? path = some (.string text) ↔ Reaches text path s :=
  at?_readNested?_iff hv hpath

end InferenceRecorder.Json
