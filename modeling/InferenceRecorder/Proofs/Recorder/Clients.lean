import InferenceRecorder.Proofs.Recorder.Locality
import InferenceRecorder.Proofs.Recorder.Window

/-!
Clients of one recorder. A client whose calls have keys of their own does not notice the others: it
gets the replies that it would get alone, and finds under its keys what it would find alone. So the
order in which such clients come does not matter, and two responses to different requests may come
in either order whoever brings them: `clients_commute`.
-/
namespace InferenceRecorder

structure Roster.Same (a b : Roster History) : Prop where
  normalize : a.normalize = b.normalize
  held : ∀ key, a.entries.lookup key = b.entries.lookup key
  shown : ∀ key, a.spellings.lookup key = b.spellings.lookup key
  entries : a.entries.Perm b.entries
  spellings : a.spellings.Perm b.spellings

theorem Roster.Same.of_lookup {a b : Roster History} (hn : a.normalize = b.normalize)
    (he : ∀ key, a.entries.lookup key = b.entries.lookup key)
    (hs : ∀ key, a.spellings.lookup key = b.spellings.lookup key)
    (hae : a.entries.keys.Nodup) (hbe : b.entries.keys.Nodup)
    (has : a.spellings.keys.Nodup) (hbs : b.spellings.keys.Nodup) : a.Same b :=
  ⟨hn, he, hs, Table.perm_of_lookup hae hbe he, Table.perm_of_lookup has hbs hs⟩

namespace Captured

def fill (came : Captured) (id : String) (h : History) : History :=
  (h.answer? id came.response came.status).getD h

theorem fill_comm {id id' : String} (hid : id ≠ id') (came came' : Captured) (h : History) :
    came'.fill id' (came.fill id h) = came.fill id (came'.fill id' h) := by
  simp only [fill, History.answer?_comm hid]
  cases h.answer? id' came'.response came'.status <;> rfl

end Captured

abbrev Turn (ι : Type) := ι × Operation

section
variable {ι : Type} [DecidableEq ι]

def callsOf (client : ι) (turns : List (Turn ι)) : List Operation :=
  (turns.filter fun turn => turn.1 = client).map Prod.snd

def Interleaves (calls : ι → List Operation) (turns : List (Turn ι)) : Prop :=
  ∀ client, callsOf client turns = calls client

def Owns (normalize : Normalizer) (backend : String) (ops : List Operation) (key : Runner) : Prop :=
  ∃ op ∈ ops, op.key? normalize backend = some key

def Apart (normalize : Normalizer) (backend : String) (calls : ι → List Operation) : Prop :=
  ∀ key client other, Owns normalize backend (calls client) key →
    Owns normalize backend (calls other) key → client = other

theorem Interleaves.mem {calls : ι → List Operation} {turns : List (Turn ι)}
    (h : Interleaves calls turns) {turn : Turn ι} (hm : turn ∈ turns) :
    turn.2 ∈ calls turn.1 := by
  rw [← h turn.1]
  exact List.mem_map_of_mem (List.mem_filter.2 ⟨hm, by simp⟩)

end

namespace Recorder

def replies (r : Recorder) (ops : List Operation) : List (Option Reply) :=
  (r.reports ops).map Report.result

def repliesTo {ι : Type} [DecidableEq ι] (r : Recorder) (client : ι) (turns : List (Turn ι)) :
    List (Option Reply) :=
  ((turns.zip (r.replies (turns.map Prod.snd))).filter fun t => t.1.1 = client).map Prod.snd

variable {r s : Recorder} {own : Runner → Prop}

theorem AgreeOn.run_other (r : Recorder) {ops : List Operation}
    (hk : ∀ op ∈ ops, ∀ key, op.key? r.roster.normalize r.backend = some key → ¬own key) :
    AgreeOn own (r.run ops) r := by
  induction ops generalizing r with
  | nil => exact .refl own r
  | cons op ops ih =>
    have hfirst : AgreeOn own (r.step op).recorder r :=
      .step_other own r (hk op List.mem_cons_self)
    rw [run_cons]
    refine (ih _ fun op hm => ?_).trans hfirst
    rw [hfirst.normalize, hfirst.backend]
    exact hk op (List.mem_cons_of_mem _ hm)

section
variable {ι : Type} [DecidableEq ι]

/-- A client to whom all calls with these keys belong, and no others, fares as it would alone. -/
theorem AgreeOn.alone {client : ι} {turns : List (Turn ι)} (h : AgreeOn own r s)
    (hup : ∀ turn ∈ turns, turn.2.isUpdate)
    (hown : ∀ turn ∈ turns, ∀ key, turn.2.key? r.roster.normalize r.backend = some key →
      (own key ↔ turn.1 = client)) :
    r.repliesTo client turns = s.replies (callsOf client turns) ∧
      AgreeOn own (r.run (turns.map Prod.snd)) (s.run (callsOf client turns)) := by
  induction turns generalizing r s with
  | nil => exact ⟨rfl, h⟩
  | cons turn turns ih =>
    obtain ⟨who, op⟩ := turn
    have hop : op.isUpdate := hup _ List.mem_cons_self
    have hup' : ∀ turn ∈ turns, turn.2.isUpdate := fun turn hm =>
      hup turn (List.mem_cons_of_mem _ hm)
    have hsetup := r.step_makes op
    have hown' : ∀ turn ∈ turns, ∀ key,
        turn.2.key? (r.step op).recorder.roster.normalize (r.step op).recorder.backend = some key →
          (own key ↔ turn.1 = client) := by
      rw [hsetup.normalize, hsetup.backend]
      exact fun turn hm => hown turn (List.mem_cons_of_mem _ hm)
    by_cases hc : who = client
    · have hk : ∀ key, op.key? r.roster.normalize r.backend = some key → own key :=
        fun key hkey => (hown _ List.mem_cons_self key hkey).2 hc
      obtain ⟨hreplies, hagree⟩ := ih (h.step hop hk) hup' hown'
      have hcalls : callsOf client ((who, op) :: turns) = op :: callsOf client turns := by
        simp [callsOf, hc]
      rw [hcalls, List.map_cons, run_cons, run_cons]
      refine ⟨?_, hagree⟩
      simpa [repliesTo, replies, reports, hc, h.result hop hk] using hreplies
    · have hk : ∀ key, op.key? r.roster.normalize r.backend = some key → ¬own key :=
        fun key hkey hheld => hc ((hown _ List.mem_cons_self key hkey).1 hheld)
      obtain ⟨hreplies, hagree⟩ := ih ((AgreeOn.step_other own r hk).trans h) hup' hown'
      have hcalls : callsOf client ((who, op) :: turns) = callsOf client turns := by
        simp [callsOf, hc]
      rw [hcalls, List.map_cons, run_cons]
      refine ⟨?_, hagree⟩
      simpa [repliesTo, replies, reports, hc] using hreplies

variable {calls : ι → List Operation} {turns turns' : List (Turn ι)}

/-- Each client fares as it would alone. -/
theorem alone_of_interleaves (r : Recorder) (hup : ∀ client, ∀ op ∈ calls client, op.isUpdate)
    (hapart : Apart r.roster.normalize r.backend calls) (ht : Interleaves calls turns)
    (client : ι) : r.repliesTo client turns = r.replies (calls client) ∧
      AgreeOn (Owns r.roster.normalize r.backend (calls client)) (r.run (turns.map Prod.snd))
        (r.run (calls client)) := by
  rw [← ht client]
  refine (AgreeOn.refl _ r).alone (fun turn hm => hup turn.1 _ (ht.mem hm)) ?_
  intro turn hm key hkey
  rw [ht client]
  have howns : Owns r.roster.normalize r.backend (calls turn.1) key := ⟨_, ht.mem hm, hkey⟩
  exact ⟨fun h => hapart key _ _ howns h, fun h => h ▸ howns⟩

/-- What two orders of the turns come to is looked up alike under every key: a key belongs to one
client, or to none and is never touched. -/
theorem agree_of_interleaves (r : Recorder) (hup : ∀ client, ∀ op ∈ calls client, op.isUpdate)
    (hapart : Apart r.roster.normalize r.backend calls) (ht : Interleaves calls turns)
    (ht' : Interleaves calls turns') (key : Runner) :
    AgreeOn (· = key) (r.run (turns.map Prod.snd)) (r.run (turns'.map Prod.snd)) := by
  by_cases hc : ∃ client, Owns r.roster.normalize r.backend (calls client) key
  · obtain ⟨client, howns⟩ := hc
    obtain ⟨-, h⟩ := r.alone_of_interleaves hup hapart ht client
    obtain ⟨-, h'⟩ := r.alone_of_interleaves hup hapart ht' client
    exact (h.trans h'.symm).mono fun other ho => ho ▸ howns
  · have huntouched : ∀ turns : List (Turn ι), Interleaves calls turns →
        AgreeOn (· = key) (r.run (turns.map Prod.snd)) r := by
      intro turns ht
      refine .run_other r fun op hm other hkey ho => hc ?_
      obtain ⟨turn, hturn, rfl⟩ := List.mem_map.1 hm
      exact ⟨turn.1, turn.2, ht.mem hturn, ho ▸ hkey⟩
    exact (huntouched turns ht).trans (huntouched turns' ht').symm

end

variable (r)

/-- A response is filled in under its key, as far as there is something to fill. -/
theorem lookup_respond (id : String) (runner : Runner) (came : Captured) (key : Runner) :
    (r.respond id runner came).recorder.roster.entries.lookup key =
      if runner.normal? r.roster.normalize = some key then
        (r.roster.entries.lookup key).map (came.fill id)
      else r.roster.entries.lookup key := by
  obtain ⟨hk, hr⟩ | ⟨own, hk, ⟨ha, notice, -, hr⟩ | ⟨h', ha, hr⟩⟩ := r.respond_cases id runner came
  · rw [hr r.poisoned, hk]
    rfl
  · rw [hr r.poisoned, hk]
    split_ifs with ho
    · obtain rfl := Option.some.inj ho
      cases hl : r.roster.entries.lookup own with
      | none => rfl
      | some h =>
        rw [hl, Option.bind_some] at ha
        rw [Option.map_some, Captured.fill, ha, Option.getD_none]
    · rfl
  · obtain ⟨h, hl, hh⟩ := Option.bind_eq_some_iff.1 ha
    rw [hr r.poisoned, hk, Table.lookup_put]
    simp only [Option.some.injEq]
    split_ifs with ho
    · subst ho
      rw [hl, Option.map_some, Captured.fill, hh, Option.getD_some]
    · rfl

theorem result_respond (id : String) (runner : Runner) (came : Captured) :
    (r.respond id runner came).result = (runner.normal? r.roster.normalize).map fun key =>
      ((r.roster.entries.lookup key).bind
        (History.answer? id came.response came.status)).isSome := by
  obtain ⟨hk, hr⟩ | ⟨own, hk, ⟨ha, notice, -, hr⟩ | ⟨h', ha, hr⟩⟩ := r.respond_cases id runner came
  · rw [hr r.poisoned, hk]
    rfl
  · rw [hr r.poisoned, hk, Option.map_some, ha]
    rfl
  · rw [hr r.poisoned, hk, Option.map_some, ha]
    rfl

theorem normalize_respond (id : String) (runner : Runner) (came : Captured) :
    (r.respond id runner came).recorder.roster.normalize = r.roster.normalize :=
  (r.respond_makes id runner came).normalize

variable {id id' : String}

/-- A response to another request makes no difference to what a response comes to. -/
theorem result_respond_after (hid : id ≠ id') (runner runner' : Runner) (came came' : Captured) :
    ((r.respond id runner came).recorder.respond id' runner' came').result =
      (r.respond id' runner' came').result := by
  rw [result_respond, result_respond, normalize_respond]
  refine Option.map_congr fun key _ => ?_
  rw [lookup_respond]
  split_ifs with hk
  · cases r.roster.entries.lookup key with
    | none => rfl
    | some h =>
      simp only [Option.map_some, Option.bind_some, Captured.fill, History.answer?_comm hid,
        Option.isSome_map]
  · rfl

theorem lookup_respond_swap (hid : id ≠ id') (runner runner' : Runner) (came came' : Captured)
    (key : Runner) :
    ((r.respond id runner came).recorder.respond id' runner' came').recorder.roster.entries.lookup
        key =
      ((r.respond id' runner' came').recorder.respond id runner came).recorder.roster.entries.lookup
        key := by
  simp only [lookup_respond, normalize_respond]
  split_ifs
  · rw [Option.map_map, Option.map_map]
    exact Option.map_congr fun h _ => Captured.fill_comm hid came came' h
  all_goals rfl

theorem nodup_respond (id : String) (runner : Runner) (came : Captured)
    (h : r.roster.entries.keys.Nodup) :
    (r.respond id runner came).recorder.roster.entries.keys.Nodup :=
  (r.respond_makes id runner came).keys h

theorem same_respond_swap (hid : id ≠ id') (runner runner' : Runner) (came came' : Captured)
    (he : r.roster.entries.keys.Nodup) (hs : r.roster.spellings.keys.Nodup) :
    ((r.respond id runner came).recorder.respond id' runner' came').recorder.roster.Same
      ((r.respond id' runner' came').recorder.respond id runner came).recorder.roster := by
  refine .of_lookup ?_ (r.lookup_respond_swap hid runner runner' came came') (fun key => ?_)
    (nodup_respond _ _ _ _ (r.nodup_respond _ _ _ he))
    (nodup_respond _ _ _ _ (r.nodup_respond _ _ _ he)) ?_ ?_
  · rw [normalize_respond, normalize_respond, normalize_respond, normalize_respond]
  all_goals rw [spellings_respond, spellings_respond]
  · rw [spellings_respond, spellings_respond]
  · exact hs
  · exact hs

theorem same_of_interleaves {ι : Type} [DecidableEq ι] {calls : ι → List Operation}
    {turns turns' : List (Turn ι)} (hup : ∀ client, ∀ op ∈ calls client, op.isUpdate)
    (hapart : Apart r.roster.normalize r.backend calls) (ht : Interleaves calls turns)
    (ht' : Interleaves calls turns') (he : r.roster.entries.keys.Nodup)
    (hs : r.roster.spellings.keys.Nodup) :
    (r.run (turns.map Prod.snd)).roster.Same (r.run (turns'.map Prod.snd)).roster := by
  have hagree := r.agree_of_interleaves hup hapart ht ht'
  refine .of_lookup ?_ (fun key => (hagree key).entries key rfl)
    (fun key => (hagree key).spellings key rfl) (run_keys _ he) (run_keys _ he)
    (nodup_spellings_run _ hs) (nodup_spellings_run _ hs)
  rw [(run_setup r _).1, (run_setup r _).1]

/-- Clients whose calls change things under keys of their own commute: whatever was called before,
any two orders of their turns come to the same store, and give each client the replies that it would
get alone. Two responses with different ids commute even under one key. -/
theorem clients_commute (normalize : Normalizer) (capacity : Nat) (backend : String)
    (before : List Operation) :
    let r := (Recorder.empty normalize capacity backend).run before
    (∀ (ι : Type) [DecidableEq ι] (calls : ι → List Operation),
      (∀ client, ∀ op ∈ calls client, op.isUpdate) → Apart normalize backend calls →
      ∀ turns, Interleaves calls turns → ∀ turns', Interleaves calls turns' →
        (r.run (turns.map Prod.snd)).roster.Same (r.run (turns'.map Prod.snd)).roster ∧
        ∀ client, r.repliesTo client turns = r.repliesTo client turns' ∧
          r.repliesTo client turns = r.replies (calls client)) ∧
    ∀ id id' runner runner' came came', id ≠ id' →
      let one := r.respond id runner came
      let other := r.respond id' runner' came'
      (one.recorder.respond id' runner' came').recorder.roster.Same
          (other.recorder.respond id runner came).recorder.roster ∧
        (one.recorder.respond id' runner' came').result = other.result ∧
        (other.recorder.respond id runner came).result = one.result := by
  intro r
  have hsetup := run_setup (Recorder.empty normalize capacity backend) before
  have hentries : r.roster.entries.keys.Nodup := run_keys _ .nil
  have hspellings : r.roster.spellings.keys.Nodup := nodup_spellings_run _ .nil
  constructor
  · intro ι _ calls hup hapart turns ht turns' ht'
    have hapart : Apart r.roster.normalize r.backend calls := by
      rw [hsetup.1, hsetup.2.2]
      exact hapart
    refine ⟨r.same_of_interleaves hup hapart ht ht' hentries hspellings, fun client => ?_⟩
    have halone := (r.alone_of_interleaves hup hapart ht client).1
    have halone' := (r.alone_of_interleaves hup hapart ht' client).1
    exact ⟨halone.trans halone'.symm, halone⟩
  · intro id id' runner runner' came came' hid
    exact ⟨r.same_respond_swap hid runner runner' came came' hentries hspellings,
      r.result_respond_after hid runner runner' came came',
      r.result_respond_after hid.symm runner' runner came' came⟩

def initial : Normalizer := fun model => some (String.ofList (model.toList.take 1))

def twoClients : Bool → List Operation
  | false => [ask "a1" 1, .remove "a2"]
  | true => [ask "b1" 2,
      .respond "b1_1704110400000000002" ⟨"b", "b2", .completion⟩ ⟨[111, 107], 200⟩]

def mixed : List (Turn Bool) :=
  [(true, ask "b1" 2), (false, ask "a1" 1),
    (true, .respond "b1_1704110400000000002" ⟨"b", "b2", .completion⟩ ⟨[111, 107], 200⟩),
    (false, .remove "a2")]

def inTurn : List (Turn Bool) :=
  (twoClients false).map (false, ·) ++ (twoClients true).map (true, ·)

theorem apart_twoClients : Apart initial "b" twoClients := by
  have hmodel : ∀ client key, Owns initial "b" (twoClients client) key →
      key.model = if client then "b" else "a" := by
    rintro (_ | _) key ⟨op, hm, hk⟩
    all_goals
      rcases List.mem_cons.1 hm with rfl | hm
      · exact Option.some.inj hk ▸ by decide
      · obtain rfl := List.mem_singleton.1 hm
        exact Option.some.inj hk ▸ by decide
  intro key client other hc ho
  have hc := hmodel client key hc
  have ho := hmodel other key ho
  cases client <;> cases other <;> simp_all

theorem clients_commute_mixed :
    let r := (Recorder.empty initial 1 "b").run [ask "a0" 0]
    (∀ client, ∀ op ∈ twoClients client, op.isUpdate) ∧ Apart initial "b" twoClients ∧
    Interleaves twoClients mixed ∧ Interleaves twoClients inTurn ∧
    (r.run (mixed.map Prod.snd)).roster.Same (r.run (inTurn.map Prod.snd)).roster ∧
    r.repliesTo false mixed = [some (.captured "a1_1704110400000000001"), some (.removed true)] ∧
    r.repliesTo false mixed = r.repliesTo false inTurn ∧
    "a0_1704110400000000000" ≠ "b" ∧
    let other := r.respond "b" ⟨"b", "a0", .completion⟩ ⟨[], 500⟩
    (other.recorder.respond "a0_1704110400000000000" ⟨"b", "a", .completion⟩ ⟨[], 200⟩).result =
      some true := by
  intro r
  have hup : ∀ client, ∀ op ∈ twoClients client, op.isUpdate := by
    rintro (_ | _) op hm
    all_goals
      rcases List.mem_cons.1 hm with rfl | hm
      · rfl
      · obtain rfl := List.mem_singleton.1 hm
        rfl
  have hmixed : Interleaves twoClients mixed := by rintro (_ | _) <;> rfl
  have hinTurn : Interleaves twoClients inTurn := by rintro (_ | _) <;> rfl
  have hid : "a0_1704110400000000000" ≠ "b" := by decide
  obtain ⟨hclients, hresponses⟩ := clients_commute initial 1 "b" [ask "a0" 0]
  obtain ⟨hsame, hreplies⟩ :=
    hclients Bool twoClients hup apart_twoClients mixed hmixed inTurn hinTurn
  obtain ⟨-, -, hresult⟩ := hresponses _ _ ⟨"b", "a", .completion⟩ ⟨"b", "a0", .completion⟩
    ⟨[], 200⟩ ⟨[], 500⟩ hid
  refine ⟨hup, apart_twoClients, hmixed, hinTurn, hsame, ?_, (hreplies false).1, hid, ?_⟩
  · rw [(hreplies false).2]
    decide +kernel
  · exact hresult.trans (by decide +kernel)

end Recorder
end InferenceRecorder
