import InferenceRecorder.Proofs.Text.Strict
import InferenceRecorder.Settings.Place

/-!
One place settles the configuration. A place that is named settles it whatever else there is, then
the place of the user if there is anything there; what cannot be read, is no text or makes no sense
there is a fault and never sends the search on, and the standard values hold only where there was no
place to look at. A success is what the text of the one file gives: `Config.load_settled`.
-/
namespace InferenceRecorder
variable {place : Place} {text : String} {config : Config}

/-- What stands at a path settles the configuration, or says why there is none. -/
inductive Settles (path : String) : Content → Except ConfigFault Config → Prop where
  | missing : Settles path .nothing (.error (.fileMissing path))
  | directory : Settles path .directory (.error (.fileUnreadable path .isDirectory))
  | notText (bytes : List UInt8) (h : ∀ text, bytes ≠ Utf8.encode text) :
    Settles path (.file bytes) (.error (.fileUnreadable path .notText))
  | refused (text : String) (fault : ConfigFault) (h : Config.parse text = .error fault) :
    Settles path (.file (Utf8.encode text)) (.error (.malformed (some path)))
  | parsed (text : String) (config : Config) (h : Config.parse text = .ok config) :
    Settles path (.file (Utf8.encode text)) (.ok config)

namespace Place

def usual (home : String) (user : Content) : List Place :=
  [⟨userPath home, user⟩, ⟨systemPath, .nothing⟩]

/-- A file is read as its text is, but for where the fault is said to be. -/
theorem config_of_encode (path text : String) :
    Place.config ⟨path, .file (Utf8.encode text)⟩ =
      (Config.parse text).mapError fun _ => .malformed (some path) := by
  have htext : Utf8.decode? (Utf8.encode text) = some text := Utf8.decode?_eq_some_iff.2 rfl
  simp only [Place.config, Place.text, htext, Config.parse]
  cases Config.ofText? text <;> rfl

theorem config_of_notText {path : String} {bytes : List UInt8}
    (h : ∀ text, bytes ≠ Utf8.encode text) :
    Place.config ⟨path, .file bytes⟩ = .error (.fileUnreadable path .notText) := by
  have hnone : Utf8.decode? bytes = none :=
    Option.eq_none_iff_forall_ne_some.2 fun text ht => h text (Utf8.decode?_eq_some_iff.1 ht)
  simp only [Place.config, Place.text, hnone]

/-- What the reading of a place makes of it, and nothing beside that. -/
theorem settles_iff {path : String} {content : Content} {result : Except ConfigFault Config} :
    Settles path content result ↔ Place.config ⟨path, content⟩ = result := by
  constructor
  · intro h
    cases h with
    | missing => rfl
    | directory => rfl
    | notText bytes h => exact config_of_notText h
    | refused text fault h =>
      rw [config_of_encode, h]
      rfl
    | parsed text config h =>
      rw [config_of_encode, h]
      rfl
  · rintro rfl
    cases content with
    | nothing => exact .missing
    | directory => exact .directory
    | file bytes =>
      by_cases h : ∃ text, bytes = Utf8.encode text
      · obtain ⟨text, rfl⟩ := h
        rw [config_of_encode]
        cases hp : Config.parse text with
        | error fault => exact .refused text fault hp
        | ok config => exact .parsed text config hp
      · rw [not_exists] at h
        rw [config_of_notText h]
        exact .notText bytes h

theorem config_eq_ok_iff : place.config = .ok config ↔
    ∃ text, place.content = .file (Utf8.encode text) ∧ Config.parse text = .ok config := by
  obtain ⟨path, content⟩ := place
  rw [← settles_iff]
  constructor
  · intro h
    cases h with
    | parsed text config h => exact ⟨text, rfl, h⟩
  · rintro ⟨text, hc, hp⟩
    obtain rfl : content = _ := hc
    exact .parsed text config hp

end Place

namespace Config
open Place (usual userPath)

theorem load_named (usual : List Place) : Config.load (some place) usual = place.config := rfl

/-- Whatever there is at the place of the user is taken, were it a directory. -/
theorem load_user {user : Content} (home : String) (h : user ≠ .nothing) :
    Config.load none (usual home user) = Place.config ⟨userPath home, user⟩ := by
  have htaken : Place.isTaken ⟨userPath home, user⟩ = true := bne_iff_ne.2 h
  simp only [Config.load, usual, List.find?_cons, htaken]

theorem load_standard (home : String) :
    Config.load none (usual home .nothing) = .ok Config.standard := rfl

/-- A configuration is what the text of the one file gives, or the standard one where there is
nothing. -/
theorem load_eq_ok_iff (named : Option Place) (home : String) (user : Content) :
    Config.load named (usual home user) = .ok config ↔
      (named = none ∧ user = .nothing ∧ config = Config.standard) ∨
        ∃ text, named.elim user Place.content = .file (Utf8.encode text) ∧
          Config.parse text = .ok config := by
  cases named with
  | some place => simp [load_named, Place.config_eq_ok_iff]
  | none =>
    by_cases h : user = .nothing
    · simp [h, load_standard, eq_comm]
    · simp [h, load_user home h, Place.config_eq_ok_iff]

/-- One place settles the configuration: the named one, then that of the user. -/
theorem load_settled (named : Option Place) (home : String) (user : Content) :
    -- a named place settles it alone, and nothing else is asked
    (∀ place ∈ named, Settles place.path place.content (Config.load named (usual home user)) ∧
      ∀ home' user', Config.load named (usual home' user') = Config.load named (usual home user)) ∧
    (named = none → user ≠ .nothing →
      Settles (userPath home) user (Config.load named (usual home user))) ∧
    -- the standard values hold where there is nothing; any other success is the text of the file
    (∀ config, Config.load named (usual home user) = .ok config ↔
      (named = none ∧ user = .nothing ∧ config = Config.standard) ∨
        ∃ text, named.elim user Place.content = .file (Utf8.encode text) ∧
          Config.parse text = .ok config) ∧
    (∀ text, named.elim user Place.content = .file (Utf8.encode text) → ∀ config,
      (Config.load named (usual home user) = .ok config ↔ Config.parse text = .ok config)) := by
  refine ⟨?_, ?_, fun config => load_eq_ok_iff named home user, ?_⟩
  · rintro place rfl
    exact ⟨Place.settles_iff.2 rfl, fun _ _ => rfl⟩
  · rintro rfl huser
    exact Place.settles_iff.2 (load_user home huser).symm
  · intro text hfile config
    have hnothing : ¬(named = none ∧ user = .nothing ∧ config = Config.standard) := by
      rintro ⟨rfl, rfl, -⟩
      cases hfile
    rw [load_eq_ok_iff, hfile]
    constructor
    · rintro (h | ⟨other, hother, hp⟩)
      · exact absurd h hnothing
      · rwa [Utf8.encode_inj (Content.file.inj hother)]
    · exact fun hp => .inr ⟨text, rfl, hp⟩

/-- A named file with a setting; beside it a directory where the user's file should be. -/
theorem load_settled_named_and_user :
    let text := "[recorder]\nhistory_capacity = 5\n"
    Config.load (some ⟨"c.toml", .file (Utf8.encode text)⟩) (usual "/home/m" .directory) =
        .ok ⟨standardAddress, 5, Recorder.standardBackend⟩ ∧
      Config.load (some ⟨"c.toml", .file (Utf8.encode text)⟩) (usual "/home/n" .nothing) =
        Config.load (some ⟨"c.toml", .file (Utf8.encode text)⟩) (usual "/home/m" .directory) ∧
      Settles (userPath "/home/m") .directory
        (Config.load none (usual "/home/m" .directory)) ∧
      Config.load none (usual "/home/m" (.file (Utf8.encode text))) =
        .ok ⟨standardAddress, 5, Recorder.standardBackend⟩ := by
  intro text
  have hparse : Config.parse text = .ok ⟨standardAddress, 5, Recorder.standardBackend⟩ := by
    decide +kernel
  have hnamed := load_settled (some ⟨"c.toml", .file (Utf8.encode text)⟩) "/home/m" .directory
  have hdirectory := load_settled none "/home/m" .directory
  have hfile := load_settled none "/home/m" (.file (Utf8.encode text))
  exact ⟨(hnamed.2.2.2 text rfl _).2 hparse, (hnamed.1 _ rfl).2 _ _, hdirectory.2.1 rfl nofun,
    (hfile.2.2.2 text rfl _).2 hparse⟩

end Config
end InferenceRecorder
