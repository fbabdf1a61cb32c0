import InferenceRecorder.Settings.Config
import InferenceRecorder.Text.Utf8

/-!
Where a configuration comes from. A place that is named decides alone; otherwise the first of the
usual places where there is anything decides, and where there is nothing the standard values hold.
-/
namespace InferenceRecorder

inductive Content where
  | nothing
  | directory
  | file (bytes : List UInt8)
  deriving DecidableEq, Repr

structure Place where
  path : String
  content : Content
  deriving DecidableEq, Repr

namespace Place

def userPath (home : String) : String := home ++ "/.huginn/config.toml"

def systemPath : String := "/etc/huginn/config.toml"

def isTaken (place : Place) : Bool := place.content != .nothing

def text (place : Place) : Except ConfigFault String :=
  match place.content with
  | .nothing => .error (.fileMissing place.path)
  | .directory => .error (.fileUnreadable place.path .isDirectory)
  | .file bytes =>
    match Utf8.decode? bytes with
    | some text => .ok text
    | none => .error (.fileUnreadable place.path .notText)

def config (place : Place) : Except ConfigFault Config :=
  match place.text with
  | .error fault => .error fault
  | .ok text =>
    match Config.ofText? text with
    | some config => .ok config
    | none => .error (.malformed (some place.path))

end Place

def Config.load (named : Option Place) (usual : List Place) : Except ConfigFault Config :=
  match named with
  | some place => place.config
  | none =>
    match usual.find? Place.isTaken with
    | some place => place.config
    | none => .ok Config.standard

end InferenceRecorder
