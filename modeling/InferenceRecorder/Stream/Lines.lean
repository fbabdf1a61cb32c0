/-!
Event streams as text. A stream is made of lines; a line that starts with `data: ` carries a
payload, and the payload `[DONE]` ends the stream.
-/
namespace InferenceRecorder.Stream

def lines (s : List Char) : List (List Char) :=
  match _h : s.dropWhile (· != '\n') with
  | [] => [s]
  | _ :: rest => s.takeWhile (· != '\n') :: lines rest
termination_by s.length
decreasing_by
  have h := (List.dropWhile_suffix (l := s) (· != '\n')).length_le
  rw [_h] at h
  simp only [List.length_cons] at h
  omega

def trimReturn (line : List Char) : List Char :=
  if line.getLast? = some '\r' then line.dropLast else line

def dataMarker : List Char := ['d', 'a', 't', 'a', ':', ' ']

def doneMarker : List Char := ['[', 'D', 'O', 'N', 'E', ']']

def after? : List Char → List Char → Option (List Char)
  | [], s => some s
  | _ :: _, [] => none
  | c :: start, d :: s => if c = d then after? start s else none

def payload? (line : List Char) : Option (List Char) := after? dataMarker (trimReturn line)

def payloads (s : List Char) : List (List Char) :=
  ((lines s).filterMap payload?).takeWhile (· != doneMarker)

def mentions (marker : List Char) : List Char → Bool
  | [] => marker.isEmpty
  | c :: s => marker.isPrefixOf (c :: s) || mentions marker s

/-- A body is taken for an event stream when it mentions the marker of a payload anywhere. -/
def isEventStream (body : String) : Bool := mentions dataMarker body.toList

end InferenceRecorder.Stream
