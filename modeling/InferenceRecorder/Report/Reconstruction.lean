import InferenceRecorder.Report.Count
import InferenceRecorder.Report.Notice

/-!
What reconstructing a stream leaves in the counters and in the log.
-/
namespace InferenceRecorder.Stream.Reconstruction

def counts (r : Reconstruction) : List Count := [.streamReconstructed r.outcome]

def notices (r : Reconstruction) : List Notice :=
  if 0 < r.skipped then [.chunksSkipped r.skipped] else []

end InferenceRecorder.Stream.Reconstruction
