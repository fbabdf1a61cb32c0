import InferenceRecorder.Calendar.Instant
import InferenceRecorder.Calendar.Timestamp
import InferenceRecorder.Error
import InferenceRecorder.Http.Form
import InferenceRecorder.Http.Request
import InferenceRecorder.Http.Router
import InferenceRecorder.Http.Uri
import InferenceRecorder.Json.Fields
import InferenceRecorder.Json.Grammar
import InferenceRecorder.Json.Members
import InferenceRecorder.Json.Number
import InferenceRecorder.Json.Quoted
import InferenceRecorder.Json.Source
import InferenceRecorder.Json.Value
import InferenceRecorder.Net.SocketAddress
import InferenceRecorder.Numeral.Binary64
import InferenceRecorder.Numeral.Digits
import InferenceRecorder.Numeral.Shortest
import InferenceRecorder.Record.BackendConfig
import InferenceRecorder.Record.Document
import InferenceRecorder.Record.Exchange
import InferenceRecorder.Recorder.Basic
import InferenceRecorder.Recorder.Calls
import InferenceRecorder.Recorder.Session
import InferenceRecorder.Report.Count
import InferenceRecorder.Report.Notice
import InferenceRecorder.Report.Reconstruction
import InferenceRecorder.Runner.Basic
import InferenceRecorder.Runner.Mode
import InferenceRecorder.Runner.Roster
import InferenceRecorder.Settings.Config
import InferenceRecorder.Settings.Place
import InferenceRecorder.Stream.Chunk
import InferenceRecorder.Stream.Completion
import InferenceRecorder.Stream.Lines
import InferenceRecorder.Table
import InferenceRecorder.Tap.Basic
import InferenceRecorder.Tap.MemorySink
import InferenceRecorder.Tap.Sink
import InferenceRecorder.Text.Blank
import InferenceRecorder.Text.Hidden
import InferenceRecorder.Text.Quoted
import InferenceRecorder.Text.Reading
import InferenceRecorder.Text.Utf8
import InferenceRecorder.Toml.Document
import InferenceRecorder.Toml.Number
import InferenceRecorder.Toml.Text
import InferenceRecorder.Toml.Value
import InferenceRecorder.Proofs.Recorder.Changes
import InferenceRecorder.Proofs.Record.History
import InferenceRecorder.Proofs.Recorder.Window
import InferenceRecorder.Proofs.Recorder.Correlation
import InferenceRecorder.Proofs.Json.Compact
import InferenceRecorder.Proofs.Json.Reading
import InferenceRecorder.Proofs.Stream.Lines
import InferenceRecorder.Proofs.Stream.RoundTrip
import InferenceRecorder.Proofs.Runner.PlainMap
import InferenceRecorder.Proofs.Runner.Unmade
import InferenceRecorder.Proofs.Recorder.Failure
import InferenceRecorder.Proofs.Text.Cut
import InferenceRecorder.Proofs.Tap.Layers
import InferenceRecorder.Proofs.Stream.Noise
import InferenceRecorder.Proofs.Recorder.Delivery
import InferenceRecorder.Proofs.Stream.Outcome
import InferenceRecorder.Proofs.Stream.Chunked
import InferenceRecorder.Proofs.Stream.Interruption
import InferenceRecorder.Proofs.Recorder.Clients
import InferenceRecorder.Proofs.Recorder.Names
import InferenceRecorder.Proofs.Recorder.Conservation
import InferenceRecorder.Proofs.Numeral.Shortest
import InferenceRecorder.Proofs.Json.Fields
import InferenceRecorder.Proofs.Calendar.Timestamp
import InferenceRecorder.Proofs.Record.Document
import InferenceRecorder.Proofs.Http.Form
import InferenceRecorder.Proofs.Recorder.Contents
import InferenceRecorder.Proofs.Http.Records
import InferenceRecorder.Proofs.Recorder.Waiting
import InferenceRecorder.Proofs.Stream.FirstChoice
import InferenceRecorder.Proofs.Runner.Order
import InferenceRecorder.Proofs.Http.Agreement
import InferenceRecorder.Proofs.Json.Replacement
import InferenceRecorder.Proofs.Stream.Fragment
import InferenceRecorder.Proofs.Stream.Finish
import InferenceRecorder.Proofs.Stream.SameChoice
import InferenceRecorder.Proofs.Recorder.Overview
import InferenceRecorder.Proofs.Recorder.Room
import InferenceRecorder.Proofs.Text.Strict
import InferenceRecorder.Proofs.Settings.Place
import InferenceRecorder.Proofs.Json.Reach
