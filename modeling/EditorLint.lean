import EditorLint.CommandLine.Run
import EditorLint.Debounce.Scripted
import EditorLint.Editor.Wire
import EditorLint.Main
import EditorLint.Provider.Batch
import EditorLint.Session.Server
import EditorLint.Text.Lines
import EditorLint.Proofs.Agenda
import EditorLint.Proofs.Debounce.Coherence
import EditorLint.Proofs.Debounce.Worlds
import EditorLint.Proofs.Debounce.Coherence.Lock
import EditorLint.Proofs.Debounce.Coherence.Task
import EditorLint.Proofs.Debounce.Coherence.Turn
import EditorLint.Proofs.Debounce.Quiet
import EditorLint.Proofs.Session.World
import EditorLint.Proofs.Session.Host
import EditorLint.Proofs.Debounce.Clock
import EditorLint.Proofs.Session.Run
import EditorLint.Proofs.Editor.Diagnostic
import EditorLint.Proofs.Session.Memory
import EditorLint.Proofs.Adapter
import EditorLint.Proofs.Debounce.Stages
import EditorLint.Proofs.Session.Documents
import EditorLint.Proofs.Editor.CodeAction
import EditorLint.Proofs.Editor.WorkspaceEdit
import EditorLint.Proofs.Session.Provenance
import EditorLint.Proofs.Session.FixAll
import EditorLint.Proofs.Session.FixAllFiles
import EditorLint.Proofs.Session.Overlap
import EditorLint.Proofs.Session.QuickFix
import EditorLint.Proofs.Debounce.Deadlines
import EditorLint.Proofs.Debounce.Duties
import EditorLint.Proofs.Debounce.Duties.Steps
import EditorLint.Proofs.Debounce.Duties.Turn
import EditorLint.Proofs.Debounce.Waiting
import EditorLint.Proofs.Debounce.Line
import EditorLint.Proofs.Debounce.Exclusion
import EditorLint.Proofs.Debounce.Calls
import EditorLint.Proofs.Session.Client
import EditorLint.Proofs.Session.Convergence
import EditorLint.Proofs.Session.Undertaking
import EditorLint.Proofs.Session.Closing
import EditorLint.Proofs.Debounce.Calm
import EditorLint.Proofs.Debounce.Chronicle
import EditorLint.Proofs.Debounce.Requests
import EditorLint.Proofs.Debounce.Acts
import EditorLint.Proofs.Debounce.Isolation
import EditorLint.Proofs.Debounce.Scripted
import EditorLint.Proofs.Debounce.Timing
import EditorLint.Proofs.Debounce.Punctuality
import EditorLint.Proofs.Finding
import EditorLint.Proofs.Tool.Process
import EditorLint.Proofs.Adapter.Contract
import EditorLint.Proofs.Session.SettingsInForce
import EditorLint.Proofs.Session.SettingsAtStart
import EditorLint.Proofs.Provider.Batch
import EditorLint.Proofs.Provider.Independence
import EditorLint.Proofs.Debounce.Past
import EditorLint.Proofs.Session.Bygone
import EditorLint.Proofs.Session.Residue
import EditorLint.Proofs.Fix.Greedy
import EditorLint.Proofs.Fix.Repeated
import EditorLint.Proofs.Fix.Reordered
import EditorLint.Proofs.Fix.Data
import EditorLint.Proofs.Json.RoundTrip
import EditorLint.Proofs.Editor.Wire
import EditorLint.Proofs.Editor.FixJourney
import EditorLint.Proofs.Glob
import EditorLint.Proofs.Glob.Plain
import EditorLint.Proofs.Finding.Grammar
import EditorLint.Proofs.Editor.Forward
import EditorLint.Proofs.Editor.Bundling
import EditorLint.Proofs.Settings.Payload
import EditorLint.Proofs.Settings.Warnings
import EditorLint.Proofs.Editor.KindFilter
import EditorLint.Proofs.CommandLine.Occurrences
import EditorLint.Proofs.Log.SetUp
