import NovelScript.Listing
import NovelScript.Main
import NovelScript.Playback
import NovelScript.Proofs.Expression.Reading
import NovelScript.Proofs.Expression.Conditions
import NovelScript.Proofs.Machine.GoingOn
import NovelScript.Proofs.Machine.Returning
import NovelScript.Proofs.Machine.Saving
import NovelScript.Proofs.Script.LoopEnd
import NovelScript.Proofs.Script.LoopSearch
import NovelScript.Proofs.Listing
import NovelScript.Proofs.Strictness.Calls
import NovelScript.Proofs.Machine.Relocating
import NovelScript.Proofs.Store.Memory
import NovelScript.Proofs.Machine.Addresses
import NovelScript.Proofs.Decimal
import NovelScript.Proofs.NameLog
import NovelScript.Proofs.Machine.Logs
import NovelScript.Proofs.Grid
import NovelScript.Proofs.Machine.Limits
import NovelScript.Proofs.Save.Frames
import NovelScript.Proofs.Shape
import NovelScript.Proofs.Machine.Shape
import NovelScript.Proofs.Text.Characters
import NovelScript.Proofs.Script.Boundary
import NovelScript.Proofs.Operand.Scanning
import NovelScript.Proofs.Operand.Bounds
import NovelScript.Proofs.Store.Texts
import NovelScript.Proofs.Machine.Intact
import NovelScript.Proofs.Machine.Uncut
import NovelScript.Proofs.Machine.Naming
import NovelScript.Proofs.Records.Commands
import NovelScript.Proofs.Records.Alike
import NovelScript.Proofs.Records.Steps
import NovelScript.Proofs.Records.Calls
import NovelScript.Proofs.Store.Reset
import NovelScript.Proofs.Machine.Forgetting
import NovelScript.Proofs.Machine.Visits
import NovelScript.Proofs.LineReaders
import NovelScript.Proofs.Script.Locality
import NovelScript.Proofs.Counter
import NovelScript.Proofs.Machine.Places
import NovelScript.Proofs.Machine.Looping
import NovelScript.Proofs.Machine.LeavingLoop
import NovelScript.Proofs.Machine.Assigning
import NovelScript.Proofs.Machine.Restored
import NovelScript.Proofs.Machine.Conditions
import NovelScript.Proofs.Store.Globals
import NovelScript.Proofs.Grid.Elements
import NovelScript.Proofs.Label.Indexes
import NovelScript.Proofs.Machine.Resolving
import NovelScript.Proofs.TextRun.ClickMarkers
import NovelScript.Proofs.TextRun.Interpolation
import NovelScript.Proofs.TextRun.Blocks
import NovelScript.Proofs.TextRun.SameMarkup
import NovelScript.Proofs.Machine.SplitParams
import NovelScript.Proofs.Machine.FailedSteps
import NovelScript.Proofs.Machine.SkippedOperands
import NovelScript.Proofs.Machine.Starting
import NovelScript.Proofs.Text.Slices
import NovelScript.Proofs.Text.Numerals
import NovelScript.Proofs.Script.Sources
import NovelScript.Proofs.Machine.Rounds
