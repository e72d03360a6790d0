import StackMaps.Register
import StackMaps.Architecture
import StackMaps.Fault
import StackMaps.Walk
import StackMaps.Text
import StackMaps.Kind
import StackMaps.Location
import StackMaps.Register.Set
import StackMaps.Catalog
import StackMaps.Convention
import StackMaps.Convention.Binding
import StackMaps.Convention.Targets
import StackMaps.Handle
import StackMaps.Record
import StackMaps.BitSet
import StackMaps.Bitmap
import StackMaps.ReferenceMap
import StackMaps.Contract
import StackMaps.Failure
import StackMaps.Table
import StackMaps.Method
import StackMaps.Method.History
import StackMaps.Listing
import StackMaps.Snapshot
import StackMaps.Wire
import StackMaps.Sample.Source
import StackMaps.Sample
import StackMaps.Inspect
import StackMaps.Trace
import StackMaps.Main
import StackMaps.Proofs.Steps
import StackMaps.Proofs.LowestBits
import StackMaps.Proofs.FiniteSets
import StackMaps.Proofs.Bits
import StackMaps.Proofs.Tables
import StackMaps.Proofs.Placing
import StackMaps.Proofs.Drawing
import StackMaps.Proofs.Checking
import StackMaps.Proofs.Agreement
import StackMaps.Proofs.Histories
import StackMaps.Proofs.Growth
import StackMaps.Proofs.Finishing
import StackMaps.Proofs.Precision
import StackMaps.Proofs.Refusals
import StackMaps.Proofs.Stored
import StackMaps.Proofs.Replay
import StackMaps.Proofs.Compiling
import StackMaps.Proofs.RoundTrip
import StackMaps.Proofs.Numbering
import StackMaps.Proofs.Decisions
import StackMaps.Proofs.FreshSlots
import StackMaps.Proofs.Validation
import StackMaps.Proofs.Apartness
import StackMaps.Proofs.Draws
import StackMaps.Proofs.Sampling
import StackMaps.Proofs.Tracing
import StackMaps.Proofs.LiveSets
import StackMaps.Proofs.Reporting
import StackMaps.Proofs.Reading
import StackMaps.Proofs.Codec
import StackMaps.Proofs.SpillRanges
import StackMaps.Proofs.Catalogs
import StackMaps.Proofs.RegisterSets
import StackMaps.Proofs.Consistency
