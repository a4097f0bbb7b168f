import Freestanding.Call
import Freestanding.Heap.Layout
import Freestanding.Heap.Loops
import Freestanding.Heap.Tiling
import Freestanding.Log.Replay
import Freestanding.Main
import Freestanding.Proofs.Header
import Freestanding.Proofs.Log
import Freestanding.Proofs.Joins
import Freestanding.Proofs.Heap.Representation
import Freestanding.Proofs.Heap.Frame
import Freestanding.Proofs.Heap.Allocation
import Freestanding.Proofs.Heap.Release
import Freestanding.Proofs.Heap.Payload
import Freestanding.Proofs.Heap.Effect
import Freestanding.Proofs.Heap.Footprint
import Freestanding.Proofs.Heap.Refinement
import Freestanding.Proofs.Heap.Tiling
import Freestanding.Proofs.Heap.Canonical
import Freestanding.Proofs.Heap.Limits
import Freestanding.Proofs.Heap.Search
import Freestanding.Proofs.Heap.Termination
import Freestanding.Proofs.Heap.Damage
import Freestanding.Proofs.Heap.Reading
import Freestanding.Proofs.Heap.Duplicate
import Freestanding.Proofs.Integrity
import Freestanding.Proofs.Handles
import Freestanding.Proofs.Isolation
import Freestanding.Proofs.History
import Freestanding.Proofs.Noninterference
import Freestanding.Proofs.ErrorNumber
import Freestanding.Proofs.Heap.Replay
import Freestanding.Proofs.Heap.Contract
import Freestanding.Proofs.Heap.Improvement
import Freestanding.Proofs.Routine.Safety
import Freestanding.Proofs.Routine.Terminator
import Freestanding.Proofs.CString.Tokens
import Freestanding.Proofs.CString.Copy
import Freestanding.Proofs.CString.Append
import Freestanding.Proofs.CString.Compare
import Freestanding.Proofs.CString.Search
import Freestanding.Proofs.Move
import Freestanding.Proofs.Description
