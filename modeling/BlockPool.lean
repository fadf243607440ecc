import BlockPool.Config.Text
import BlockPool.LinkedList.Script
import BlockPool.Main
import BlockPool.Pool.Shared
import BlockPool.CommandLine.Program
import BlockPool.Proofs.Pool.Heap
import BlockPool.Proofs.Pool.Range
import BlockPool.Proofs.Pool.Operation
import BlockPool.Proofs.Pool.Run
import BlockPool.Proofs.Layout.Audit
import BlockPool.Proofs.Pool.Partition
import BlockPool.Proofs.Memory.Buffer
import BlockPool.Proofs.Pool.Contents
import BlockPool.Proofs.Pool.Refinement
import BlockPool.Proofs.Pool.Ledger
import BlockPool.Proofs.LinkedList.Node
import BlockPool.Proofs.LinkedList.Trail
import BlockPool.Proofs.LinkedList.Reading
import BlockPool.Proofs.LinkedList.Edit
import BlockPool.Proofs.LinkedList.Sequence
import BlockPool.Proofs.Layout.Coalescence
import BlockPool.Proofs.Pool.Failure
import BlockPool.Proofs.Pool.Outstanding
import BlockPool.Proofs.Pool.Coalescence
import BlockPool.Proofs.Layout.Sizes
import BlockPool.Proofs.Pool.Accounts
import BlockPool.Proofs.Toml.Document
import BlockPool.Proofs.Config.Text
import BlockPool.Proofs.Pool.Freeing
import BlockPool.Proofs.Pool.Neighbours
import BlockPool.Proofs.Pool.Crowding
import BlockPool.Proofs.Pool.Remainders
import BlockPool.Proofs.Pool.Scrubbing
import BlockPool.Proofs.Pool.Agreement
import BlockPool.Proofs.LinkedList.Client
import BlockPool.Proofs.Layout.Grid
import BlockPool.Proofs.LinkedList.Capacity
import BlockPool.Proofs.LinkedList.Settings
import BlockPool.Proofs.Pool.Safety
import BlockPool.Proofs.Pool.FirstFit
import BlockPool.Proofs.Pool.Lifecycle
import BlockPool.Proofs.Pool.Holdings
import BlockPool.Proofs.CommandLine.Session
import BlockPool.Proofs.CommandLine.LayoutReport
import BlockPool.Proofs.Pool.Filling
import BlockPool.Proofs.LinkedList.Filling
import BlockPool.Proofs.CommandLine.ListReport
import BlockPool.Proofs.Pool.Merging
import BlockPool.Proofs.Pool.Growing
import BlockPool.Proofs.Pool.LargestFree
import BlockPool.Proofs.Pool.Reuse
import BlockPool.Proofs.LinkedList.Display
import BlockPool.Proofs.LinkedList.Cleanup
import BlockPool.Proofs.LinkedList.Membership
import BlockPool.Proofs.LinkedList.Atomicity
import BlockPool.Proofs.LinkedList.Codec
import BlockPool.Proofs.Layout.Editing
import BlockPool.Proofs.Layout.Relinking
import BlockPool.Proofs.Layout.Verdict
