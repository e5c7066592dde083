import FileServer.Proof.Sequential.Rules
import FileServer.Proof.Sequential.Consistent
import FileServer.Blocks
import FileServer.Proof.Sequential.Transfer
import FileServer.Proof.Sequential.Growing
import FileServer.Proof.Sequential.Checks
import FileServer.Proof.Sequential.Handlers
import FileServer.Proof.Sequential.Requests
import FileServer.Proof.Sequential.Append
import FileServer.Proof.Sequential.Paging
import FileServer.Proof.Sequential.Refusals
import FileServer.Proof.Sequential.RoundTrip
import FileServer.Model.MainLoop
import FileServer.Proof.Concurrent.HandBack
import FileServer.Model.Client
import FileServer.Proof.Concurrent.Steps
import FileServer.Proof.Concurrent.Creation
import FileServer.Proof.Concurrent.Conduct
import FileServer.Proof.Concurrent.Requests
import FileServer.Proof.Concurrent.Holding
import FileServer.Program.Waiting
import FileServer.Proof.Concurrent.Deadlock
import FileServer.Proof.Concurrent.Lifetime
import FileServer.Proof.Concurrent.FileLimit
import FileServer.Program.Along
import FileServer.Proof.Sequential.Allocation
import FileServer.Proof.Sequential.Victim
import FileServer.Proof.Sequential.Course
import FileServer.Proof.Sequential.Counter
import FileServer.Proof.Sequential.StackBounds
import FileServer.Proof.Sequential.PageProgress
import FileServer.Proof.Sequential.EvictionOrder
import FileServer.Proof.Sequential.OpenAccess
import FileServer.Linked
import FileServer.Model.ThreadPool
import FileServer.Proof.Concurrent.TaskQueue
import FileServer.Proof.Concurrent.TaskPool
import FileServer.Proof.Concurrent.Shutdown
import FileServer.Program.Paired
import FileServer.Proof.Sequential.Twins
import FileServer.Proof.Sequential.Secrecy
import FileServer.Model.Descriptors
import FileServer.Proof.Wire.Reading
import FileServer.Proof.Wire.Splitting
import FileServer.Proof.Sequential.Admission
import FileServer.Model.Upload
import FileServer.Proof.Client.Upload
import FileServer.DoublyLinked
import FileServer.Model.HashTable
import FileServer.Proof.HashHeap
import FileServer.Program.Coincide
import FileServer.Proof.Sequential.Relock
import FileServer.Proof.Sequential.Defrag
import FileServer.Proof.Sequential.ReadMany
import FileServer.Proof.Sequential.Shuffle
import FileServer.Proof.Sequential.Directory
import FileServer.Proof.Sequential.EvictionSequence
import FileServer.Model.Reading
import FileServer.Proof.Concurrent.Snapshot
import FileServer.Bytes
import FileServer.Model.Socket
import FileServer.Program.Duplex
import FileServer.Model.Api
import FileServer.Model.Connection
import FileServer.Proof.Wire.Exchange
import FileServer.Model.PageMemory
import FileServer.Proof.Sequential.PageWrite
import FileServer.Model.OpenList
import FileServer.Proof.ListRemoval
import FileServer.Model.NameArray
import FileServer.Proof.Compaction
import FileServer.CString
import FileServer.Model.PathBuffers
import FileServer.Proof.Client.PathBuffers
import FileServer.Model.ReceivedFiles
import FileServer.Proof.Client.ReceivedFiles
import FileServer.Model.Dispatch
import FileServer.Proof.Wire.Dispatch
import FileServer.Decimal
import FileServer.Model.CommandLine
import FileServer.Proof.Client.CommandLine
import FileServer.Model.Configuration
import FileServer.Proof.Configuration
import FileServer.Proof.Wire.Calls
import FileServer.Proof.Wire.Lockstep
import FileServer.Apportion
import FileServer.Proof.Concurrent.Grip
import FileServer.Proof.Concurrent.Sections
import FileServer.Proof.Concurrent.Exclusive
import FileServer.Proof.Concurrent.Races
import FileServer.Proof.Sequential.Completed
import FileServer.Simulation
import FileServer.Specification
import FileServer.Proof.Sequential.Shown
import FileServer.Proof.Sequential.Refinement
import FileServer.Proof.Sequential.Listing
import FileServer.Proof.Concurrent.HeldContent
import FileServer.NameCompaction
import FileServer.Proof.ConfigurationLines
import FileServer.Proof.Concurrent.Handlers
import FileServer.Proof.Concurrent.Guarded
import FileServer.Proof.Concurrent.Ownership
