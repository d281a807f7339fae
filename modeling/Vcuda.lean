import Vcuda.Common.Run
import Vcuda.Common.Probing
import Vcuda.Common.Walk
import Vcuda.Rnm.Steps
import Vcuda.Rnm.Walks
import Vcuda.Rnm.Invariants
import Vcuda.Rnm.RecordLists
import Vcuda.Rnm.Identity
import Vcuda.Rnm.Termination
import Vcuda.Rnm.Reach
import Vcuda.Rnm.Isolation
import Vcuda.Rnm.Bounds
import Vcuda.Rnm.Oblivious
import Vcuda.Hijack.Calls
import Vcuda.Hijack.Failure
import Vcuda.Hijack.Quota
import Vcuda.Rnm.Fuel
import Vcuda.Hijack.Capacity
import Vcuda.Hijack.Accounting
import Vcuda.Rnm.Chained
import Vcuda.Rnm.Contracts
import Vcuda.Rnm.TableMap
import Vcuda.Hijack.Generations
import Vcuda.Rnm.Books
import Vcuda.Hijack.Arrays
import Vcuda.Common.Admission
import Vcuda.Hijack.Interleaving
import Vcuda.Common.Text
import Vcuda.Proc.Stat
import Vcuda.Forward.Entries
import Vcuda.Forward.Originals
import Vcuda.Forward.Transparent
import Vcuda.Rnm.ProbePaths
import Vcuda.Common.Rounding
import Vcuda.Hijack.Pitch
import Vcuda.Common.SharedMemory
import Vcuda.Hijack.ArraySizes
import Vcuda.Proc.Attach
import Vcuda.Common.Search
import Vcuda.Loader.Version
import Vcuda.Loader.Load
import Vcuda.Common.Claiming
import Vcuda.Rnm.Pushes
import Vcuda.Rnm.Inserts
import Vcuda.Common.LogChains
import Vcuda.Rnm.Population
import Vcuda.Hijack.History
import Vcuda.Hijack.Stalls
import Vcuda.Hijack.Limit
import Vcuda.Hijack.Reports
import Vcuda.Proc.Machine
import Vcuda.Common.Sweep
import Vcuda.Rnm.Links
import Vcuda.Proc.Startup
import Vcuda.Rnm.Stores
import Vcuda.Rnm.Kills
import Vcuda.Rnm.Appends
