import Replicache.Kv.Store
import Replicache.Kv.Pending
import Replicache.Kv.Idb
import Replicache.Kv.Protocol
import Replicache.Kv.Run
import Replicache.Kv.Outcome
import Replicache.Kv.Calls
import Replicache.Kv.Commit
import Replicache.Kv.StorePut
import Replicache.Kv.Termination
import Replicache.Kv.Linearizability
import Replicache.Kv.Atomic
import Replicache.Kv.Progress
import Replicache.Kv.Prompt
import Replicache.Util.Uuid
