/-
The table of node types of a server, through a cache.
-/
import PromptGraph.NodeType.Cache
import PromptGraph.Server.Client

namespace PromptGraph.Server.Client

variable {m : Type → Type} [Monad m] [Web.Network m] [Clock m] [Console m]

/-- A cache for the server's table, under the server's name. -/
def cache (c : Client) (store : Option Store) (lifetime : Duration) : Cache :=
  { key := c.host, store, lifetime }

/-- Why there is no table. -/
abbrev TableFailure := Cache.Failure Error

/-- Asks the server for its table, with an old record at hand or not. -/
def askTable (c : Client) (deadline : Deadline) (cache : Cache) (old : Option Record) :
    m (Cache × Except TableFailure NodeTable) := do
  let answer ← c.objectInfo deadline
  let r := cache.receive Error.message (← Clock.now) old answer
  r.log.forM Console.log
  return (r.cache, r.result)

/-- The table from memory, store or server. -/
def fetchTable (c : Client) (deadline : Deadline) (cache : Cache) :
    m (Cache × Except TableFailure NodeTable) := do
  let found := cache.consult (← Clock.now)
  found.log.forM Console.log
  match found.finding with
  | .table t => return (found.cache, .ok t)
  | .nothing old => c.askTable deadline found.cache old

/-- The table from the server, whatever is at hand. -/
def refreshTable (c : Client) (deadline : Deadline) (cache : Cache) :
    m (Cache × Except TableFailure NodeTable) :=
  c.askTable deadline cache none

end PromptGraph.Server.Client
