/-
A cache for the table of one server. It answers from memory; else from its store while the record
there is young; else it asks the server, and falls back to an old record when the server fails.

Fetching has two steps, so that the server is asked in between: `consult` says what is at hand, and
`receive` takes the server's answer.
-/
import PromptGraph.Duration
import PromptGraph.Log
import PromptGraph.NodeType.Reader
import PromptGraph.NodeType.Store

namespace PromptGraph

structure Cache where
  /-- Names the table in the store. -/
  key : String
  store : Option Store := none
  /-- How long a record stays young. Zero and less mean a day. -/
  lifetime : Duration := ⟨0⟩
  /-- The table in memory. -/
  table : Option NodeTable := none

namespace Cache

/-- Why there is no table. `ε` says why the server has none. -/
inductive Failure (ε : Type) where
  | noServer (key : String)
  | server (key : String) (cause : ε)
  | unreadable (cause : NodeType.TableError)

def Failure.message (describe : ε → String) : Failure ε → String
  | noServer key => "objectinfo: no fetch function for " ++ Text.Quoted.encode key
  | server key cause => "objectinfo: fetch " ++ Text.Quoted.encode key ++ ": " ++ describe cause
  | unreadable cause => cause.message

def day : Duration := ⟨24 * Duration.hour⟩

def youth (c : Cache) : Duration := if 0 < c.lifetime.nanoseconds then c.lifetime else day

def isYoung (c : Cache) (now : Int) (r : Record) : Bool :=
  (Duration.between r.fetchedAt now).nanoseconds < c.youth.nanoseconds

/-- Drops the table in memory. -/
def invalidate (c : Cache) : Cache := { c with table := none }

-- ==== consulting

/-- What a fetch finds at hand: a table, or nothing but an old record. -/
inductive Finding where
  | table (t : NodeTable)
  | nothing (old : Option Record)

structure Consulted where
  cache : Cache
  finding : Finding
  log : List Log.Line := []

/-- The record of its key, when there is a store. -/
def stored (c : Cache) : Option (Except Store.Missing Record) := c.store.map (·.get c.key)

/-- Looks in memory, then in the store. -/
def consult (c : Cache) (now : Int) : Consulted :=
  match c.table with
  | some t => ⟨c, .table t, []⟩
  | none =>
    match c.stored with
    | none => ⟨c, .nothing none, []⟩
    | some (.error .absent) => ⟨c, .nothing none, []⟩
    | some (.error (.failed reason)) =>
      ⟨c, .nothing none,
        [⟨.warn, "object info store lookup failed", [("key", c.key), ("error", reason)]⟩]⟩
    | some (.ok r) =>
      if c.isYoung now r then
        match NodeType.parseTable r.raw with
        | .ok t =>
          ⟨{ c with table := some t }, .table t,
            [⟨.debug, "object info served from store",
              [("key", c.key), ("types", toString t.length)]⟩]⟩
        | .error e =>
          ⟨c, .nothing none,
            [⟨.warn, "discarding unreadable cached object info",
              [("key", c.key), ("error", e.message)]⟩]⟩
      else ⟨c, .nothing (some r), []⟩

-- ==== receiving

structure Received (ε : Type) where
  cache : Cache
  result : Except (Failure ε) NodeTable
  log : List Log.Line := []

/-- The old record's table stands in when the server fails. -/
def fallBack (c : Cache) (describe : ε → String) (now : Int) (old : Option Record) (cause : ε) :
    Received ε :=
  let refused : Received ε := ⟨c, .error (.server c.key cause), []⟩
  match old with
  | none => refused
  | some r =>
    match NodeType.parseTable r.raw with
    | .error _ => refused
    | .ok t =>
      ⟨{ c with table := some t }, .ok t,
        [⟨.warn, "object info fetch failed, using stale cache",
          [("key", c.key), ("age", (Duration.between r.fetchedAt now).text),
            ("error", describe cause)]⟩]⟩

/-- Keeps a table that was just fetched. A store that fails is only reported. -/
def keep (c : Cache) (now : Int) (raw : String) (t : NodeTable) : Received ε :=
  let kept : Option (Store × Except String Unit) := c.store.map (·.put c.key ⟨raw, now⟩)
  let log : List Log.Line := match kept with
    | some (_, .error reason) =>
      [⟨.warn, "failed to store object info", [("key", c.key), ("error", reason)]⟩]
    | _ => []
  ⟨{ c with store := kept.map Prod.fst, table := some t }, .ok t,
    log ++ [⟨.debug, "object info fetched",
      [("key", c.key), ("types", toString t.length), ("bytes", toString (Text.octetLength raw))]⟩]⟩

/-- Takes the server's answer: a raw table, or why there is none. -/
def receive (c : Cache) (describe : ε → String) (now : Int) (old : Option Record)
    (answer : Except ε String) : Received ε :=
  match answer with
  | .error cause => c.fallBack describe now old cause
  | .ok raw =>
    match NodeType.parseTable raw with
    | .error e => ⟨c, .error (.unreadable e), []⟩
    | .ok t => c.keep now raw t

-- ==== fetching

/-- What comes of asking for the table, and whether the server was asked. -/
structure Reply (ε : Type) where
  cache : Cache
  result : Except (Failure ε) NodeTable
  asked : Bool
  log : List Log.Line

/-- Asks the server, if there is one. -/
def ask (c : Cache) (describe : ε → String) (now : Int) (old : Option Record)
    (server : Option (Except ε String)) (log : List Log.Line) : Reply ε :=
  match server with
  | none => ⟨c, .error (.noServer c.key), false, log⟩
  | some answer =>
    let r := c.receive describe now old answer
    ⟨r.cache, r.result, true, log ++ r.log⟩

/-- The table from memory, store or server. -/
def fetch (c : Cache) (describe : ε → String) (now : Int) (server : Option (Except ε String)) :
    Reply ε :=
  let found := c.consult now
  match found.finding with
  | .table t => ⟨found.cache, .ok t, false, found.log⟩
  | .nothing old => found.cache.ask describe now old server found.log

/-- The table from the server, whatever is at hand. -/
def refresh (c : Cache) (describe : ε → String) (now : Int) (server : Option (Except ε String)) :
    Reply ε :=
  c.ask describe now none server []

end Cache

end PromptGraph
