/-
A store as text: an object with a record under each key, so that a store outlives the program.
-/
import PromptGraph.Json.Decode
import PromptGraph.Json.Printer
import PromptGraph.NodeType.Store

namespace PromptGraph

open Json (Source Decode)

def Record.toJson (r : Record) : Json := .mk [("raw", .string r.raw), ("fetched_at", .int r.fetchedAt)]

def readRecord : Record → Source → Decode Empty Record :=
  Decode.record .lenient ["raw", "fetched_at"] fun r field v =>
    match field with
    | "raw" => return { r with raw := ← Decode.text r.raw v }
    | _ => return { r with fetchedAt := ← Decode.integer r.fetchedAt v }

namespace Store

/-- A store that fails has no text. -/
def text? : Store → Option String
  | working records => some (Json.write (.mk (records.mapValues Record.toJson)))
  | failing _ => none

/-- Nothing is an empty store. -/
def ofText? (text : String) : Option Store :=
  if text = "" then some .empty
  else (Decode.ofText? (Decode.table default readRecord none) text).map fun t => working (t.getD [])

end Store

end PromptGraph
