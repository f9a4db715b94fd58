/-
Metrics: how many conversions, expansions, dropped nodes and diagnostics there were, how long
conversions and expansions took, and how large the results were.
-/
import PromptGraph.Telemetry.Tracing

namespace PromptGraph.Telemetry

/-- What is measured: one of several series of numbers under one name. -/
structure Series where
  name : String
  unit : String := ""
  attributes : Assoc Attribute := []
  deriving DecidableEq, Inhabited

/-- What a series has come to. -/
inductive Measure where
  /-- A sum. -/
  | total (sum : Int)
  /-- How many whole numbers were recorded, and their sum. -/
  | sizes (count : Nat) (sum : Int)
  /-- How many lengths in seconds were recorded, and their sum. -/
  | lengths (count : Nat) (sum : Number.Double)
  deriving DecidableEq

/-- A measure with a later one of its kind taken in. -/
def Measure.add : Measure → Measure → Measure
  | total a, total b => total (a + b)
  | sizes n a, sizes k b => sizes (n + k) (a + b)
  | lengths n a, lengths k b => lengths (n + k) ((a.add? b).getD a)
  | m, _ => m

/-- All series that something was recorded in. -/
abbrev Metrics := List (Series × Measure)

def Metrics.record : Metrics → Series → Measure → Metrics
  | [], s, m => [(s, m)]
  | (t, old) :: rest, s, m =>
    if t = s then (t, old.add m) :: rest else (t, old) :: Metrics.record rest s m

/-- What a signal adds to the metrics. -/
def measures (s : Signal) : List (Series × Measure) :=
  match s.kind with
  | .expanded =>
    let attributes : Assoc Attribute :=
      [("definition", .text s.nodeType), ("depth", .number (s.number "depth"))]
    [({ name := "promptc.instance.expansions", attributes }, .total 1),
      ({ name := "promptc.instance.duration", unit := "s", attributes },
        .lengths 1 s.elapsed.seconds)]
  | .dropped =>
    let attributes : Assoc Attribute :=
      [("node_type", .text s.nodeType), ("reason", .text (s.text "reason"))]
    [({ name := "promptc.node.dropped", attributes }, .total 1)]
  | .finished =>
    let diagnostics := s.number "diagnostics"
    [({ name := "promptc.convert.count" }, .total 1),
      ({ name := "promptc.convert.duration", unit := "s" }, .lengths 1 s.elapsed.seconds),
      ({ name := "promptc.convert.entries" }, .sizes 1 (s.number "entries"))]
    ++ if 0 < diagnostics then [({ name := "promptc.convert.diagnostics" }, .total diagnostics)]
      else []
  | _ => []

def Metrics.handle (m : Metrics) (s : Signal) : Metrics :=
  (measures s).foldl (fun m (series, measure) => m.record series measure) m

end PromptGraph.Telemetry
