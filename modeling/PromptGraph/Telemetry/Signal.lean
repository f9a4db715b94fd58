/-
Signals: what happens in conversions, as it is told to whoever keeps traces and metrics. Many
conversions may run at once; each signal names its own.
-/
import PromptGraph.Assoc
import PromptGraph.Duration
import PromptGraph.Flatten.Event

namespace PromptGraph.Telemetry

/-- A detail of a signal. -/
inductive Detail where
  | number (n : Int)
  | text (s : String)
  /-- Neither; details of this kind are not looked at. -/
  | other
  deriving DecidableEq, Inhabited

inductive Kind where
  | started
  | expanded
  | dropped
  | finished
  | other
  deriving DecidableEq, Inhabited

namespace Kind

def all : List Kind := [started, expanded, dropped, finished]

def name : Kind → String
  | started => "convert.started"
  | expanded => "instance.expanded"
  | dropped => "node.dropped"
  | finished => "convert.finished"
  | other => ""

def ofName (s : String) : Kind := (all.find? (·.name = s)).getD other

end Kind

structure Signal where
  kind : Kind
  /-- The conversion that it is about. -/
  conversion : String := ""
  node : String := ""
  nodeType : String := ""
  /-- Nanoseconds since 1970. -/
  time : Int := 0
  /-- How long it took. -/
  elapsed : Duration := ⟨0⟩
  details : Assoc Detail := []
  deriving Inhabited

namespace Signal

def text (s : Signal) (name : String) : String :=
  match s.details.get? name with
  | some (.text t) => t
  | _ => ""

def number (s : Signal) (name : String) : Int :=
  match s.details.get? name with
  | some (.number n) => n
  | _ => 0

/-- The signal of an event. -/
def ofEvent : Flatten.Event → Signal
  | .started nodes definitions source =>
    { kind := .started
      details := .ofList [("nodes", .number nodes), ("definitions", .number definitions),
        ("source", .text source)] }
  | .dropped node nodeType reason =>
    { kind := .dropped, node, nodeType, details := [("reason", .text reason.name)] }
  | .expanded node definition name depth entries outputs =>
    { kind := .expanded, node, nodeType := definition
      details := .ofList [("name", .text name), ("depth", .number depth),
        ("entries", .number entries), ("outputs", .number outputs)] }
  | .finished entries instances diagnostics =>
    { kind := .finished
      details := .ofList [("entries", .number entries), ("instances", .number instances),
        ("diagnostics", .number diagnostics)] }

end Signal

end PromptGraph.Telemetry
