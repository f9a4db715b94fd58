/-
Traces: a span for every conversion from its start to its end, a span below it for every instance
that was expanded, and an event in it for every node that was dropped.
-/
import PromptGraph.Telemetry.Signal

namespace PromptGraph.Telemetry

inductive Attribute where
  | text (s : String)
  | number (n : Int)
  deriving DecidableEq, Inhabited

/-- Something that happened within a span. -/
structure Mark where
  name : String
  time : Int
  attributes : Assoc Attribute
  deriving DecidableEq, Inhabited

/-- How what a span stands for went. -/
inductive Status where
  | unset
  | ok
  deriving DecidableEq, Inhabited

def Status.name : Status → String
  | unset => "Unset"
  | ok => "Ok"

/-- A span as other spans refer to it: its number among all spans started, and its name. -/
structure SpanContext where
  number : Nat
  name : String
  deriving DecidableEq, Inhabited

structure Span where
  number : Nat
  name : String
  /-- The span above. -/
  above : Option SpanContext := none
  start : Int
  attributes : Assoc Attribute
  marks : List Mark := []
  status : Status := .unset
  deriving DecidableEq, Inhabited

/-- A span that is over. -/
structure EndedSpan where
  span : Span
  stop : Int
  deriving DecidableEq, Inhabited

namespace Span

def context (s : Span) : SpanContext := ⟨s.number, s.name⟩

/-- The name of the span above; empty for none. -/
def parent (s : Span) : String := (s.above.map (·.name)).getD ""

/-- A span keeps no more marks than this, the latest ones. -/
def markLimit : Nat := 128

def mark (s : Span) (m : Mark) : Span :=
  let marks := s.marks ++ [m]
  { s with marks := marks.drop (marks.length - markLimit) }

def describe (s : Span) (attributes : List (String × Attribute)) : Span :=
  { s with attributes := s.attributes.merge attributes }

end Span

/-- The conversions that are under way: their spans, and what the spans of their instances hang
below. -/
structure Tracer where
  spans : Assoc Span := []
  contexts : Assoc SpanContext := []
  /-- How many spans were started, over or not. -/
  started : Nat := 0
  deriving Inhabited

namespace Tracer

def span? (t : Tracer) (conversion : String) : Option Span := t.spans.get? conversion

def context? (t : Tracer) (conversion : String) : Option SpanContext := t.contexts.get? conversion

def rootSpan (number : Nat) (s : Signal) : Span where
  number := number
  name := if s.text "source" = "" then "convert" else "convert:" ++ s.text "source"
  start := s.time
  attributes := .ofList [("promptc.convert_id", .text s.conversion),
    ("promptc.nodes", .number (s.number "nodes")),
    ("promptc.definitions", .number (s.number "definitions"))]

def instanceSpan (number : Nat) (above : Option SpanContext) (s : Signal) : EndedSpan where
  span := {
    number := number
    name := "instance:" ++ s.node
    above := above
    start := s.time - s.elapsed.nanoseconds
    attributes := .ofList [("promptc.convert_id", .text s.conversion),
      ("promptc.instance_id", .text s.node), ("promptc.definition", .text s.nodeType),
      ("promptc.definition_name", .text (s.text "name")),
      ("promptc.depth", .number (s.number "depth")),
      ("promptc.entries", .number (s.number "entries"))]
    status := .ok }
  stop := s.time

def dropMark (s : Signal) : Mark where
  name := s.kind.name
  time := s.time
  attributes := .ofList [("promptc.node_id", .text s.node),
    ("promptc.node_type", .text s.nodeType), ("promptc.reason", .text (s.text "reason"))]

def outcome (s : Signal) : List (String × Attribute) :=
  [("promptc.duration", .text s.elapsed.text), ("promptc.entries", .number (s.number "entries")),
    ("promptc.instances", .number (s.number "instances")),
    ("promptc.diagnostics", .number (s.number "diagnostics"))]

/-- A conversion's span once the conversion is over. -/
def finishedSpan (span : Span) (s : Signal) : EndedSpan where
  span := { span.describe (outcome s) with status := .ok }
  stop := s.time

/-- Takes a signal, and tells which spans are over with it. A signal about a conversion that is not
under way ends nothing and leaves no mark; an instance of it has a span with none above. -/
def handle (t : Tracer) (s : Signal) : Tracer × List EndedSpan :=
  match s.kind with
  | .started =>
    let span := rootSpan t.started s
    ({ spans := t.spans.insert s.conversion span
       contexts := t.contexts.insert s.conversion span.context
       started := t.started + 1 }, [])
  | .expanded =>
    ({ t with started := t.started + 1 },
      [instanceSpan t.started (t.context? s.conversion) s])
  | .dropped =>
    match t.span? s.conversion with
    | some span => ({ t with spans := t.spans.insert s.conversion (span.mark (dropMark s)) }, [])
    | none => (t, [])
  | .finished =>
    match t.span? s.conversion with
    | some span =>
      ({ t with
         spans := t.spans.erase s.conversion
         contexts := t.contexts.erase s.conversion },
        [finishedSpan span s])
    | none => (t, [])
  | .other => (t, [])

end Tracer

end PromptGraph.Telemetry
