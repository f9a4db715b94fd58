/-
Settling references once every entry is known: one that names an expanded instance becomes what the
instance's output is bound to, and one that names nothing is removed.
-/
import PromptGraph.Flatten.Expansion

namespace PromptGraph.Flatten

open Execution (Input Ref Entry Graph)

/-- Every bound output of every instance. -/
def boundOutputs (instances : Assoc Bindings) : Nat :=
  (instances.flatMap Prod.snd).length

/-- Follows a reference through instance outputs to a producer or a literal; nothing if it reaches an
unbound output or runs in a circle. Each of at most `fuel` bound outputs is passed once. -/
def followFrom (instances : Assoc Bindings) : Nat → Ref → Option Input
  | fuel, r =>
    match Assoc.get? instances r.node with
    | none => some (.ref r)
    | some outputs =>
      match outputs.get? r.slot with
      | none => none
      | some (.literal v) => some (.literal v)
      | some (.ref next) =>
        match fuel with
        | 0 => none
        | fuel + 1 => followFrom instances fuel next

def follow (instances : Assoc Bindings) (r : Ref) : Option Input :=
  followFrom instances (boundOutputs instances) r

/-- Settles the references among an entry's inputs: `settle` gives the new value or the complaint for
which the input is removed. -/
def settleInputs (settle : String → Ref → Input ⊕ Diagnostic) :
    Assoc Input → Assoc Input × List Diagnostic
  | [] => ([], [])
  | (name, .literal v) :: rest =>
    let (t, ds) := settleInputs settle rest
    ((name, .literal v) :: t, ds)
  | (name, .ref r) :: rest =>
    let (t, ds) := settleInputs settle rest
    match settle name r with
    | .inl v => ((name, v) :: t, ds)
    | .inr d => (t, d :: ds)

def settleEntry (settle : String → Ref → Input ⊕ Diagnostic) (e : Entry) : Entry × List Diagnostic :=
  let (t, ds) := settleInputs settle e.inputTable
  ({ e with inputs := e.inputs.map fun _ => t }, ds)

/-- Settles every entry, the diagnostics in the order of the entries' ids. -/
def settleGraph (settle : String → String → Ref → Input ⊕ Diagnostic) (g : Graph) :
    Graph × List Diagnostic :=
  (g.map fun (id, e) => (id, (settleEntry (settle id) e).1),
   g.ordered.flatMap fun (id, e) => (settleEntry (settle id) e).2)

def unboundInput (id name : String) (r : Ref) : Diagnostic :=
  .warning "CV-005" (id ++ ".inputs." ++ name) ("Input " ++ Text.Quoted.encode name ++ " of node "
    ++ Text.Quoted.encode id ++ " reads output " ++ toString r.slot ++ " of subgraph instance "
    ++ Text.Quoted.encode r.node ++ ", which is not bound")

def danglingInput (id name : String) (r : Ref) : Diagnostic :=
  .warning "CV-005" (id ++ ".inputs." ++ name) ("Input " ++ Text.Quoted.encode name ++ " of node "
    ++ Text.Quoted.encode id ++ " was wired from " ++ Text.Quoted.encode r.node
    ++ ", which is not part of the execution graph")

/-- References to expanded instances become what they are bound to. -/
def patchReferences (b : Build) : Build :=
  let (g, ds) := settleGraph
    (fun id name r =>
      match follow b.instances r with
      | some v => .inl v
      | none => .inr (unboundInput id name r))
    b.entries
  { b.warn ds with entries := g }

/-- References to entries that do not exist are removed. -/
def sweepDangling (b : Build) : Build :=
  let (g, ds) := settleGraph
    (fun id name r =>
      if Assoc.contains b.entries r.node then .inl (.ref r) else .inr (danglingInput id name r))
    b.entries
  { b.warn ds with entries := g }

end PromptGraph.Flatten
