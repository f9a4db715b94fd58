/-
Looking up and changing entries: by class, by id, and the date marks in their texts.
-/
import PromptGraph.Calendar
import PromptGraph.Execution.Graph

namespace PromptGraph.Execution

/-- The ids of the entries of one of these classes, in order. -/
def Graph.findByType (g : Graph) (classTypes : List String) : List String :=
  g.ids.filter fun id =>
    match Assoc.get? g id with
    | some e => classTypes.contains e.classType
    | none => false

-- ==== prompt text

/-- The inputs that may hold a prompt, the preferred first. -/
def textFields : List String := ["text", "prompt", "positive", "caption"]

def Entry.hasText (e : Entry) (field : String) : Bool :=
  match e.input? field with
  | some (.literal (.string _)) => true
  | _ => false

def Entry.textField? (e : Entry) : Option String := textFields.find? e.hasText

def Entry.setInput (e : Entry) (name : String) (v : Input) : Entry :=
  { e with inputs := some (Assoc.insert e.inputTable name v) }

/-- Writes a text into the first prompt field of every entry of these classes that has one, and tells
which entries changed. -/
def Graph.setText (g : Graph) (text : String) (classTypes : List String) : Graph × List String :=
  (g.findByType classTypes).foldl
    (fun (g, changed) id =>
      match Assoc.get? g id with
      | none => (g, changed)
      | some e =>
        match e.textField? with
        | some field =>
          (Assoc.insert g id (e.setInput field (.literal (.string text))), changed ++ [id])
        | none => (g, changed))
    (g, [])

-- ==== overrides

/-- New input values by entry. -/
abbrev Overrides := Assoc (Assoc Json)

def Entry.override (e : Entry) (updates : Assoc Json) : Entry :=
  { e with inputs := some (updates.foldl (fun t (k, v) => Assoc.insert t k (.ofJson v)) e.inputTable) }

/-- Sets inputs by entry id, and tells which ids the graph does not have. -/
def Graph.applyOverrides (g : Graph) (o : Overrides) : Graph × List String :=
  let (g, missing) := o.foldl
    (fun (g, missing) (id, updates) =>
      match Assoc.get? g id with
      | some e => (Assoc.insert g id (e.override updates), missing)
      | none => (g, missing ++ [id]))
    (g, [])
  (g, sortIds missing)

-- ==== date marks

/-- The part of a date that a format letter group stands for. -/
def datePart? (now : DateTime) : List Char → Option (String × List Char)
  | 'y' :: 'y' :: 'y' :: 'y' :: r => some (now.year4, r)
  | 'y' :: 'y' :: r => some (DateTime.padded 2 (now.year.natAbs % 100), r)
  | 'M' :: 'M' :: r => some (DateTime.padded 2 now.month, r)
  | 'd' :: 'd' :: r => some (DateTime.padded 2 now.day, r)
  | 'H' :: 'H' :: r => some (DateTime.padded 2 now.hour, r)
  | 'h' :: 'h' :: r => some (DateTime.padded 2 now.hour, r)
  | 'm' :: 'm' :: r => some (DateTime.padded 2 now.minute, r)
  | 's' :: 's' :: r => some (DateTime.padded 2 now.second, r)
  | _ => none

/-- A date format filled in; `fuel` is at least the length of the format. -/
def formatDate (now : DateTime) : Nat → List Char → List Char
  | 0, _ => []
  | _ + 1, [] => []
  | fuel + 1, c :: cs =>
    match datePart? now (c :: cs) with
    | some (s, r) => s.toList ++ formatDate now fuel r
    | none => c :: formatDate now fuel cs

def dateMark : List Char := "%date:".toList

/-- Replaces every `%date:FORMAT%` from left to right; `fuel` is at least the length of the text. -/
def resolveDates (now : DateTime) : Nat → List Char → List Char
  | 0, _ => []
  | _ + 1, [] => []
  | fuel + 1, c :: cs =>
    if dateMark.isPrefixOf (c :: cs) then
      match ((c :: cs).drop dateMark.length).span (· ≠ '%') with
      | (f :: fs, '%' :: rest) =>
        formatDate now (fs.length + 1) (f :: fs) ++ resolveDates now fuel rest
      | _ => c :: resolveDates now fuel cs
    else c :: resolveDates now fuel cs

/-- The text has a date mark, complete or not. -/
def hasDateMark : List Char → Bool
  | [] => false
  | c :: cs => dateMark.isPrefixOf (c :: cs) || hasDateMark cs

def Input.resolveDates (now : DateTime) : Input → Input × Nat
  | literal (.string s) =>
    let cs := s.toList
    if hasDateMark cs then
      (literal (.string (String.ofList (Execution.resolveDates now cs.length cs))), 1)
    else (literal (.string s), 0)
  | i => (i, 0)

def resolveTable (now : DateTime) : Assoc Input → Assoc Input × Nat
  | [] => ([], 0)
  | (k, v) :: rest =>
    let (v', n) := v.resolveDates now
    let (rest', m) := resolveTable now rest
    ((k, v') :: rest', n + m)

/-- Fills in the date marks of every text input, and counts the inputs that had one. -/
def Graph.resolveDates (now : DateTime) : Graph → Graph × Nat
  | [] => ([], 0)
  | (id, e) :: rest =>
    let (g, m) := Graph.resolveDates now rest
    match e.inputs with
    | some t =>
      let (t', n) := resolveTable now t
      ((id, { e with inputs := some t' }) :: g, n + m)
    | none => ((id, e) :: g, m)

end PromptGraph.Execution
