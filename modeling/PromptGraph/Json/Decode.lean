/-
Filling records from JSON. A field is found by its name or, failing that, by its name without regard
to case; a repeated field continues from the value it already has; `null` changes nothing. A value of
the wrong kind is passed over while decoding goes on, and makes the whole decoding fail at its end,
unless something else refuses the input first.
-/
import PromptGraph.Json.Source
import PromptGraph.Text.Letter

namespace PromptGraph.Json

/-- Why a decoding fails: the JSON itself, or a rule `ε` of what is being read. -/
inductive Fault (ε : Type) where
  | malformed
  | refused (cause : ε)
  deriving DecidableEq

/-- A decoding step. The state tells whether a value of the wrong kind was passed over. -/
abbrev Decode (ε : Type) := StateT Bool (Except (Fault ε))

/-- A character as field names are compared when no field has the exact name. -/
def Rigour.foldChar : Rigour → Char → Char
  | .lenient, c => Text.lowerChar c
  | .strict, c =>
    if 'a' ≤ c && c ≤ 'z' then Char.ofNat (c.toNat - 32)
    else if c.toNat = 0x17f then 'S'
    else if c.toNat = 0x212a then 'K'
    else c

def Rigour.fold (rigour : Rigour) (s : String) : String := s.map rigour.foldChar

/-- The field that a key fills. -/
def fieldFor? (rigour : Rigour) (names : List String) (key : String) : Option String :=
  if names.contains key then some key
  else names.find? fun n => rigour.fold n = rigour.fold key

namespace Decode

variable {ε α ρ : Type}

def malformed : Decode ε α := throw .malformed

def refuse (cause : ε) : Decode ε α := throw (.refused cause)

/-- Passes over a value of the wrong kind. -/
def skip (old : α) : Decode ε α := do
  set true
  return old

def ofOption : Option α → Decode ε α
  | some a => pure a
  | none => malformed

/-- The outcome of a whole decoding. -/
def run (x : Decode ε α) : Except (Fault ε) α :=
  match StateT.run x false with
  | .ok (a, false) => .ok a
  | .ok (_, true) => .error .malformed
  | .error e => .error e

/-- A decoding of its own inside another: what it passes over makes it fail at once. -/
def sealed (x : Decode ε α) : Decode ε α :=
  match x.run with
  | .ok a => pure a
  | .error e => throw e

def text (old : String) : Source → Decode ε String
  | .null => pure old
  | .string body => ofOption (Source.unescape? body)
  | _ => skip old

def boolean (old : Bool) : Source → Decode ε Bool
  | .null => pure old
  | .bool b => pure b
  | _ => skip old

/-- A whole number of 64 bits, written without fraction and exponent. -/
def integer (old : Int) : Source → Decode ε Int
  | .null => pure old
  | .number t =>
    match Number.int64? t with
    | some n => pure n
    | none => skip old
  | _ => skip old

/-- Any value. -/
def any (v : Source) : Decode ε Json := ofOption v.value?

/-- The items of a list, each continuing from the item that stood at its place. -/
def items (zero : α) (item : α → Source → Decode ε α) : List α → List Source → Decode ε (List α)
  | _, [] => pure []
  | old, v :: rest => do
    let a ← item (old.headD zero) v
    return a :: (← items zero item old.tail rest)

/-- A list, or nothing for `null`. -/
def list (zero : α) (item : α → Source → Decode ε α) (old : Option (List α)) :
    Source → Decode ε (Option (List α))
  | .null => pure none
  | .array _ vs => some <$> items zero item (old.getD []) vs
  | _ => skip old

/-- The fields of an object, in the order written, for a record with the fields `names`. -/
def fields (rigour : Rigour) (names : List String) (put : ρ → String → Source → Decode ε ρ) :
    ρ → List (String × Source) → Decode ε ρ
  | r, [] => pure r
  | r, (name, v) :: rest => do
    let key ← ofOption (Source.unescape? name)
    match fieldFor? rigour names key with
    | some n => fields rigour names put (← put r n v) rest
    | none => fields rigour names put r rest

/-- A record with the fields `names`. -/
def record (rigour : Rigour) (names : List String) (put : ρ → String → Source → Decode ε ρ)
    (old : ρ) : Source → Decode ε ρ
  | .null => pure old
  | .object _ fs => fields rigour names put old fs
  | _ => skip old

/-- A record that may be missing: `null` takes it away. -/
def optional (zero : α) (item : α → Source → Decode ε α) (old : Option α) :
    Source → Decode ε (Option α)
  | .null => pure none
  | v => some <$> item (old.getD zero) v

/-- The entries of an object with names of its own; a repeated name continues from its value. -/
def entries (zero : α) (item : α → Source → Decode ε α) :
    Assoc α → List (String × Source) → Decode ε (Assoc α)
  | t, [] => pure t
  | t, (name, v) :: rest => do
    let key ← ofOption (Source.unescape? name)
    let a ← item ((t.get? key).getD zero) v
    entries zero item (t.insert key a) rest

/-- An object with names of its own, or nothing for `null`. -/
def table (zero : α) (item : α → Source → Decode ε α) (old : Option (Assoc α)) :
    Source → Decode ε (Option (Assoc α))
  | .null => pure none
  | .object _ fs => some <$> entries zero item (old.getD []) fs
  | _ => skip old

/-- A value that is kept as written; `null` is none. -/
def written (old : Option Source) : Source → Decode ε (Option Source)
  | .null => pure old
  | v => pure (some v)

/-- Decodes one value. -/
def ofSource? (decode : Source → Decode Empty α) (v : Source) : Option α :=
  match (decode v).run with
  | .ok a => some a
  | .error _ => none

/-- Decodes a text that is one value. -/
def ofText? (decode : Source → Decode Empty α) (text : String) : Option α :=
  (Source.read? .lenient text).bind (ofSource? decode)

end Decode

end PromptGraph.Json
