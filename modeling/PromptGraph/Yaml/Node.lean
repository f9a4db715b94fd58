/-
The tree of a YAML document, read from its tokens.
-/
import PromptGraph.Yaml.Token

namespace PromptGraph.Yaml

/-- A node with its tag, which is empty when none is given. References to anchors are replaced by what
they refer to. -/
inductive Node where
  | scalar (tag : String) (text : String) (style : Style)
  | sequence (tag : String) (items : List Node)
  | mapping (tag : String) (pairs : List (Node × Node))
  deriving Inhabited

namespace Node

/-- What stands where a value is left out. -/
def empty : Node := scalar "" "" .plain

-- ==== reading

/-- Tokens ahead, the handles of tags, and the nodes that have a name. -/
structure Reader where
  tokens : List Token
  handles : List (String × String) := []
  anchors : List (String × Node) := []

abbrev Read := StateT Reader Option

def peek : Read Token := do
  match (← get).tokens with
  | t :: _ => return t
  | [] => failure

def skip : Read Unit := modify fun r => { r with tokens := r.tokens.drop 1 }

/-- The next token is one of these. -/
def nextIn (ts : List Token) : Read Bool := do return ts.contains (← peek)

/-- A tag with its handle expanded. Those of the standard begin with two exclamation marks. -/
def expandTag (handle suffix : String) : Read String := do
  match (← get).handles.find? (·.1 = handle) with
  | some (_, expansion) =>
    let standard := "tag:yaml.org,2002:"
    let long := expansion ++ suffix
    return if long.startsWith standard then "!!" ++ (long.drop standard.length).toString else long
  | none =>
    match handle with
    | "" => return suffix
    | "!" => return "!" ++ suffix
    | "!!" => return "!!" ++ suffix
    | _ => failure

structure Properties where
  anchor : Option String := none
  tag : Option String := none

/-- At most one anchor and one tag, in either order. -/
def readProperties : Nat → Properties → Read Properties
  | 0, p => return p
  | fuel + 1, p => do
    match ← peek, p.anchor, p.tag with
    | .anchor n, none, _ =>
      skip
      readProperties fuel { p with anchor := some n }
    | .tag h s, _, none =>
      skip
      let tag ← expandTag h s
      readProperties fuel { p with tag := some tag }
    | _, _, _ => return p

def define (name : Option String) (n : Node) : Read Node := do
  if let some a := name then
    modify fun r => { r with anchors := (a, n) :: r.anchors }
  return n

mutual

/-- A node; `inBlock` where blocks may begin, `unindented` where entries may stand in the margin of
the mapping around them. -/
def readNode : Nat → Bool → Bool → Read Node
  | 0, _, _ => failure
  | fuel + 1, inBlock, unindented => do
    if let .reference name := ← peek then
      skip
      match (← get).anchors.find? (·.1 = name) with
      | some (_, n) => return n
      | none => failure
    else
      let p ← readProperties 2 {}
      let tag := p.tag.getD ""
      match ← peek with
      | .blockEntry =>
        if unindented then define p.anchor (.sequence tag (← readUnindented fuel))
        else if p.anchor.isSome || p.tag.isSome then define p.anchor (.scalar tag "" .plain)
        else failure
      | .scalar text style =>
        skip
        define p.anchor (.scalar tag text style)
      | .flowSequenceStart =>
        skip
        define p.anchor (.sequence tag (← readFlowItems fuel true))
      | .flowMappingStart =>
        skip
        define p.anchor (.mapping tag (← readFlowPairs fuel true))
      | .blockSequenceStart =>
        if inBlock then
          skip
          define p.anchor (.sequence tag (← readEntries fuel))
        else if p.anchor.isSome || p.tag.isSome then define p.anchor (.scalar tag "" .plain)
        else failure
      | .blockMappingStart =>
        if inBlock then
          skip
          define p.anchor (.mapping tag (← readPairs fuel))
        else if p.anchor.isSome || p.tag.isSome then define p.anchor (.scalar tag "" .plain)
        else failure
      | _ =>
        if p.anchor.isSome || p.tag.isSome then define p.anchor (.scalar tag "" .plain)
        else failure

/-- A node, or nothing when one of `ends` is next. -/
def readOr (ends : List Token) : Nat → Bool → Bool → Read Node
  | 0, _, _ => failure
  | fuel + 1, inBlock, unindented => do
    if ← nextIn ends then return empty
    else readNode fuel inBlock unindented

def readEntries : Nat → Read (List Node)
  | 0 => failure
  | fuel + 1 => do
    match ← peek with
    | .blockEntry =>
      skip
      let n ← readOr [.blockEntry, .blockEnd] fuel true false
      return n :: (← readEntries fuel)
    | .blockEnd =>
      skip
      return []
    | _ => failure

def readUnindented : Nat → Read (List Node)
  | 0 => failure
  | fuel + 1 => do
    match ← peek with
    | .blockEntry =>
      skip
      let n ← readOr [.blockEntry, .key, .value, .blockEnd] fuel true false
      return n :: (← readUnindented fuel)
    | _ => return []

def readPairs : Nat → Read (List (Node × Node))
  | 0 => failure
  | fuel + 1 => do
    match ← peek with
    | .key =>
      skip
      let ends := [Token.key, .value, .blockEnd]
      let k ← readOr ends fuel true true
      if ← nextIn [.value] then
        skip
        let v ← readOr ends fuel true true
        return (k, v) :: (← readPairs fuel)
      else return (k, empty) :: (← readPairs fuel)
    | .blockEnd =>
      skip
      return []
    | _ => failure

/-- The items of a sequence in brackets. An item may be a single pair. -/
def readFlowItems : Nat → Bool → Read (List Node)
  | 0, _ => failure
  | fuel + 1, first => do
    if ← nextIn [.flowSequenceEnd] then
      skip
      return []
    else
      unless first do
        if ← nextIn [.flowEntry] then skip else failure
      match ← peek with
      | .flowSequenceEnd =>
        skip
        return []
      | .key =>
        skip
        let n ← readFlowPair fuel
        return n :: (← readFlowItems fuel false)
      | _ =>
        let n ← readNode fuel false false
        return n :: (← readFlowItems fuel false)

/-- A single pair among the items of a sequence. -/
def readFlowPair : Nat → Read Node
  | 0 => failure
  | fuel + 1 => do
    let ends := [Token.flowEntry, .flowSequenceEnd]
    let k ← if ← nextIn (.value :: ends) then (do skip; return empty) else readNode fuel false false
    if ← nextIn [.value] then
      skip
      let v ← readOr ends fuel false false
      return .mapping "" [(k, v)]
    else return .mapping "" [(k, empty)]

/-- The pairs of a mapping in braces. A key may stand alone. -/
def readFlowPairs : Nat → Bool → Read (List (Node × Node))
  | 0, _ => failure
  | fuel + 1, first => do
    if ← nextIn [.flowMappingEnd] then
      skip
      return []
    else
      unless first do
        if ← nextIn [.flowEntry] then skip else failure
      let ends := [Token.flowEntry, .flowMappingEnd]
      match ← peek with
      | .flowMappingEnd =>
        skip
        return []
      | .key =>
        skip
        let k ← readOr (.value :: ends) fuel false false
        if ← nextIn [.value] then
          skip
          let v ← readOr ends fuel false false
          return (k, v) :: (← readFlowPairs fuel false)
        else return (k, empty) :: (← readFlowPairs fuel false)
      | _ =>
        let k ← readNode fuel false false
        return (k, empty) :: (← readFlowPairs fuel false)

end

/-- The directives before a document. Only version 1.1 is known, and nothing is declared twice. -/
def readDirectives : Nat → Bool → Read Unit
  | 0, _ => failure
  | fuel + 1, versioned => do
    match ← peek with
    | .versionDirective major minor =>
      if versioned || major ≠ 1 || minor ≠ 1 then failure
      skip
      readDirectives fuel true
    | .tagDirective handle expansion =>
      if (← get).handles.any (·.1 = handle) then failure
      modify fun r => { r with handles := (handle, expansion) :: r.handles }
      skip
      readDirectives fuel versioned
    | _ => return ()

/-- The first document, or nothing when the stream has none. -/
def readDocument (fuel : Nat) : Read (Option Node) := do
  let ends := [Token.documentStart, .documentEnd, .streamEnd]
  match ← peek with
  | .streamEnd => return none
  | .documentStart | .versionDirective .. | .tagDirective .. =>
    readDirectives fuel false
    if ← nextIn [.documentStart] then skip else failure
    match ← peek with
    | .versionDirective .. | .tagDirective .. => return some empty
    | _ => return some (← finished (readOr ends fuel true false))
  | .documentEnd => failure
  | _ => return some (← finished (readNode fuel true false))
where
  /-- The token after the document has to be there. -/
  finished (read : Read Node) : Read Node := do
    let n ← read
    let _ ← peek
    return n

/-- Reads the first document of a text: nothing when the text is malformed, no node when it is
empty. -/
def parse? (text : String) : Option (Option Node) :=
  let ts := tokens text
  ((readDocument (4 * ts.length + 8)).run { tokens := ts }).map Prod.fst

end Node

end PromptGraph.Yaml
