/-
Addresses on the web: scheme, user, host, path, query and fragment. A base address is read once; the
addresses of requests are the base with a longer path and a query of their own.
-/
import PromptGraph.Number.Integer
import PromptGraph.Text.Complaint
import PromptGraph.Text.Letter
import PromptGraph.Web.Escape

namespace PromptGraph.Web

/-- Who asks, and perhaps the word that proves it. -/
structure User where
  name : String
  password : Option String := none
  deriving DecidableEq, Inhabited

def User.text (u : User) : String :=
  match u.password with
  | some p => escape .user u.name ++ ":" ++ escape .user p
  | none => escape .user u.name

structure Address where
  scheme : String := ""
  user : Option User := none
  /-- Name and port, as one text. -/
  host : String := ""
  /-- The path with its escapes resolved, which need not be text. -/
  path : List UInt8 := []
  /-- The address ended in a question mark with nothing after it. -/
  bareQuery : Bool := false
  query : String := ""
  /-- The fragment as it was written. -/
  fragment : String := ""
  deriving DecidableEq, Inhabited

namespace Address

/-- What is wrong with an address. -/
inductive Cause where
  | controlCharacter
  | noScheme
  | colonInFirstSegment
  | badPort (port : String)
  | unclosedBracket
  | badUser
  | badPart (cause : EscapeError)
  deriving DecidableEq

def Cause.message : Cause → String
  | controlCharacter => "net/url: invalid control character in URL"
  | noScheme => "missing protocol scheme"
  | colonInFirstSegment => "first path segment in URL cannot contain colon"
  | badPort port => "invalid port " ++ Text.Quoted.encode port ++ " after host"
  | unclosedBracket => "missing ']' in host"
  | badUser => "net/url: invalid userinfo"
  | badPart (.escape text) => "invalid URL escape " ++ Text.Quoted.encode text
  | badPart (.character _) => Text.complaint

/-- An address that cannot be read, and why. -/
structure Error where
  address : String
  cause : Cause
  deriving DecidableEq

def Error.message (e : Error) : String :=
  "parse " ++ Text.Quoted.encode e.address ++ ": " ++ e.cause.message

-- ==== reading

/-- What is before the first `sep`, and what is after it when there is one. -/
def cutAt (sep : Char) : List Char → List Char × Option (List Char)
  | [] => ([], none)
  | c :: cs =>
    if c = sep then ([], some cs)
    else
      let (before, after) := cutAt sep cs
      (c :: before, after)

/-- What is before the last `sep` and what is after it. -/
def cutAtLast? (sep : Char) (cs : List Char) : Option (List Char × List Char) :=
  match cutAt sep cs.reverse with
  | (_, none) => none
  | (after, some before) => some (before.reverse, after.reverse)

def isSchemeChar (c : Char) : Bool := c.isAlphanum || c = '+' || c = '-' || c = '.'

/-- The scheme before the first colon, empty when there is none, and the rest. -/
def splitScheme (cs : List Char) : Except Cause (List Char × List Char) :=
  let name := cs.takeWhile isSchemeChar
  match cs.drop name.length with
  | ':' :: rest =>
    match name with
    | [] => .error .noScheme
    | c :: _ => .ok (if c.isAlpha then (name, rest) else ([], cs))
  | _ => .ok ([], cs)

def isPort : List Char → Bool
  | [] => true
  | c :: digits => c = ':' && digits.all Number.isDigit

def part (p : Part) (cs : List Char) : Except Cause String :=
  (unescape p (String.ofList cs)).mapError .badPart

/-- A host in brackets may name a zone, which starts with an escaped percent sign. -/
def readBracketed (cs : List Char) : Except Cause String := do
  let some (inside, port) := cutAtLast? ']' cs | throw .unclosedBracket
  unless isPort port do throw (.badPort (String.ofList port))
  match splitZone inside with
  | some (name, zone) =>
    return (← part .host name) ++ (← part .zone zone) ++ (← part .host (']' :: port))
  | none => part .host cs
where
  splitZone : List Char → Option (List Char × List Char)
    | [] => none
    | '%' :: '2' :: '5' :: rest => some ([], '%' :: '2' :: '5' :: rest)
    | c :: rest => (splitZone rest).map fun (name, zone) => (c :: name, zone)

def readHost (cs : List Char) : Except Cause String :=
  if cs.head? = some '[' then readBracketed cs
  else
    match cutAtLast? ':' cs with
    | some (_, port) =>
      if isPort (':' :: port) then part .host cs else .error (.badPort (String.ofList (':' :: port)))
    | none => part .host cs

def isUserChar (c : Char) : Bool := c.isAlphanum || "-._:~!$&'()*+,;=%@".toList.contains c

def readUser (cs : List Char) : Except Cause User := do
  unless cs.all isUserChar do throw .badUser
  match cutAt ':' cs with
  | (name, none) => return { name := ← part .user name }
  | (name, some password) =>
    return { name := ← part .user name, password := some (← part .user password) }

/-- User and host. -/
def readAuthority (cs : List Char) : Except Cause (Option User × String) :=
  match cutAtLast? '@' cs with
  | none => do return (none, ← readHost cs)
  | some (user, host) => do
    let host ← readHost host
    return (some (← readUser user), host)

def isControl (c : Char) : Bool := c.toNat < 0x20 || c.toNat = 0x7f

/-- The query, when a question mark begins one, and what is before it. -/
def splitQuery (cs : List Char) : List Char × String × Bool :=
  match cutAt '?' cs with
  | (before, none) => (before, "", false)
  | (before, some []) => (before, "", true)
  | (before, some query) => (before, String.ofList query, false)

def readPath (cs : List Char) : Except Cause (List UInt8) :=
  (unescapeOctets .path (Text.octets (String.ofList cs))).mapError .badPart

/-- Everything but the fragment. An address with a scheme and no slash after it has neither host nor
path. -/
def readWithoutFragment (cs : List Char) : Except Cause Address := do
  if cs.any isControl then throw .controlCharacter
  let (scheme, rest) ← splitScheme cs
  let scheme := Text.lower (String.ofList scheme)
  let (rest, query, bareQuery) := splitQuery rest
  let base : Address := { scheme, query, bareQuery }
  if rest.head? ≠ some '/' && scheme ≠ "" then return base
  if rest.head? ≠ some '/' && (cutAt '/' rest).1.contains ':' then throw .colonInFirstSegment
  match rest with
  | '/' :: '/' :: beyond =>
    if scheme = "" && beyond.head? = some '/' then return { base with path := ← readPath rest }
    let authority := (cutAt '/' beyond).1
    let (user, host) ← readAuthority authority
    return { base with user, host, path := ← readPath (beyond.drop authority.length) }
  | _ => return { base with path := ← readPath rest }

def parse (s : String) : Except Error Address :=
  let (before, fragment) := cutAt '#' s.toList
  match readWithoutFragment before with
  | .error cause => .error ⟨String.ofList before, cause⟩
  | .ok a =>
    match fragment with
    | none => .ok a
    | some f =>
      match part .fragment f with
      | .error cause => .error ⟨s, cause⟩
      | .ok _ => .ok { a with fragment := String.ofList f }

-- ==== writing

/-- The fragment may be written as it came. -/
def fragmentStands (f : String) : Bool :=
  (Text.octets f).all fun b =>
    Part.fragment.isPlain b || "!$&'()*+,;=:@[]%".toList.contains (Char.ofNat b.toNat)

def fragmentText (f : String) : String :=
  if fragmentStands f then f
  else
    match unescapeOctets .fragment (Text.octets f) with
    | .ok bs => escapeOctets .fragment bs
    | .error _ => f

/-- The address with `user` written in the place of the user. -/
def render (a : Address) (user : String) : String :=
  a.scheme ++ "://" ++ user ++ escape .host a.host ++ escapeOctets .path a.path
    ++ (if a.bareQuery || a.query ≠ "" then "?" ++ a.query else "")
    ++ (if a.fragment = "" then "" else "#" ++ fragmentText a.fragment)

def text (a : Address) : String :=
  a.render (match a.user with
    | some u => u.text ++ "@"
    | none => "")

/-- The address without its password, for messages. -/
def publicText (a : Address) : String :=
  match a.user with
  | some ⟨name, some _⟩ => a.render (name ++ ":***@")
  | _ => a.text

/-- The path and the query, as a request names them. -/
def target (a : Address) : String :=
  escapeOctets .path a.path ++ (if a.bareQuery || a.query ≠ "" then "?" ++ a.query else "")

-- ==== requests

/-- Query parameters, in the order of their names. -/
def queryText (params : List (String × String)) : String :=
  let sorted := params.mergeSort fun a b => decide (a.1 ≤ b.1)
  "&".intercalate (sorted.map fun (name, value) => escape .query name ++ "=" ++ escape .query value)

def dropEndSlashes (path : List UInt8) : List UInt8 :=
  (path.reverse.dropWhile (· = 0x2f)).reverse

/-- The address of `path` below the base, asked with `params`. -/
def below (base : Address) (path : String) (params : List (String × String)) : Address :=
  { base with path := dropEndSlashes base.path ++ Text.octets path, query := queryText params }

/-- A host with a colon and no port after it is the host alone. -/
def withoutEmptyPort (a : Address) : Address :=
  match a.host.toList.reverse with
  | ':' :: before => { a with host := String.ofList before.reverse }
  | _ => a

end Address

end PromptGraph.Web
