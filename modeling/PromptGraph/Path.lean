/-
File paths with slashes, taken as text: cleaning, joining and taking apart. Nothing here looks at a
disk.
-/

namespace PromptGraph.Path

-- ==== components

/-- The parts between slashes, empty ones too. -/
def splitChars : List Char → List Char → List (List Char)
  | acc, [] => [acc.reverse]
  | acc, c :: cs => if c = '/' then acc.reverse :: splitChars [] cs else splitChars (c :: acc) cs

def components (p : String) : List String := (splitChars [] p.toList).map String.ofList

def isAbsolute (p : String) : Bool := p.toList.head? = some '/'

/-- One step of cleaning, with the parts kept so far in reverse: empty parts and single dots go, and
two dots take the part before them away. In a rooted path there is nothing above the root. -/
def cleanStep (rooted : Bool) (kept : List String) (part : String) : List String :=
  if part = "" || part = "." then kept
  else if part = ".." then
    match kept with
    | [] => if rooted then [] else [".."]
    | last :: before => if last = ".." then ".." :: kept else before
  else part :: kept

/-- The parts of the cleaned path. -/
def cleanComponents (p : String) : List String :=
  ((components p).foldl (cleanStep (isAbsolute p)) []).reverse

def ofComponents (rooted : Bool) (parts : List String) : String :=
  if rooted then "/" ++ "/".intercalate parts
  else if parts.isEmpty then "."
  else "/".intercalate parts

/-- The shortest path that names the same place. -/
def clean (p : String) : String := ofComponents (isAbsolute p) (cleanComponents p)

/-- Joins the parts that are not empty, and cleans. -/
def join (parts : List String) : String :=
  match parts.filter (· ≠ "") with
  | [] => ""
  | kept => clean ("/".intercalate kept)

-- ==== parts

/-- The last part, slashes at the end apart. -/
def base (p : String) : String :=
  if p = "" then "."
  else
    match (components p).reverse.find? (· ≠ "") with
    | some last => last
    | none => "/"

/-- All but the last part, cleaned. -/
def dir (p : String) : String :=
  match (components p).dropLast with
  | [] => "."
  | before => clean ("/".intercalate before ++ "/")

/-- The last part from its last dot on. -/
def extension (p : String) : String :=
  let last := ((components p).getLast?).getD ""
  let tail := last.toList.reverse.takeWhile (· ≠ '.')
  if tail.length = last.toList.length then "" else String.ofList ('.' :: tail.reverse)

def dropCommon : List String → List String → List String × List String
  | a :: as, b :: bs => if a = b then dropCommon as bs else (a :: as, b :: bs)
  | as, bs => (as, bs)

/-- The way from one directory to a path, when text alone can tell. -/
def relative? (start target : String) : Option String :=
  if isAbsolute start ≠ isAbsolute target then none
  else
    let (up, down) := dropCommon (cleanComponents start) (cleanComponents target)
    if up.contains ".." then none
    else some (ofComponents false (up.map (fun _ => "..") ++ down))

/-- The path without its extension. -/
def trimExtension (p : String) : String :=
  String.ofList (p.toList.take (p.toList.length - (extension p).toList.length))

/-- The entries of a search path. -/
def splitList (p : String) : List String := if p = "" then [] else p.splitOn ":"

end PromptGraph.Path
