/-
White space in the Unicode sense, and text without it at the ends.
-/

namespace PromptGraph.Text

/-- Unicode white space. -/
def isSpace (c : Char) : Bool :=
  let n := c.toNat
  (0x09 ≤ n && n ≤ 0x0d) || n == 0x20 || n == 0x85 || n == 0xa0 || n == 0x1680
    || (0x2000 ≤ n && n ≤ 0x200a) || n == 0x2028 || n == 0x2029 || n == 0x202f || n == 0x205f
    || n == 0x3000

def dropSpace (cs : List Char) : List Char := cs.dropWhile isSpace

def trimChars (cs : List Char) : List Char :=
  (dropSpace (dropSpace cs).reverse).reverse

/-- The text without white space at its ends. -/
def trim (s : String) : String := String.ofList (trimChars s.toList)

/-- The maximal runs without white space, in order. -/
def fields (s : String) : List String :=
  (go s.toList []).filter (· ≠ "")
where
  go : List Char → List Char → List String
    | [], run => [String.ofList run.reverse]
    | c :: cs, run => if isSpace c then String.ofList run.reverse :: go cs [] else go cs (c :: run)

end PromptGraph.Text
