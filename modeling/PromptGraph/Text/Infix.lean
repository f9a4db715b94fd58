/-
Looking for one text inside another.
-/

namespace PromptGraph.Text

def beginsWith : List Char → List Char → Bool
  | _, [] => true
  | [], _ :: _ => false
  | a :: as, b :: bs => a = b && beginsWith as bs

def hasInfix (sub : List Char) : List Char → Bool
  | [] => sub.isEmpty
  | c :: cs => beginsWith (c :: cs) sub || hasInfix sub cs

/-- `sub` occurs in `s`. -/
def contains (s sub : String) : Bool := hasInfix sub.toList s.toList

/-- The text without a beginning it has. -/
def dropBeginning? (s beginning : String) : Option String :=
  if beginsWith s.toList beginning.toList then
    some (String.ofList (s.toList.drop beginning.toList.length))
  else none

end PromptGraph.Text
