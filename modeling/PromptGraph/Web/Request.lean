/-
Requests and answers, and the way to a server.
-/
import PromptGraph.Web.Address
import PromptGraph.Web.Status
import PromptGraph.Web.Stream

namespace PromptGraph.Web

inductive Method where
  | get
  | post
  deriving DecidableEq, Inhabited

namespace Method

def name : Method → String
  | get => "GET"
  | post => "POST"

/-- The method as messages name it. -/
def title : Method → String
  | get => "Get"
  | post => "Post"

end Method

structure Request where
  method : Method := .get
  address : Address
  accept : String := ""
  contentType : String := ""
  body : ByteArray := .empty
  deriving Inhabited

structure Response where
  status : Nat := 200
  body : ByteArray := .empty
  deriving Inhabited

/-- Why there is no answer. -/
inductive SendError where
  | failed (reason : String)
  | interrupted (cause : Interruption)
  deriving DecidableEq, Inhabited

def SendError.message : SendError → String
  | failed reason => reason
  | interrupted cause => cause.message

class Network (m : Type → Type) where
  /-- An open stream. -/
  Stream : Type
  send : Deadline → Request → m (Except SendError Response)
  dial : Deadline → Address → m (Except SendError Stream)
  /-- Follows a stream up to the first frame that settles the matter, telling each note. -/
  listen {ν α : Type} : Deadline → Stream → (Frame → List ν × Option α) → (ν → m Unit) →
    m (Except StreamEnd α)

end PromptGraph.Web
