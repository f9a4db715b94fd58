/-
Giving a server an image to work on.
-/
import PromptGraph.Path
import PromptGraph.Server.Client
import PromptGraph.Web.Media

namespace PromptGraph.Server

open Json (Source Decode)

/-- Where the server put an image. -/
structure Upload where
  name : String := ""
  folder : String := ""
  area : String := ""
  deriving DecidableEq, Inhabited

/-- The image as an input names it. -/
def Upload.reference (u : Upload) : String :=
  if u.folder = "" then u.name else u.folder ++ "/" ++ u.name

def readUpload : Upload → Source → Decode Empty Upload :=
  Decode.record .lenient ["name", "subfolder", "type"] fun u field v =>
    match field with
    | "name" => return { u with name := ← Decode.text u.name v }
    | "subfolder" => return { u with folder := ← Decode.text u.folder v }
    | _ => return { u with area := ← Decode.text u.area v }

/-- The place that an answer tells; the name stays when the answer has none. -/
def Upload.ofAnswer (name body : String) : Except Error Upload :=
  match Decode.ofText? (readUpload {}) body with
  | none => .error (.undecodable "upload response")
  | some u => .ok (if u.name = "" then { u with name } else u)

/-- A message of two parts: the image, and the wish to put it in the place of an older one. -/
def uploadBody (boundary name : String) (content : ByteArray) : ByteArray :=
  let type := (Web.mediaType? (Path.extension name)).getD "image/png"
  let lines (ls : List String) : ByteArray := ("\r\n".intercalate ls).toUTF8
  lines [
    "--" ++ boundary,
    "Content-Disposition: form-data; name=\"image\"; filename=" ++ Text.Quoted.encode name,
    "Content-Type: " ++ type,
    "",
    ""] ++ content ++ lines [
    "",
    "--" ++ boundary,
    "Content-Disposition: form-data; name=\"overwrite\"",
    "",
    "true",
    "--" ++ boundary ++ "--",
    ""]

namespace Client

variable {m : Type → Type} [Monad m] [Web.Network m]

/-- Uploads a file, under its own name if `name` is empty. -/
def upload [Files m] [Chance m] [Console m] (c : Client) (deadline : Deadline)
    (path name : String) : m (Except Error Upload) := do
  match ← Files.read path with
  | .error e =>
    return .error (if e.action = "open" then .openImage e else .readImage e)
  | .ok content =>
    let name := if name = "" then Path.base path else name
    let boundary ← Chance.freshBoundary
    let request := { c.request "/upload/image" [] with
      method := .post, contentType := "multipart/form-data; boundary=" ++ boundary,
      body := uploadBody boundary name content }
    match ← ask deadline request with
    | .error cause => return .error (.request ("upload " ++ name) cause)
    | .ok body =>
      let outcome := Upload.ofAnswer name body
      if let .ok u := outcome then
        Console.log ⟨.debug, "image uploaded", [("name", u.name), ("subfolder", u.folder)]⟩
      return outcome

end Client

end PromptGraph.Server
