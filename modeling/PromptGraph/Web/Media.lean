/-
Media types of files, told by the ending of their names.
-/
import PromptGraph.Assoc
import PromptGraph.Text.Letter

namespace PromptGraph.Web

def mediaTypes : Assoc String := [
  (".avif", "image/avif"),
  (".css", "text/css; charset=utf-8"),
  (".gif", "image/gif"),
  (".htm", "text/html; charset=utf-8"),
  (".html", "text/html; charset=utf-8"),
  (".jpeg", "image/jpeg"),
  (".jpg", "image/jpeg"),
  (".js", "text/javascript; charset=utf-8"),
  (".json", "application/json"),
  (".mjs", "text/javascript; charset=utf-8"),
  (".pdf", "application/pdf"),
  (".png", "image/png"),
  (".svg", "image/svg+xml"),
  (".wasm", "application/wasm"),
  (".webp", "image/webp"),
  (".xml", "text/xml; charset=utf-8")]

/-- The type of a name's extension, without regard to case. -/
def mediaType? (extension : String) : Option String := mediaTypes.get? (Text.lower extension)

end PromptGraph.Web
