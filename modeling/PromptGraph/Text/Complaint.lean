/-
What a reader of JSON, YAML or a schedule says about input it cannot read is not part of any message
of this library; one fixed mark stands for it.
-/

namespace PromptGraph.Text

/-- Stands for a reader's own description of what is wrong with its input. -/
def complaint : String := "<decoder>"

end PromptGraph.Text
