import Workflow.Yaml.Meaning
import Workflow.Yaml.Node.Reader
import Workflow.Yaml.Token.Lexer

/-! The value of a text, with what the collections in it hold. -/

namespace Workflow.Yaml

/-- An empty text has no value, and one that has no encoding cannot be read. -/
def load [Host] (text : Text) : Except Error (Value × Collections) :=
  if !text.isEncodable then .error .malformed
  else
  match Document.ofTokens? (Token.scan text.chars) with
  | .error fault => .error fault
  | .ok none => .ok (.null, .empty)
  | .ok (some document) => document.meaning

theorem load_ofChars [Host] (source : List Char) :
    load (.ofChars source) =
      match Document.ofTokens? (Token.scan source) with
      | .error fault => .error fault
      | .ok none => .ok (.null, .empty)
      | .ok (some document) => document.meaning := by
  simp [load]

end Workflow.Yaml
