import Workflow.Text.Basic
import Workflow.Yaml.Error

/-! Tokens of the markup, in the order of the text. A block collection is opened by a token at its
first entry and closed where the indentation ends. -/

namespace Workflow.Yaml

inductive Token where
  /-- The version directive, of which the major number matters. -/
  | version (major : Nat)
  | handle (name : Text) (expansion : Text)
  /-- A directive of another name, which is ignored. -/
  | reserved
  | documentStart
  | documentEnd
  | blockSequenceStart
  | blockMappingStart
  | blockEnd
  | flowSequenceStart
  | flowSequenceEnd
  | flowMappingStart
  | flowMappingEnd
  | blockEntry
  | flowEntry
  | key
  | value
  | anchor (name : Text)
  | alias (name : Text)
  | tag (handle : Option Text) (suffix : Text)
  | scalar (content : Text) (plain : Bool)
  deriving DecidableEq, Repr

/-- The tokens up to the end of a text, or up to the fault that ended it. -/
structure Token.Stream where
  tokens : List Token
  fault : Option Error
  deriving DecidableEq, Repr

end Workflow.Yaml
