import Workflow.Check.Issue
import Workflow.Text.Literal
import Workflow.Yaml.Error

/-! Why a text is not a specification. -/

namespace Workflow.Spec

inductive ReadFault where
  /-- The markup has no value. -/
  | markup (cause : Yaml.Error)
  | notMapping
  | notList (key kind : Text)
  | malformedNode (index : Nat) (issues : List Issue)
  | edgeNotMapping (index : Nat)
  | malformedEdge (index : Nat) (issues : List Issue)
  /-- A source that has one condition is given another. -/
  | conflict (index : Nat) (source condition previous : Text)
  deriving DecidableEq, Repr

namespace ReadFault

/-- The message of a refusal; a value that does not exist is no refusal of the text. -/
def message? : ReadFault → Option Text
  | markup .malformed => some "invalid YAML"
  | markup _ => none
  | notMapping => some "specification must be a mapping"
  | notList key kind => some ("'" ++ key ++ "' must be a list, got " ++ kind)
  | malformedNode index _ => some ("node #" ++ toString index ++ " is malformed")
  | edgeNotMapping index => some ("edge #" ++ toString index ++ " must be a mapping")
  | malformedEdge index _ => some ("edge #" ++ toString index ++ " is malformed")
  | conflict index source condition previous =>
    some ("edge #" ++ toString index ++ " gives " ++ Text.literal source ++ " the condition " ++
      Text.literal condition ++ ", but it already has " ++ Text.literal previous)

def issues? : ReadFault → Option (List Issue)
  | malformedNode _ issues | malformedEdge _ issues => some issues
  | _ => none

end ReadFault

end Workflow.Spec
