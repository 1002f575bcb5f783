import Workflow.Text.Blank
import Workflow.Text.Quoted
import Workflow.Yaml.Load

/-! Texts as scalars of a specification: as they are where a reader gets the same text back, and
quoted otherwise. -/

namespace Workflow.Spec.Scalar

/-- Characters that would end a plain scalar inside a flow sequence. -/
def flowMarks : List Char := [',', '[', ']', '\x7b', '\x7d', ':', '#']

variable [Host]

def readsBack (value : Text) : Except Yaml.Error Bool :=
  match Yaml.load value with
  | .ok (.text read, _) => .ok (read == value)
  | .ok _ => .ok false
  | .error .malformed => .ok false
  | .error fault => .error fault

def needsQuotes (flow : Bool) (value : Text) : Except Yaml.Error Bool :=
  if Text.trimBlanks value != value || (flow && value.chars.any flowMarks.contains) then .ok true
  else (readsBack value).map (!·)

def write (flow : Bool) (value : Text) : Except Yaml.Error Text :=
  (needsQuotes flow value).map fun quotes =>
    if quotes then Text.quoted .every value else value

end Workflow.Spec.Scalar
