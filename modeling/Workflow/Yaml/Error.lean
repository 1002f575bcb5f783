/-! Faults of a markup text. Most texts that cannot be read are malformed; the others have the form
of a value that does not exist. -/

namespace Workflow.Yaml

inductive Error where
  | malformed
  /-- A truth value that is none of the six words. -/
  | unknownWord
  | badNumber
  /-- A number without any character. -/
  | emptyNumber
  /-- Text that has not the form of a date. -/
  | notTime
  /-- A mapping where the text of a date belongs. -/
  | mappedTime
  /-- A date, time of day or offset outside the calendar. -/
  | impossibleTime
  /-- An escape for a code point past the last one. -/
  | noCharacter
  /-- An escape for a code point of more than thirty-one bits. -/
  | hugeCharacter
  /-- A power of sixty beyond the greatest double. -/
  | hugePlace
  /-- A number with too many digits to be read or written. -/
  | digitLimit
  /-- Collections nested too deep, or values that contain each other without end. -/
  | tooDeep
  deriving DecidableEq, Repr, Inhabited

end Workflow.Yaml
