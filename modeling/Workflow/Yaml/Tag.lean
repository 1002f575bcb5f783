import Workflow.Yaml.Stamp

/-! Tags say what kind of value a node stands for. A plain scalar without a tag gets one from the
form of its text. -/

namespace Workflow.Yaml

inductive Tag where
  | null
  | bool
  | int
  | float
  | binary
  | timestamp
  | omap
  | pairs
  | set
  | str
  | seq
  | map
  /-- The key under which other mappings are merged in. -/
  | merge
  /-- The key of the value that a mapping as a whole stands for. -/
  | value
  | other
  deriving DecidableEq, Repr, Inhabited

namespace Tag

def isCollection : Tag → Bool
  | seq | map | set | omap | pairs => true
  | _ => false

def isScalar : Tag → Bool
  | null | bool | int | float | binary | timestamp | str => true
  | _ => false

def names : List (String × Tag) :=
  [("null", .null), ("bool", .bool), ("int", .int), ("float", .float), ("binary", .binary),
    ("timestamp", .timestamp), ("omap", .omap), ("pairs", .pairs), ("set", .set), ("str", .str),
    ("seq", .seq), ("map", .map), ("merge", .merge), ("value", .value)]

def authority : Text := "tag:yaml.org,2002:"

def ofUri (uri : Text) : Tag :=
  ((names.map fun (name, tag) => (authority ++ name, tag)).lookup uri).getD .other

def spellings (word : String) : List (List Char) :=
  let lower := word.toList
  let upper := lower.map Char.toUpper
  [lower, upper.take 1 ++ lower.drop 1, upper]

def isBool (text : List Char) : Bool :=
  (["yes", "no", "true", "false", "on", "off"].flatMap spellings).contains text

def isNull (text : List Char) : Bool := (['~'] :: spellings "null").contains text

def isPlace (c : Char) : Bool := c.isDigit || c == '_'

def dropSign : List Char → List Char
  | '+' :: rest | '-' :: rest => rest
  | rest => rest

def isSixtieth : List Char → Bool
  | [c] => c.isDigit
  | [a, b] => decide ('0' ≤ a ∧ a ≤ '5') && b.isDigit
  | _ => false

def splitWhere (p : Char → Bool) : List Char → List (List Char)
  | [] => [[]]
  | c :: rest =>
    if p c then [] :: splitWhere p rest
    else
      match splitWhere p rest with
      | part :: parts => (c :: part) :: parts
      | [] => [[c]]

def isSexagesimal (text : List Char) : Bool :=
  match splitWhere (· == ':') text with
  | first :: second :: rest =>
    startsWithDigit first && first.all isPlace && (second :: rest).all isSixtieth
  | _ => false
where
  startsWithDigit : List Char → Bool
    | c :: _ => c.isDigit
    | [] => false

def isExponent : List Char → Bool
  | [] => true
  | mark :: sign :: digits =>
    (mark == 'e' || mark == 'E') && (sign == '+' || sign == '-') && !digits.isEmpty &&
      digits.all Char.isDigit
  | _ => false

def isPointed : List Char → Bool
  | c :: rest =>
    if c.isDigit then
      match rest.dropWhile isPlace with
      | '.' :: fraction => isExponent (fraction.dropWhile isPlace)
      | _ => false
    else false
  | [] => false

def isBarePoint : List Char → Bool
  | '.' :: c :: rest => c.isDigit && isExponent (rest.dropWhile isPlace)
  | _ => false

def isPointedSexagesimal (text : List Char) : Bool :=
  match splitWhere (· == '.') text with
  | [whole, fraction] => isSexagesimal whole && fraction.all isPlace
  | _ => false

def isFloat (text : List Char) : Bool :=
  let body := dropSign text
  isPointed body || isBarePoint text || isPointedSexagesimal body ||
    [".inf", ".Inf", ".INF"].any (·.toList == body) ||
    [".nan", ".NaN", ".NAN"].any (·.toList == text)

def isBinaryPlace (c : Char) : Bool := c == '0' || c == '1' || c == '_'
def isOctalPlace (c : Char) : Bool := decide ('0' ≤ c ∧ c ≤ '7') || c == '_'
def isHexPlace (c : Char) : Bool := (Text.hexDigit? c).isSome || c == '_'

def isUnsignedInt (text : List Char) : Bool :=
  match text with
  | ['0'] => true
  | '0' :: 'b' :: digits => !digits.isEmpty && digits.all isBinaryPlace
  | '0' :: 'x' :: digits => !digits.isEmpty && digits.all isHexPlace
  | '0' :: digits => digits.all isOctalPlace
  | c :: rest => c.isDigit && (rest.all isPlace || isSexagesimal text)
  | [] => false

def isInt (text : List Char) : Bool := isUnsignedInt (dropSign text)

/-- A date alone has all eight digits; one before a time of day may be shorter. -/
def isTimestamp (text : List Char) : Bool :=
  match Stamp.read? text with
  | some stamp => stamp.time.isSome || text.length == 10
  | none => false

/-- One of the marks that are kept for the markup itself and give no value. -/
def isMark (text : List Char) : Bool := [['!'], ['&'], ['*']].contains text

/-- The kinds that are told by the form of a text, in the order in which they are tried. -/
def forms : List ((List Char → Bool) × Tag) :=
  [(isBool, .bool), (isFloat, .float), (isInt, .int), ((· == ['<', '<']), .merge),
    (isNull, .null), (isTimestamp, .timestamp), ((· == ['=']), .value), (isMark, .other)]

/-- A newline at the very end of a text is not part of its form. -/
def hasForm (form : List Char → Bool) (text : List Char) : Bool :=
  form text || (text.getLast? == some '\n' && form text.dropLast)

def ofPlain (text : List Char) : Tag :=
  if text.isEmpty then .null
  else ((forms.find? fun (form, _) => hasForm form text).map Prod.snd).getD .str

example : ofPlain "1:30".toList = .int ∧ ofPlain "1.5".toList = .float := by decide +kernel
example : ofPlain "-.5".toList = .str ∧ ofPlain "089".toList = .str := by decide +kernel
example : ofPlain "No".toList = .bool ∧ ofPlain "nO".toList = .str := by decide +kernel
example : ofUri "tag:yaml.org,2002:set" = .set ∧ ofUri "!x" = .other := by decide +kernel

end Tag

end Workflow.Yaml
