import Workflow.Yaml.Character
import Workflow.Yaml.Error
import Workflow.Yaml.Token.Basic
import Workflow.Number.Notation

/-! Directives, tags and names of anchors. -/

namespace Workflow.Yaml.Property

def isUriMark (c : Char) : Bool :=
  [';', '/', '?', ':', '@', '&', '=', '+', '$', ',', '.', '!', '~', '*', '\x27', '(', ')', '[',
    ']', '%'].contains c

def isUriChar (c : Char) : Bool := isNameChar c || isUriMark c

def escapedBytes : Nat → List Char → Except Error (List UInt8 × List Char)
  | fuel + 1, '%' :: rest =>
    match rest with
    | high :: low :: after =>
      match Text.hexDigit? high, Text.hexDigit? low with
      | some high, some low =>
        (escapedBytes fuel after).map fun (bytes, end_) => (UInt8.ofNat (16 * high + low) :: bytes, end_)
      | _, _ => .error .malformed
    | _ => .error .malformed
  | _, text => .ok ([], text)

/-- The escapes of one run must together form whole characters. -/
def escapedRun (text : List Char) : Except Error (List Char × List Char) :=
  match escapedBytes (text.length + 1) text with
  | .error fault => .error fault
  | .ok (bytes, rest) =>
    match String.fromUTF8? (ByteArray.mk bytes.toArray) with
    | some decoded => .ok (decoded.toList, rest)
    | none => .error .malformed

def uriChars : Nat → List Char → Except Error (List Char × List Char)
  | 0, text => .ok ([], text)
  | _ + 1, [] => .ok ([], [])
  | fuel + 1, c :: rest =>
    if c = '%' then
      match escapedRun (c :: rest) with
      | .error fault => .error fault
      | .ok (part, after) => (uriChars fuel after).map fun (more, end_) => (part ++ more, end_)
    else if isUriChar c then (uriChars fuel rest).map fun (more, end_) => (c :: more, end_)
    else .ok ([], c :: rest)

def uri (text : List Char) : Except Error (Text × List Char) :=
  match uriChars (text.length + 1) text with
  | .error fault => .error fault
  | .ok (chars, rest) =>
    if startsWith isUriChar text then .ok (Text.ofChars chars, rest) else .error .malformed

def handle (text : List Char) : Except Error (Text × List Char) :=
  match text with
  | '!' :: rest =>
    if rest.head? == some ' ' then .ok ("!", rest)
    else
      let name := rest.takeWhile isNameChar
      match rest.dropWhile isNameChar with
      | '!' :: after => .ok (Text.ofChars ('!' :: name ++ ['!']), after)
      | _ => .error .malformed
  | _ => .error .malformed

def endsWord (found : Except Error (Token × List Char)) : Except Error (Token × List Char) :=
  match found with
  | .ok (token, rest) => if atWordEnd rest then .ok (token, rest) else .error .malformed
  | fault => fault

def hasHandle (text : List Char) : Bool :=
  (text.takeWhile fun c => !(c == ' ' || isBreak c)).contains '!'

/-- A tag after its exclamation mark: given in full, by a handle, or left open. -/
def tag (text : List Char) : Except Error (Token × List Char) :=
  endsWord <|
    match text with
    | '<' :: rest =>
      match uri rest with
      | .ok (suffix, '>' :: after) => .ok (.tag none suffix, after)
      | _ => .error .malformed
    | text =>
      if atGap text then .ok (.tag none "!", text)
      else if hasHandle text then
        match handle ('!' :: text) with
        | .error fault => .error fault
        | .ok (name, rest) => (uri rest).map fun (suffix, after) => (.tag (some name) suffix, after)
      else (uri text).map fun (suffix, after) => (.tag (some "!") suffix, after)

def isNameEnd (c : Char) : Bool :=
  c == ' ' || c == '\t' || isBreak c ||
    ['?', ':', ',', ']', '\x7d', '%', '@', '\x60'].contains c

def name (text : List Char) : Except Error (Text × List Char) :=
  let found := text.takeWhile isNameChar
  let rest := text.dropWhile isNameChar
  if found.isEmpty || !(rest.isEmpty || startsWith isNameEnd rest) then .error .malformed
  else .ok (Text.ofChars found, rest)

def dropBlanks (text : List Char) : List Char := text.dropWhile (· == ' ')

def versionNumber (text : List Char) : Except Error (Nat × List Char) :=
  let (digits, rest) := Numeral.plainDigits text
  if digits.isEmpty then .error .malformed
  else if Numeral.digitLimit < digits.length then .error .digitLimit
  else .ok (Numeral.digitsValue digits, rest)

def version (text : List Char) : Except Error (Token × List Char) :=
  endsWord <|
    match versionNumber (dropBlanks text) with
    | .ok (major, '.' :: rest) => (versionNumber rest).map fun (_, after) => (.version major, after)
    | _ => .error .malformed

def handleDirective (text : List Char) : Except Error (Token × List Char) :=
  endsWord <|
    match handle (dropBlanks text) with
    | .ok (name, ' ' :: rest) =>
      (uri (dropBlanks rest)).map fun (expansion, after) => (.handle name expansion, after)
    | _ => .error .malformed

def directiveBody (name : List Char) (rest : List Char) : Except Error (Token × List Char) :=
  if name = "YAML".toList then version rest
  else if name = "TAG".toList then handleDirective rest
  else .ok (.reserved, rest.dropWhile (!isBreak ·))

def directive (text : List Char) : Except Error (Token × List Char) :=
  let name := text.takeWhile isNameChar
  let rest := text.dropWhile isNameChar
  if name.isEmpty || !atWordEnd rest then .error .malformed
  else
    match directiveBody name rest with
    | .error fault => .error fault
    | .ok (token, rest) =>
      let rest := dropBlanks rest
      let rest := if rest.head? == some '#' then rest.dropWhile (!isBreak ·) else rest
      if atLineEnd rest then
        match lineBreak? rest with
        | some (_, after) => .ok (token, after)
        | none => .ok (token, rest)
      else .error .malformed

end Workflow.Yaml.Property
