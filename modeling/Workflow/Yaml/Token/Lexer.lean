import Workflow.Yaml.Token.Basic
import Workflow.Yaml.Token.Block
import Workflow.Yaml.Token.Plain
import Workflow.Yaml.Token.Property
import Workflow.Yaml.Token.Quoted

/-! From text to tokens. A key without a mark of its own is known only by the colon behind it, so
the place before a possible key is remembered until its line ends. -/

namespace Workflow.Yaml

/-- A place where a key may begin: how many tokens come before it, and where it is. -/
structure Candidate where
  count : Nat
  required : Bool
  index : Nat
  line : Nat
  column : Nat
  deriving DecidableEq, Repr

/-- The state between two tokens. Tokens are kept newest first; every open flow collection has put
the candidate of its surroundings on `outer`. -/
structure Lexer where
  cursor : Cursor
  tokens : List Token
  candidate : Option Candidate
  outer : List (Option Candidate)
  columns : List Nat
  keyAllowed : Bool
  deriving DecidableEq, Repr

namespace Lexer

def start (text : List Char) : Lexer := ⟨.start text, [], none, [], [], true⟩

def inFlow (s : Lexer) : Bool := !s.outer.isEmpty

/-- The least column of text that continues the innermost block. -/
def margin (s : Lexer) : Nat :=
  match s.columns with
  | [] => 0
  | column :: _ => column + 1

def emit (token : Token) (s : Lexer) : Lexer := { s with tokens := token :: s.tokens }

def moveTo (rest : List Char) (s : Lexer) : Lexer := { s with cursor := s.cursor.skipTo rest }

def allowKey (allowed : Bool) (s : Lexer) : Lexer := { s with keyAllowed := allowed }

def skipGaps : Nat → List Char → List Char × Bool
  | 0, text => (text, false)
  | fuel + 1, text =>
    let text := text.dropWhile (· == ' ')
    let text := if text.head? == some '#' then text.dropWhile (!isBreak ·) else text
    match lineBreak? text with
    | none => (text, false)
    | some (_, rest) => ((skipGaps fuel rest).1, true)

def toToken (s : Lexer) : Lexer :=
  let text := s.cursor.rest
  let text := if s.cursor.index == 0 && text.head? == some byteOrderMark then text.drop 1 else text
  let (rest, broken) := skipGaps (text.length + 1) text
  { s.moveTo rest with keyAllowed := s.keyAllowed || (broken && !s.inFlow) }

/-- A key spans one line and at most 1024 characters. -/
def isStale (cursor : Cursor) (candidate : Candidate) : Bool :=
  candidate.line != cursor.line || decide (candidate.index + 1024 < cursor.index)

def refresh (cursor : Cursor) : Option Candidate → Except Error (Option Candidate)
  | none => .ok none
  | some candidate =>
    if isStale cursor candidate then
      if candidate.required then .error .malformed else .ok none
    else .ok (some candidate)

def dropStale (s : Lexer) : Except Error Lexer :=
  match refresh s.cursor s.candidate, s.outer.mapM (refresh s.cursor) with
  | .ok candidate, .ok outer => .ok { s with candidate := candidate, outer := outer }
  | _, _ => .error .malformed

def forgetCandidate (s : Lexer) : Except Error Lexer :=
  match s.candidate with
  | some candidate =>
    if candidate.required then .error .malformed else .ok { s with candidate := none }
  | none => .ok s

/-- In a block, text at the column of its mapping must turn out to be a key. -/
def saveCandidate (s : Lexer) : Except Error Lexer :=
  if s.keyAllowed then
    s.forgetCandidate.map fun s =>
      { s with
        candidate := some ⟨s.tokens.length, !s.inFlow && s.columns.head? == some s.cursor.column,
          s.cursor.index, s.cursor.line, s.cursor.column⟩ }
  else .ok s

def closeWhere (p : Nat → Bool) (s : Lexer) : Lexer :=
  if s.inFlow then s
  else
    { s with
      tokens := List.replicate (s.columns.takeWhile p).length .blockEnd ++ s.tokens
      columns := s.columns.dropWhile p }

def closeBlocks (column : Nat) : Lexer → Lexer := closeWhere (decide <| column < ·)

def closeAll : Lexer → Lexer := closeWhere fun _ => true

def isDeeper (column : Nat) (s : Lexer) : Bool :=
  match s.columns with
  | [] => true
  | innermost :: _ => decide (innermost < column)

def openBlock (token : Token) (column : Nat) (s : Lexer) : Lexer :=
  if s.isDeeper column then
    { s with tokens := token :: s.tokens, columns := column :: s.columns }
  else s

def documentMark (token : Token) (s : Lexer) : Except Error Lexer :=
  s.closeAll.forgetCandidate.map fun s =>
    ((s.allowKey false).moveTo (s.cursor.rest.drop 3)).emit token

def directive (rest : List Char) (s : Lexer) : Except Error Lexer :=
  match s.closeAll.forgetCandidate, Property.directive rest with
  | .ok s, .ok (token, after) => .ok (((s.allowKey false).moveTo after).emit token)
  | .error fault, _ | _, .error fault => .error fault

def openFlow (token : Token) (rest : List Char) (s : Lexer) : Except Error Lexer :=
  s.saveCandidate.map fun s =>
    { ((s.allowKey true).moveTo rest).emit token with
      candidate := none, outer := s.candidate :: s.outer }

def closeFlow (token : Token) (rest : List Char) (s : Lexer) : Except Error Lexer :=
  match s.forgetCandidate, s.outer with
  | .ok s, candidate :: outer =>
    .ok { ((s.allowKey false).moveTo rest).emit token with candidate := candidate, outer := outer }
  | _, _ => .error .malformed

def flowEntry (rest : List Char) (s : Lexer) : Except Error Lexer :=
  s.forgetCandidate.map fun s => ((s.allowKey true).moveTo rest).emit .flowEntry

def blockMark (opening mark : Token) (keyAllowed : Bool) (rest : List Char) (s : Lexer) :
    Except Error Lexer :=
  if !s.inFlow && !s.keyAllowed then .error .malformed
  else
    let s := if s.inFlow then s else s.openBlock opening s.cursor.column
    s.forgetCandidate.map fun s => ((s.allowKey keyAllowed).moveTo rest).emit mark

def insertKey (candidate : Candidate) (s : Lexer) : Lexer :=
  let recent := s.tokens.length - candidate.count
  let opening := !s.inFlow && s.isDeeper candidate.column
  let marks : List Token := if opening then [.key, .blockMappingStart] else [.key]
  { s with
    tokens := s.tokens.take recent ++ marks ++ s.tokens.drop recent
    columns := if opening then candidate.column :: s.columns else s.columns
    candidate := none }

def value (rest : List Char) (s : Lexer) : Except Error Lexer :=
  match s.candidate with
  | some candidate =>
    .ok (((s.insertKey candidate).allowKey false |>.moveTo rest).emit .value)
  | none => s.blockMark .blockMappingStart .value (!s.inFlow) rest

def keyPart (found : Except Error (Token × List Char)) (s : Lexer) : Except Error Lexer :=
  match s.saveCandidate, found with
  | .ok s, .ok (token, rest) => .ok (((s.allowKey false).moveTo rest).emit token)
  | .error fault, _ | _, .error fault => .error fault

def blockScalar (folded : Bool) (rest : List Char) (s : Lexer) : Except Error Lexer :=
  match s.forgetCandidate, Block.read folded s.margin rest with
  | .ok s, .ok (content, after) =>
    .ok (((s.allowKey true).moveTo after).emit (.scalar (.ofChars content) false))
  | .error fault, _ | _, .error fault => .error fault

def quotedScalar (double : Bool) (rest : List Char) (s : Lexer) : Except Error Lexer :=
  s.keyPart ((Quoted.read double rest).map fun (content, after) => (.scalar content false, after))

/-- After a plain scalar a key may follow if the scalar ended with its line. -/
def plainScalar (s : Lexer) : Except Error Lexer :=
  let found := Plain.read s.inFlow s.margin s.cursor.rest
  s.saveCandidate.map fun s =>
    ((s.allowKey found.broken).moveTo found.rest).emit (.scalar (.ofChars found.content) true)

def namePart (make : Text → Token) (rest : List Char) (s : Lexer) : Except Error Lexer :=
  s.keyPart ((Property.name rest).map fun (name, after) => (make name, after))

def isIndicator (c : Char) : Bool :=
  ['-', '?', ':', ',', '[', ']', '\x7b', '\x7d', '#', '&', '*', '!', '|', '>', '\x27', '\x22',
    '%', '@', '\x60'].contains c

def startsPlain (flow : Bool) (c : Char) (rest : List Char) : Bool :=
  (!(c == ' ' || c == '\t' || isBreak c) && !isIndicator c) ||
    (!atGap rest && (c == '-' || (!flow && (c == '?' || c == ':'))))

def fetch (c : Char) (rest : List Char) (s : Lexer) : Except Error Lexer :=
  let atMargin := s.cursor.column == 0
  if c == '%' && atMargin then s.directive rest
  else if c == '-' && atMargin && atDivider (c :: rest) then s.documentMark .documentStart
  else if c == '.' && atMargin && atDivider (c :: rest) then s.documentMark .documentEnd
  else if c == '[' then s.openFlow .flowSequenceStart rest
  else if c == '\x7b' then s.openFlow .flowMappingStart rest
  else if c == ']' then s.closeFlow .flowSequenceEnd rest
  else if c == '\x7d' then s.closeFlow .flowMappingEnd rest
  else if c == ',' then s.flowEntry rest
  else if c == '-' && atGap rest then s.blockMark .blockSequenceStart .blockEntry true rest
  else if c == '?' && (s.inFlow || atGap rest) then
    s.blockMark .blockMappingStart .key (!s.inFlow) rest
  else if c == ':' && (s.inFlow || atGap rest) then s.value rest
  else if c == '*' then s.namePart .alias rest
  else if c == '&' then s.namePart .anchor rest
  else if c == '!' then s.keyPart (Property.tag rest)
  else if c == '|' && !s.inFlow then s.blockScalar false rest
  else if c == '>' && !s.inFlow then s.blockScalar true rest
  else if c == '\x27' then s.quotedScalar false rest
  else if c == '\x22' then s.quotedScalar true rest
  else if startsPlain s.inFlow c rest then s.plainScalar
  else .error .malformed

def pending (s : Lexer) : List Candidate :=
  (s.candidate :: s.outer).filterMap fun candidate? => candidate?.filter (!isStale s.cursor ·)

/-- The tokens before the first possible key: no later text changes them. -/
def settled (s : Lexer) : List Token :=
  s.tokens.reverse.take ((s.pending.map Candidate.count).foldl min s.tokens.length)

def stop (fault : Error) (s : Lexer) : Token.Stream := ⟨s.settled, some fault⟩

def finish (s : Lexer) : Except Error (List Token) :=
  s.closeAll.forgetCandidate.map fun s => s.tokens.reverse

/-- Every token takes at least one character, so the length of the text bounds the rounds. -/
def run : Nat → Lexer → Token.Stream
  | 0, s => s.stop .malformed
  | fuel + 1, s =>
    match s.toToken.dropStale with
    | .error fault => s.stop fault
    | .ok ready =>
      let ready := ready.closeBlocks ready.cursor.column
      match ready.cursor.rest with
      | [] =>
        match ready.finish with
        | .error fault => s.stop fault
        | .ok tokens => ⟨tokens, none⟩
      | c :: rest =>
        match ready.fetch c rest with
        | .error fault => s.stop fault
        | .ok after => run fuel after

end Lexer

def Token.scan (text : List Char) : Token.Stream :=
  if text.all isAllowed then Lexer.run (text.length + 1) (.start text) else ⟨[], some .malformed⟩

end Workflow.Yaml
