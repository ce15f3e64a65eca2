import QuantGraph.Toml.Spacing

namespace QuantGraph.Toml

/-! Strings in quotation marks: reading all four styles, and writing. -/

/-- A style of string. -/
structure QuoteStyle where
  /-- The quotation mark. -/
  mark : Char
  /-- Three marks on either side, and line ends inside. -/
  multiline : Bool
  deriving DecidableEq, Repr

/-- Only strings in double quotation marks have escapes. -/
def QuoteStyle.escapes (style : QuoteStyle) : Bool := style.mark = '"'

/-- Where the reader of a string is. -/
inductive QuotePhase where
  | content
  /-- Past the escape of a line end: the blanks and line ends that follow it are
  no content. -/
  | trimming
  | escaped
  /-- Past a backslash and blanks: a line end must follow. -/
  | endingLine
  /-- In the digits of a character's number. `left` more digits follow the next
  one. -/
  | number (left value : Nat)
  deriving DecidableEq, Repr

def hexValue? (char : Char) : Option Nat :=
  if '0' ≤ char && char ≤ '9' then some (char.toNat - '0'.toNat)
  else if 'a' ≤ char && char ≤ 'f' then some (char.toNat - 'a'.toNat + 10)
  else if 'A' ≤ char && char ≤ 'F' then some (char.toNat - 'A'.toNat + 10)
  else none

/-- The character of a given number; surrogates and larger numbers have none. -/
def charOfNumber? (number : Nat) : Option Char :=
  if number.isValidChar then some (Char.ofNat number) else none

/-- The character that a backslash and a character stand for. -/
def unescape? (char : Char) : Option Char :=
  match char with
  | 'b' => some '\x08'
  | 't' => some '\t'
  | 'n' => some '\n'
  | 'f' => some '\x0c'
  | 'r' => some '\r'
  | '"' => some '"'
  | '\\' => some '\\'
  | _ => none

namespace Quoted

/-- Put a character before the content that a reader has found. -/
def push (char : Char) (found : Option (List Char × List Char)) :
    Option (List Char × List Char) :=
  found.map fun (content, rest) => (char :: content, rest)

/-- Past one mark of a multi-line string: the content that the marks after it
make up, and the rest of the text, if they end the string. Up to two marks
before the three closing ones are content. -/
def close? (mark : Char) (text : List Char) : Option (List Char × List Char) :=
  let marks := (text.take 4).takeWhile (· = mark)
  if marks.length < 2 then none else some (marks.drop 2, text.drop marks.length)

/-- Read the content of a string and the marks that end it. -/
def body (style : QuoteStyle) : QuotePhase → Reader (List Char)
  | _, [] => none
  | .number left value, char :: rest => do
      let digit ← hexValue? char
      let number := 16 * value + digit
      match left with
      | 0 => push (← charOfNumber? number) (body style .content rest)
      | left + 1 => body style (.number left number) rest
  | .escaped, char :: rest =>
      if char = 'u' then body style (.number 3 0) rest
      else if char = 'U' then body style (.number 7 0) rest
      else if style.multiline && isBlank char then body style .endingLine rest
      else if style.multiline && char = '\n' then body style .trimming rest
      else do push (← unescape? char) (body style .content rest)
  | .endingLine, char :: rest =>
      if isBlank char then body style .endingLine rest
      else if char = '\n' then body style .trimming rest
      else none
  | phase, char :: rest =>
      if phase = .trimming && (isBlank char || char = '\n') then body style .trimming rest
      else if char = style.mark then
        if style.multiline then
          match close? style.mark rest with
          | some closed => some closed
          | none => push char (body style .content rest)
        else some ([], rest)
      else if char = '\\' && style.escapes then body style .escaped rest
      else if isPlain char || (style.multiline && char = '\n') then
        push char (body style .content rest)
      else none

/-- Read a string past its opening mark, if it is one on a single line. -/
def readLine (mark : Char) (text : List Char) : Option (String × List Char) :=
  (body { mark := mark, multiline := false } .content text).map fun (content, rest) =>
    (String.ofList content, rest)

/-- Read a string past its three opening marks. A line end right behind them is
no content. -/
def readLines (mark : Char) (text : List Char) : Option (String × List Char) :=
  let text := match text with
    | '\n' :: text => text
    | text => text
  (body { mark := mark, multiline := true } .content text).map fun (content, rest) =>
    (String.ofList content, rest)

/-- Read a string of any style past its first mark. -/
def read (mark : Char) (text : List Char) : Option (String × List Char) :=
  if text.take 2 = [mark, mark] then readLines mark (text.drop 2) else readLine mark text

/-! ## Writing -/

/-- The number of a control character in four digits. -/
def numberText (char : Char) : List Char :=
  [12, 8, 4, 0].map fun shift => (Nat.digitChar (char.toNat >>> shift % 16)).toUpper

/-- How a character is written where it needs an escape if it has one. -/
def escape (char : Char) : List Char :=
  match char with
  | '\x08' => ['\\', 'b']
  | '\t' => ['\\', 't']
  | '\n' => ['\\', 'n']
  | '\x0c' => ['\\', 'f']
  | '\r' => ['\\', 'r']
  | '"' => ['\\', '"']
  | '\\' => ['\\', '\\']
  | char => if isControl char then '\\' :: 'u' :: numberText char else [char]

/-- Whether a character can stand in no string as it is. -/
def isCoded (char : Char) : Bool := isControl char && char ≠ '\t' && char ≠ '\n'

/-- The length of the longest run of a character, the first run continuing one
of a given length. -/
def longestRun (mark : Char) : (run : Nat) → List Char → Nat
  | run, [] => run
  | run, char :: rest =>
      if char = mark then longestRun mark (run + 1) rest else max run (longestRun mark 0 rest)

example : longestRun '-' 0 "a-b--c".toList = 2 := by decide +kernel

end Quoted

namespace QuoteStyle

/-- How many quotation marks of the style may follow each other inside. -/
def maxRun (style : QuoteStyle) : Nat := if style.multiline then 2 else 0

/-- Whether a string of the style holds the content without any escape but that
of a tab. -/
def shows (style : QuoteStyle) (content : List Char) : Bool :=
  !content.any Quoted.isCoded && !(style.escapes && content.contains '\\') &&
    Quoted.longestRun style.mark 0 content ≤ style.maxRun &&
    (style.multiline || !content.contains '\n')

/-- All styles, the preferred one first. -/
def all : List QuoteStyle :=
  [{ mark := '"', multiline := false }, { mark := '\'', multiline := false },
    { mark := '"', multiline := true }, { mark := '\'', multiline := true }]

/-- The style in which a content is written: the first that shows it, and one
with escapes if none does. -/
def ofContent (content : List Char) : QuoteStyle :=
  (all.find? fun style => style.shows content).getD
    { mark := '"', multiline := content.contains '\n' }

/-- The marks on either side. -/
def marks (style : QuoteStyle) : List Char :=
  List.replicate (if style.multiline then 3 else 1) style.mark

end QuoteStyle

namespace Quoted

/-- A content with its escapes, behind a run of quotation marks. Line ends stay
as they are where the style has them, and so do quotation marks up to the run
that would end the string. -/
def escaped (style : QuoteStyle) : (run : Nat) → List Char → List Char
  | _, [] => []
  | run, char :: rest =>
      if char = style.mark then
        if run < style.maxRun then char :: escaped style (run + 1) rest
        else escape char ++ escaped style 0 rest
      else if char = '\n' && style.multiline then char :: escaped style 0 rest
      else escape char ++ escaped style 0 rest

/-- A string of a given style. Content of several lines begins below the marks. -/
def writeAs (style : QuoteStyle) (content : List Char) : List Char :=
  style.marks ++ (if style.multiline && content.contains '\n' then ['\n'] else []) ++
    (if style.escapes then escaped style 0 content else content) ++ style.marks

/-- How a string is written. -/
def write (content : List Char) : List Char := writeAs (.ofContent content) content

example : write "a\nb".toList = "\"\"\"\na\nb\"\"\"".toList := by decide +kernel
example : write "a\\'b".toList = "'''a\\'b'''".toList := by decide +kernel
example : write "'\"\t".toList = "\"\"\"'\"\\t\"\"\"".toList := by decide +kernel

end Quoted

end QuantGraph.Toml
