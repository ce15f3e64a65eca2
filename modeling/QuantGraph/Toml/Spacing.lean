namespace QuantGraph.Toml

/-! Blanks, comments and the ends of lines. -/

/-- A reader takes a value off the front of a text and gives the rest, or
refuses the text. -/
abbrev Reader (β : Type) := List Char → Option (β × List Char)

/-- Write every end of line as a single line feed. A carriage return that is
left is part of no end of line. -/
def unifyLines : List Char → List Char
  | '\r' :: '\n' :: rest => '\n' :: unifyLines rest
  | char :: rest => char :: unifyLines rest
  | [] => []

def isBlank (char : Char) : Bool := char = ' ' || char = '\t'

def isControl (char : Char) : Bool := char.toNat < 0x20 || char.toNat = 0x7f

/-- The characters that a comment or a string on one line may hold as they
are. -/
def isPlain (char : Char) : Bool := char = '\t' || !isControl char

def skipBlanks (text : List Char) : List Char := text.dropWhile isBlank

/-- Skip blanks, line ends and comments, as between the items of an array. -/
def skipGap : (inComment : Bool) → List Char → List Char
  | _, [] => []
  | true, char :: rest =>
      if char = '\n' then skipGap false rest
      else if isPlain char then skipGap true rest
      else char :: rest
  | false, char :: rest =>
      if isBlank char || char = '\n' then skipGap false rest
      else if char = '#' then skipGap true rest
      else char :: rest

/-- Skip what may follow a statement on its line, and the end of the line. -/
def endLine (text : List Char) : Option (List Char) :=
  let rest := match skipBlanks text with
    | '#' :: comment => comment.dropWhile isPlain
    | rest => rest
  match rest with
  | [] => some []
  | '\n' :: rest => some rest
  | _ => none

end QuantGraph.Toml
