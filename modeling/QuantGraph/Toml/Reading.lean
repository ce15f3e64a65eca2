import QuantGraph.Toml.Literal

namespace QuantGraph.Toml

/-! Reading keys and values. -/

/-- How deep arrays and braces may be, and how many names a key may have. -/
def depthLimit : Nat := 79

/-! ## Keys -/

def isBareKeyChar (char : Char) : Bool := char.isAlphanum || char = '_' || char = '-'

/-- Read one name of a key: bare, or in quotation marks. -/
def readName (text : List Char) : Option (String × List Char) :=
  match text with
  | '"' :: rest => Quoted.readLine '"' rest
  | '\'' :: rest => Quoted.readLine '\'' rest
  | text =>
      let name := text.takeWhile isBareKeyChar
      if name.isEmpty then none else some (String.ofList name, text.dropWhile isBareKeyChar)

/-- Read the names of a key with blanks around them. There are at most `bound`
names. -/
def readNames : (bound : Nat) → Reader Key
  | 0, _ => none
  | bound + 1, text => do
      let (name, rest) ← readName (skipBlanks text)
      match skipBlanks rest with
      | '.' :: rest => do
          let (key, rest) ← readNames bound rest
          return ({ key with parents := name :: key.parents }, rest)
      | rest => return ({ parents := [], last := name }, rest)

def readKey : Reader Key := readNames depthLimit

/-! ## Values -/

/-- Read a value without parts. -/
def readAtom (text : List Char) : Option (Value × List Char) :=
  match text with
  | '"' :: rest => (Quoted.read '"' rest).map fun (content, rest) => (.text content, rest)
  | '\'' :: rest => (Quoted.read '\'' rest).map fun (content, rest) => (.text content, rest)
  | text => Literal.read text

/-- Read a key, an equality sign and a value. -/
def readEntry (value : Reader Value) (text : List Char) : Option ((Key × Value) × List Char) := do
  let (key, rest) ← readKey text
  match rest with
  | '=' :: rest => do
      let (assigned, rest) ← value (skipBlanks rest)
      return ((key, assigned), rest)
  | _ => none

/-- Read the items of an array and its closing bracket. There are fewer than
`bound` items. -/
def readItems (value : Reader Value) : (bound : Nat) → Reader (List Value)
  | 0, _ => none
  | bound + 1, text =>
      match skipGap false text with
      | ']' :: rest => some ([], rest)
      | text => do
          let (item, rest) ← value text
          match skipGap false rest with
          | ',' :: rest => do
              let (items, rest) ← readItems value bound rest
              return (item :: items, rest)
          | ']' :: rest => return ([item], rest)
          | _ => none

/-- Read the entries of a table in braces and the closing brace, behind a first
brace or a comma. There are at most `bound` entries. -/
def readBraced (value : Reader Value) : (bound : Nat) → Entries → Reader Entries
  | 0, _, _ => none
  | bound + 1, entries, text => do
      let ((key, assigned), rest) ← readEntry value text
      let entries ← entries.assign .braced key assigned
      match skipBlanks rest with
      | ',' :: rest => readBraced value bound entries rest
      | '\x7d' :: rest => return (entries, rest)
      | _ => none

/-- Read a value whose arrays and braces are at most `depth` deep. -/
def readValue : (depth : Nat) → Reader Value
  | 0, text => readAtom text
  | depth + 1, text =>
      match text with
      | '[' :: rest => do
          let (items, rest) ← readItems (readValue depth) rest.length rest
          return (.array items, rest)
      | '\x7b' :: rest =>
          match skipBlanks rest with
          | '\x7d' :: rest => some (.table .braced [], rest)
          | rest => do
              let (entries, rest) ← readBraced (readValue depth) rest.length [] rest
              return (.table .braced entries, rest)
      | text => readAtom text

end QuantGraph.Toml
