import QuantGraph.Toml.Reading

namespace QuantGraph.Toml

/-! Reading a document: headers and entries, one to a line. -/

/-- What has been read, and the path of the table that the last header has
opened. -/
structure Document where
  root : Entries
  path : List String

namespace Document

def empty : Document := { root := [], path := [] }

def openTable (document : Document) (key : Key) : Option Document := do
  return { root := ← document.root.openTable key, path := key.parents ++ [key.last] }

def openNext (document : Document) (key : Key) : Option Document := do
  return { root := ← document.root.openNext key, path := key.parents ++ [key.last] }

def assign (document : Document) (key : Key) (value : Value) : Option Document := do
  return { document with root := ← document.root.assignWithin document.path key value }

/-- Read one statement. -/
def readStatement (document : Document) (text : List Char) : Option (Document × List Char) :=
  match text with
  | '[' :: '[' :: rest => do
      let (key, rest) ← readKey rest
      match rest with
      | ']' :: ']' :: rest => return (← document.openNext key, rest)
      | _ => none
  | '[' :: rest => do
      let (key, rest) ← readKey rest
      match rest with
      | ']' :: rest => return (← document.openTable key, rest)
      | _ => none
  | text => do
      let ((key, value), rest) ← readEntry (readValue depthLimit) text
      return (← document.assign key value, rest)

/-- Read the statements of a text. There are fewer than `bound` lines. -/
def readLines : (bound : Nat) → Document → List Char → Option Document
  | 0, _, _ => none
  | bound + 1, document, text =>
      match skipBlanks text with
      | [] => some document
      | '\n' :: rest => readLines bound document rest
      | '#' :: rest => do readLines bound document (← endLine ('#' :: rest))
      | text => do
          let (document, rest) ← readStatement document text
          readLines bound document (← endLine rest)

end Document

/-- The entries of a document; none for a text that is no document. -/
def parse? (text : List Char) : Option Entries :=
  let text := match text with
    | '\uFEFF' :: text => text
    | text => text
  (Document.readLines (text.length + 1) .empty (unifyLines text)).map Document.root

end QuantGraph.Toml
