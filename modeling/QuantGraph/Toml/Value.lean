namespace QuantGraph.Toml

/-! Values of a TOML document. A table keeps how it came about, because that
decides which later lines may add to it. -/

inductive TableForm where
  /-- A header opens the table. -/
  | header
  /-- The header of a table further inside names it on the way. -/
  | implied
  /-- A dotted key names it on the way. -/
  | dotted
  /-- The table is written in braces. -/
  | braced
  deriving DecidableEq, Repr

/-- Whether a path that creates tables of one form may lead through a table. A
dotted key does not add to a table with a header, and nothing adds to a table
in braces. -/
def TableForm.admits (form created : TableForm) : Bool :=
  match form with
  | implied | dotted => true
  | header => created ≠ dotted
  | braced => false

inductive Value where
  | text (content : String)
  | boolean (value : Bool)
  /-- A number. Settings have none, so only its presence is kept. -/
  | number
  /-- A date, a time or both, of which only the presence is kept. -/
  | moment
  | array (items : List Value)
  | table (form : TableForm) (entries : List (String × Value))
  /-- Tables of one name, each opened by a header of its own. -/
  | tables (items : List (List (String × Value)))
  deriving Repr, Inhabited

namespace Value

def boolean? : Value → Option Bool
  | boolean value => some value
  | _ => none

def text? : Value → Option String
  | text content => some content
  | _ => none

/-- The strings of an array that holds nothing else. -/
def texts? : Value → Option (List String)
  | array items => items.mapM text?
  | _ => none

end Value

/-- The entries of a table, in the order in which their keys came up. -/
abbrev Entries := List (String × Value)

/-- A key: the names of the tables on the way, and the name of the entry. -/
structure Key where
  parents : List String
  last : String
  deriving DecidableEq, Repr

namespace Entries

/-- Set an entry, in place if there is one of that name. -/
def put (name : String) (value : Value) : Entries → Entries
  | [] => [(name, value)]
  | entry :: entries =>
      if entry.1 = name then (name, value) :: entries else entry :: put name value entries

/-- Change the table to which a path leads. Tables that are missing on the way
are created with the given form; under a name of several tables the path leads
into the last one. -/
def within (created : TableForm) (change : TableForm → Entries → Option Entries) :
    TableForm → Entries → List String → Option Entries
  | form, entries, [] => change form entries
  | _, entries, name :: path =>
      match entries.lookup name with
      | none => do
          let nested ← within created change created [] path
          return put name (.table created nested) entries
      | some (.table form nested) =>
          if form.admits created then do
            let nested ← within created change form nested path
            return put name (.table form nested) entries
          else none
      | some (.tables items) => do
          let nested ← within created change .header (items.getLastD []) path
          return put name (.tables (items.dropLast ++ [nested])) entries
      | some _ => none

/-- Add the entry for a key to a table of some form. A table that a dotted key
reaches is one that only dotted keys have named, and no key occurs twice. -/
def assign (form : TableForm) (entries : Entries) (key : Key) (value : Value) :
    Option Entries :=
  within .dotted (fun form entries =>
    if (form = .dotted) = (key.parents = []) then none
    else if (entries.lookup key.last).isSome then none
    else some (entries ++ [(key.last, value)])) form entries key.parents

/-- Open the table of a header. A table of that name must be one that only
headers of tables further inside have named. -/
def openTable (root : Entries) (key : Key) : Option Entries :=
  within .implied (fun _ entries =>
    match entries.lookup key.last with
    | none => some (put key.last (.table .header []) entries)
    | some (.table .implied nested) => some (put key.last (.table .header nested) entries)
    | some _ => none) .header root key.parents

/-- Open one more table under a name of several tables. -/
def openNext (root : Entries) (key : Key) : Option Entries :=
  within .implied (fun _ entries =>
    match entries.lookup key.last with
    | none => some (put key.last (.tables [[]]) entries)
    | some (.tables items) => some (put key.last (.tables (items ++ [[]])) entries)
    | some _ => none) .header root key.parents

/-- Add an entry to the table that a header has opened. -/
def assignWithin (root : Entries) (path : List String) (key : Key) (value : Value) :
    Option Entries :=
  within .implied (fun form entries => assign form entries key value) .header root path

end Entries

end QuantGraph.Toml
