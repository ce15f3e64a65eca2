import QuantGraph.Proofs.Toml.Quoted
import QuantGraph.Toml.Document

/-! Reading a document line by line. What stands on the next line does not depend on what has been
read, and a document that is read within some number of lines is read within any larger one. -/

namespace QuantGraph.Toml

open Quoted (IsClearOf)

variable {text rest name : List Char} {document after : Document}

/-! ## Lines -/

/-- What stands next in a text, past its blanks. -/
inductive Line where
  | ending
  | empty (rest : List Char)
  | comment (rest : List Char)
  | statement (text : List Char)

def Line.of (text : List Char) : Line :=
  match skipBlanks text with
  | [] => ending
  | '\n' :: rest => empty rest
  | '#' :: rest => comment rest
  | text => statement text

theorem Line.of_eq_statement (filled : skipBlanks text ≠ [])
    (newline : ∀ rest, skipBlanks text ≠ '\n' :: rest)
    (hash : ∀ rest, skipBlanks text ≠ '#' :: rest) :
    Line.of text = .statement (skipBlanks text) := by
  unfold Line.of
  split
  case h_1 laid => exact absurd laid filled
  case h_2 laid => exact absurd laid (newline _)
  case h_3 laid => exact absurd laid (hash _)
  case h_4 => rfl

namespace Document

theorem readLines_succ (bound : Nat) (document : Document) (text : List Char) :
    readLines (bound + 1) document text =
      match Line.of text with
      | .ending => some document
      | .empty rest => readLines bound document rest
      | .comment rest => (endLine ('#' :: rest)).bind (readLines bound document)
      | .statement text => (readStatement document text).bind fun (next, rest) =>
          (endLine rest).bind (readLines bound next) := by
  rw [readLines]
  split
  case h_1 laid => rw [Line.of, laid]
  case h_2 laid => simp only [Line.of, laid]
  case h_3 laid =>
    simp only [Line.of, laid]
    rfl
  case h_4 filled newline hash =>
    rw [Line.of_eq_statement filled newline hash]
    rfl

/-- Within a number of lines, reading a text leads from one document to another. -/
inductive Leads : (bound : Nat) → Document → List Char → Document → Prop where
  | ending {bound : Nat} {document : Document} {text : List Char}
      (line : Line.of text = .ending) : Leads (bound + 1) document text document
  | empty {bound : Nat} {document after : Document} {text rest : List Char}
      (line : Line.of text = .empty rest) (later : Leads bound document rest after) :
      Leads (bound + 1) document text after
  | comment {bound : Nat} {document after : Document} {text comment rest : List Char}
      (line : Line.of text = .comment comment) (ended : endLine ('#' :: comment) = some rest)
      (later : Leads bound document rest after) : Leads (bound + 1) document text after
  | statement {bound : Nat} {document next after : Document} {text statement behind rest : List Char}
      (line : Line.of text = .statement statement)
      (stated : document.readStatement statement = some (next, behind))
      (ended : endLine behind = some rest) (later : Leads bound next rest after) :
      Leads (bound + 1) document text after

theorem readLines_eq_some_iff {bound : Nat} :
    readLines bound document text = some after ↔ Leads bound document text after := by
  constructor
  · intro found
    induction bound generalizing document text with
    | zero => cases found
    | succ bound induction =>
        rw [readLines_succ] at found
        cases line : Line.of text with
        | ending =>
            rw [line] at found
            cases found
            exact .ending line
        | empty rest =>
            rw [line] at found
            exact .empty line (induction found)
        | comment comment =>
            rw [line] at found
            obtain ⟨rest, ended, found⟩ := Option.bind_eq_some_iff.mp found
            exact .comment line ended (induction found)
        | statement statement =>
            rw [line] at found
            obtain ⟨⟨next, behind⟩, stated, found⟩ := Option.bind_eq_some_iff.mp found
            obtain ⟨rest, ended, found⟩ := Option.bind_eq_some_iff.mp found
            exact .statement line stated ended (induction found)
  · intro leads
    induction leads with
    | ending line => rw [readLines_succ, line]
    | empty line _ induction =>
        rw [readLines_succ, line]
        exact induction
    | comment line ended _ induction =>
        rw [readLines_succ, line]
        exact Option.bind_eq_some_iff.mpr ⟨_, ended, induction⟩
    | statement line stated ended _ induction =>
        rw [readLines_succ, line]
        refine Option.bind_eq_some_iff.mpr ⟨_, stated, ?_⟩
        exact Option.bind_eq_some_iff.mpr ⟨_, ended, induction⟩

theorem Leads.succ {bound : Nat} (leads : Leads bound document text after) :
    Leads (bound + 1) document text after := by
  induction leads with
  | ending line => exact .ending line
  | empty line _ induction => exact .empty line induction
  | comment line ended _ induction => exact .comment line ended induction
  | statement line stated ended _ induction => exact .statement line stated ended induction

theorem readLines_mono_succ {bound : Nat} (found : readLines bound document text = some after) :
    readLines (bound + 1) document text = some after :=
  readLines_eq_some_iff.mpr (readLines_eq_some_iff.mp found).succ

theorem readLines_mono {bound larger : Nat} (le : bound ≤ larger)
    (found : readLines bound document text = some after) :
    readLines larger document text = some after := by
  induction le with
  | refl => exact found
  | step _ induction => exact readLines_mono_succ induction

end Document

/-! ## Line ends -/

theorem unifyLines_append {before : List Char} (without : '\r' ∉ before) (text : List Char) :
    unifyLines (before ++ text) = before ++ unifyLines text := by
  induction before with
  | nil => rfl
  | cons char before induction =>
      have different : char ≠ '\r' := fun equal => without (equal ▸ List.mem_cons_self)
      rw [List.cons_append, unifyLines]
      · rw [induction fun member => without (List.mem_cons_of_mem char member)]
        rfl
      · exact fun rest isReturn => absurd isReturn different

theorem unifyLines_of_not_mem (without : '\r' ∉ text) : unifyLines text = text := by
  have unified := unifyLines_append without []
  rwa [List.append_nil, unifyLines, List.append_nil] at unified

/-- Without a byte order mark the lines of a text are read as they are. -/
theorem parse?_of_unmarked (unmarked : IsClearOf '\uFEFF' text) :
    parse? text =
      (Document.readLines (text.length + 1) .empty (unifyLines text)).map Document.root := by
  unfold parse?
  split
  case h_1 => exact absurd rfl unmarked
  case h_2 => rfl

/-! ## Keys -/

/-- A name that can be written as a key without quotation marks. -/
structure IsBare (name : List Char) : Prop where
  chars : ∀ char ∈ name, isBareKeyChar char = true
  nonempty : name.isEmpty = false

instance (name : List Char) : Decidable (IsBare name) :=
  decidable_of_iff (name.all isBareKeyChar = true ∧ name.isEmpty = false)
    ⟨fun ⟨chars, nonempty⟩ => ⟨List.all_eq_true.mp chars, nonempty⟩,
      fun bare => ⟨List.all_eq_true.mpr bare.chars, bare.nonempty⟩⟩

/-- A text in which a bare key may end: no more characters of a key, and no further name. -/
structure EndsKey (text : List Char) : Prop where
  bare : ∀ char, text.head? = some char → isBareKeyChar char = false
  last : IsClearOf '.' (skipBlanks text)

theorem IsBare.exists_cons (bare : IsBare name) : ∃ first others, name = first :: others ∧
    isBareKeyChar first = true := by
  obtain ⟨first, others, rfl⟩ :=
    List.exists_cons_of_ne_nil (List.isEmpty_eq_false_iff.mp bare.nonempty)
  exact ⟨first, others, rfl, bare.chars first List.mem_cons_self⟩

theorem IsBare.append_ne_cons (bare : IsBare name) {char : Char} (other : isBareKeyChar char = false)
    (rest after : List Char) : name ++ rest ≠ char :: after := by
  obtain ⟨first, others, rfl, isBare⟩ := bare.exists_cons
  intro equal
  rw [(List.cons.inj equal).1, other] at isBare
  cases isBare

theorem readName_bare (bare : IsBare name) (ends : EndsKey rest) :
    readName (name ++ rest) = some (String.ofList name, rest) := by
  have none_left : rest.takeWhile isBareKeyChar = [] ∧ rest.dropWhile isBareKeyChar = rest := by
    cases rest with
    | nil => exact ⟨rfl, rfl⟩
    | cons first rest =>
        have other := ends.bare first rfl
        exact ⟨List.takeWhile_cons_of_neg (by simp [other]),
          List.dropWhile_cons_of_neg (by simp [other])⟩
  rw [readName]
  · rw [List.takeWhile_append_of_pos bare.chars, List.dropWhile_append_of_pos bare.chars,
      none_left.1, none_left.2, List.append_nil, bare.nonempty]
    rfl
  · exact fun after => bare.append_ne_cons rfl rest after
  · exact fun after => bare.append_ne_cons rfl rest after

theorem IsBare.skipBlanks_append (bare : IsBare name) (rest : List Char) :
    skipBlanks (name ++ rest) = name ++ rest := by
  obtain ⟨first, others, rfl, isBare⟩ := bare.exists_cons
  refine List.dropWhile_cons_of_neg fun blank => ?_
  rw [isBlank, Bool.or_eq_true, decide_eq_true_iff, decide_eq_true_iff] at blank
  rcases blank with rfl | rfl <;> cases isBare

/-- A bare name alone is a key. -/
theorem readKey_bare (bare : IsBare name) (ends : EndsKey rest) :
    readKey (name ++ rest) =
      some ({ parents := [], last := String.ofList name }, skipBlanks rest) := by
  unfold readKey depthLimit
  rw [readNames, bare.skipBlanks_append, readName_bare bare ends]
  rw [Option.bind_eq_bind, Option.bind_some]
  dsimp only
  split
  case h_1 others dotted => exact absurd (by rw [dotted]; rfl) ends.last
  case h_2 => rfl

/-! ## Values -/

/-- A written string begins with a quotation mark. -/
theorem exists_write (content : List Char) : ∃ mark body, Quoted.write content = mark :: body ∧
    (mark = '"' ∨ mark = '\'') := by
  have isMark := (Quoted.ofContent_eq content).1
  have writes := Quoted.isWrittenAs_write content
  obtain ⟨body, equal, _⟩ := Quoted.read_of_isWrittenAs writes
    (by rcases isMark with isMark | isMark <;> rw [isMark] <;> decide)
    (show IsClearOf _ [] from nofun)
  exact ⟨_, body, equal, isMark⟩

theorem skipGap_write (content rest : List Char) :
    skipGap false (Quoted.write content ++ rest) = Quoted.write content ++ rest := by
  obtain ⟨mark, body, equal, isMark⟩ := exists_write content
  rw [equal, List.cons_append]
  rcases isMark with rfl | rfl <;> rfl

theorem readValue_write (depth : Nat) (content : List Char) (double : IsClearOf '"' rest)
    (single : IsClearOf '\'' rest) :
    readValue depth (Quoted.write content ++ rest) = some (.text (String.ofList content), rest) := by
  rw [← Quoted.readAtom_write content double single]
  cases depth with
  | zero => rfl
  | succ depth =>
      obtain ⟨mark, body, equal, isMark⟩ := exists_write content
      rw [equal, List.cons_append]
      rcases isMark with rfl | rfl <;> rfl

theorem write_ne_cons (content rest : List Char) {char : Char} (double : char ≠ '"')
    (single : char ≠ '\'') (after : List Char) : Quoted.write content ++ rest ≠ char :: after := by
  obtain ⟨mark, body, equal, isMark⟩ := exists_write content
  rw [equal]
  intro begins
  rcases isMark with rfl | rfl
  · exact double (List.cons.inj begins).1.symm
  · exact single (List.cons.inj begins).1.symm

/-- The last item of an array, with the closing bracket right behind it. -/
theorem readItems_last {content : List Char} (depth bound : Nat)
    (laid : skipGap false text = Quoted.write content ++ ']' :: rest) :
    readItems (readValue depth) (bound + 1) text = some ([.text (String.ofList content)], rest) := by
  rw [readItems, laid]
  split
  case h_1 closes => exact absurd closes (write_ne_cons _ _ (by decide) (by decide) _)
  case h_2 =>
    have item : readValue depth (Quoted.write content ++ ']' :: rest) = _ :=
      readValue_write depth content nofun nofun
    rw [item]
    rfl

/-- An item of an array with a comma right behind it. -/
theorem readItems_next {content : List Char} (depth bound : Nat)
    (laid : skipGap false text = Quoted.write content ++ ',' :: rest) :
    readItems (readValue depth) (bound + 1) text =
      (readItems (readValue depth) bound rest).map fun (items, rest) =>
        (.text (String.ofList content) :: items, rest) := by
  rw [readItems, laid]
  split
  case h_1 closes => exact absurd closes (write_ne_cons _ _ (by decide) (by decide) _)
  case h_2 =>
    have item : readValue depth (Quoted.write content ++ ',' :: rest) = _ :=
      readValue_write depth content nofun nofun
    rw [item]
    change (readItems (readValue depth) bound rest).bind _ = _
    cases readItems (readValue depth) bound rest <;> rfl

/-- The items of an array of strings that stand on lines of their own, and the closing bracket. -/
def itemLines (contents : List (List Char)) : List Char :=
  contents.flatMap (fun content => "    ".toList ++ Quoted.write content ++ ",\n".toList) ++ [']']

theorem readItems_itemLines (depth : Nat) (contents : List (List Char)) {bound : Nat}
    (enough : contents.length < bound) (rest : List Char) :
    readItems (readValue depth) bound ('\n' :: (itemLines contents ++ rest)) =
      some (contents.map fun content => .text (String.ofList content), rest) := by
  induction contents generalizing bound with
  | nil =>
      obtain ⟨bound, rfl⟩ := Nat.exists_eq_succ_of_ne_zero (Nat.ne_of_gt enough)
      rfl
  | cons content contents induction =>
      obtain ⟨bound, rfl⟩ := Nat.exists_eq_succ_of_ne_zero (Nat.ne_of_gt (Nat.zero_lt_of_lt enough))
      have laid : skipGap false ('\n' :: (itemLines (content :: contents) ++ rest)) =
          Quoted.write content ++ (',' :: '\n' :: (itemLines contents ++ rest)) := by
        rw [← skipGap_write]
        simp [itemLines, skipGap, isBlank]
      rw [readItems_next depth bound laid, induction (Nat.lt_of_succ_lt_succ enough)]
      rfl

theorem length_le_length_itemLines (contents : List (List Char)) :
    contents.length ≤ (itemLines contents).length := by
  have longer (content : List Char) :
      1 ≤ ("    ".toList ++ Quoted.write content ++ ",\n".toList).length := by
    rw [List.length_append]
    exact Nat.le_add_left_of_le (by decide)
  rw [itemLines, List.length_append, List.length_flatMap]
  refine Nat.le_add_right_of_le ?_
  induction contents with
  | nil => exact Nat.le_refl 0
  | cons content contents induction =>
      rw [List.map_cons, List.sum_cons, List.length_cons, Nat.add_comm]
      exact Nat.add_le_add (longer content) induction

/-- An array is read by its items. -/
theorem readValue_array {items : List Value} {body : List Char}
    (found : readItems (readValue 78) body.length body = some (items, rest)) :
    readValue depthLimit ('[' :: body) = some (.array items, rest) := by
  unfold depthLimit
  rw [readValue, found]
  rfl

/-! ## Statements -/

theorem Document.readLines_header (bare : IsBare name) (bound : Nat) (document : Document)
    (rest : List Char) :
    readLines (bound + 1) document ('[' :: (name ++ (']' :: '\n' :: rest))) =
      (document.openTable { parents := [], last := String.ofList name }).bind fun next =>
        readLines bound next rest := by
  have key : readKey (name ++ (']' :: '\n' :: rest)) = _ := readKey_bare bare
    ⟨by rintro _ ⟨⟩; rfl, nofun⟩
  have line : Line.of ('[' :: (name ++ (']' :: '\n' :: rest))) = .statement _ := rfl
  rw [readLines_succ, line]
  dsimp only
  rw [readStatement]
  · rw [key]
    change ((document.openTable _).bind fun next => some (next, '\n' :: rest)).bind _ = _
    rw [Option.bind_assoc]
    rfl
  · exact fun after => bare.append_ne_cons rfl _ after

theorem Document.readLines_entry {bound : Nat} {next : Document} {value : Value}
    (bare : IsBare name) (unblank : skipBlanks text = text)
    (found : readValue depthLimit text = some (value, '\n' :: rest))
    (assigned : document.assign { parents := [], last := String.ofList name } value = some next) :
    readLines (bound + 1) document (name ++ (' ' :: '=' :: ' ' :: text)) =
      readLines bound next rest := by
  have key : readKey (name ++ (' ' :: '=' :: ' ' :: text)) = _ := readKey_bare bare
    ⟨by rintro _ ⟨⟩; rfl, nofun⟩
  have entry : readEntry (readValue depthLimit) (name ++ (' ' :: '=' :: ' ' :: text)) =
      some (({ parents := [], last := String.ofList name }, value), '\n' :: rest) := by
    rw [readEntry, key]
    change (readValue depthLimit (skipBlanks text)).bind _ = _
    rw [unblank, found]
    rfl
  have statement : document.readStatement (name ++ (' ' :: '=' :: ' ' :: text)) =
      some (next, '\n' :: rest) := by
    rw [readStatement]
    · rw [entry]
      change (document.assign _ value).bind _ = _
      rw [assigned]
      rfl
    · exact fun after => bare.append_ne_cons rfl _ _
    · exact fun after => bare.append_ne_cons rfl _ after
  have laid := bare.skipBlanks_append (' ' :: '=' :: ' ' :: text)
  have line : Line.of (name ++ (' ' :: '=' :: ' ' :: text)) =
      .statement (name ++ (' ' :: '=' :: ' ' :: text)) := by
    refine (Line.of_eq_statement ?_ ?_ ?_).trans (congrArg _ laid) <;> rw [laid]
    · exact List.append_ne_nil_of_right_ne_nil _ (List.cons_ne_nil _ _)
    · exact bare.append_ne_cons rfl _
    · exact bare.append_ne_cons rfl _
  rw [readLines_succ, line]
  dsimp only
  rw [statement]
  rfl

/-! ## Entries at the root and in a section -/

/-- A new name is added behind the others. -/
theorem Entries.assign_last {entries : Entries} {name : String} (fresh : entries.lookup name = none)
    (value : Value) :
    entries.assign .header { parents := [], last := name } value = some (entries ++ [(name, value)]) := by
  simp [assign, within, fresh]

namespace Document

/-- Some entries outside of any section. -/
def direct (entries : Entries) : Document := { root := entries, path := [] }

/-- The same entries in a section, and nothing else. -/
def sectioned (name : String) (entries : Entries) : Document where
  root := [(name, .table .header entries)]
  path := [name]

theorem assign_direct (entries : Entries) (key : Key) (value : Value) :
    (direct entries).assign key value = (entries.assign .header key value).map direct := by
  simp only [assign, direct, Entries.assignWithin, Entries.within]
  cases entries.assign .header key value <;> rfl

theorem assign_sectioned (name : String) (entries : Entries) (key : Key) (value : Value) :
    (sectioned name entries).assign key value =
      (entries.assign .header key value).map (sectioned name) := by
  simp only [assign, sectioned, Entries.assignWithin, Entries.within, List.lookup_cons_self,
    TableForm.admits]
  cases entries.assign .header key value <;> simp [Entries.put, sectioned]

theorem openTable_empty (name : String) :
    empty.openTable { parents := [], last := name } = some (sectioned name []) := rfl

end Document

end QuantGraph.Toml
