import QuantGraph.Proofs.Settings.Entries
import QuantGraph.Proofs.Toml.Document

/-! Settings that are written to a file are read from it again, whatever names they hold. -/

namespace QuantGraph.Settings

open Toml (Document Entries Value)

/-! ## Values -/

theorem readValue_booleanText (value : Bool) (rest : List Char) :
    Toml.readValue Toml.depthLimit (booleanText value ++ '\n' :: rest) =
      some (.boolean value, '\n' :: rest) := by
  cases value <;> rfl

theorem readValue_listText (names : List String) (rest : List Char) :
    Toml.readValue Toml.depthLimit (listText names ++ '\n' :: rest) =
      some (namesValue names, '\n' :: rest) := by
  match names with
  | [] => rfl
  | [name] =>
      have text : listText [name] ++ '\n' :: rest =
          '[' :: (Toml.Quoted.write name.toList ++ ']' :: '\n' :: rest) := by
        simp [listText]
      have last := Toml.readItems_last 78
        (Toml.Quoted.write name.toList ++ (']' :: '\n' :: rest)).tail.length
        (Toml.skipGap_write name.toList (']' :: '\n' :: rest))
      obtain ⟨mark, body, begins, _⟩ := Toml.exists_write name.toList
      rw [String.ofList_toList] at last
      rw [text]
      refine Toml.readValue_array ?_
      rw [begins] at last ⊢
      exact last
  | first :: second :: names =>
      let contents := (first :: second :: names).map String.toList
      have text : listText (first :: second :: names) ++ '\n' :: rest =
          '[' :: '\n' :: (Toml.itemLines contents ++ '\n' :: rest) := by
        simp [listText, Toml.itemLines, contents, List.flatMap_map]
      have enough : contents.length < ('\n' :: (Toml.itemLines contents ++ '\n' :: rest)).length := by
        have short := Toml.length_le_length_itemLines contents
        rw [List.length_cons, List.length_append]
        omega
      have items := Toml.readItems_itemLines 78 contents enough ('\n' :: rest)
      have values : contents.map (fun content => Value.text (String.ofList content)) =
          (first :: second :: names).map .text := by
        simp [contents]
      rw [text, namesValue, ← values]
      exact Toml.readValue_array items

/-! ## Lines -/

variable {β : Type}

/-- The entry of a setting, if it is set. -/
def settingEntry (key : String) (toValue : β → Value) (setting : Option β) : Entries :=
  (setting.map fun value => (key, toValue value)).toList

theorem lookup_settingEntry (key : String) (toValue : β → Value) (setting : Option β) :
    (settingEntry key toValue setting).lookup key = setting.map toValue := by
  cases setting <;> simp [settingEntry]

theorem lookup_settingEntry_of_ne {key other : String} (different : other ≠ key)
    (toValue : β → Value) (setting : Option β) :
    (settingEntry key toValue setting).lookup other = none := by
  cases setting with
  | none => rfl
  | some value => simp [settingEntry, List.lookup_cons, beq_eq_false_iff_ne.mpr different]

/-- How settings of one type are written: reading finds the value behind the blanks. -/
structure IsWritten (write : β → List Char) (toValue : β → Value) : Prop where
  unblank : ∀ value rest, Toml.skipBlanks (write value ++ rest) = write value ++ rest
  found : ∀ value rest, Toml.readValue Toml.depthLimit (write value ++ '\n' :: rest) =
    some (toValue value, '\n' :: rest)

theorem isWritten_boolean : IsWritten booleanText .boolean where
  unblank := fun value _ => by cases value <;> rfl
  found := readValue_booleanText

theorem isWritten_list : IsWritten listText namesValue where
  unblank := fun names _ => by
    match names with
    | [] => rfl
    | [_] => rfl
    | _ :: _ :: _ => rfl
  found := readValue_listText

variable {write : β → List Char} {toValue : β → Value}

/-- The line of a setting adds its entry to the section. -/
theorem readLines_lineText (written : IsWritten write toValue) {key : String} {entries : Entries}
    (bare : Toml.IsBare key.toList)
    (fresh : entries.lookup key = none) (setting : Option β) {bound : Nat} {rest : List Char}
    {after : Document}
    (later : Document.readLines bound
      (.sectioned sectionName (entries ++ settingEntry key toValue setting)) rest = some after) :
    Document.readLines (bound + 1) (.sectioned sectionName entries)
      (lineText key write setting ++ rest) = some after := by
  cases setting with
  | none =>
      rw [settingEntry, Option.map_none, Option.toList_none, List.append_nil] at later
      exact Document.readLines_mono_succ later
  | some value =>
      have assigned : (Document.sectioned sectionName entries).assign
          { parents := [], last := String.ofList key.toList } (toValue value) =
            some (.sectioned sectionName (entries ++ settingEntry key toValue (some value))) := by
        rw [String.ofList_toList, Document.assign_sectioned, Entries.assign_last fresh]
        rfl
      have text : lineText key write (some value) ++ rest =
          key.toList ++ (' ' :: '=' :: ' ' :: (write value ++ '\n' :: rest)) := by
        simp [lineText]
      rw [text, Document.readLines_entry bare (written.unblank value _) (written.found value rest)
        assigned]
      exact later

/-- The entries of settings. -/
def entries (settings : Settings) : Entries :=
  settingEntry updatePrecisionsKey .boolean settings.updatePrecisions ++
    settingEntry supportAsymmetricKey .boolean settings.supportAsymmetric ++
    settingEntry activationPrecisionsKey namesValue settings.activationPrecisions ++
    settingEntry disabledTransformationsKey namesValue settings.disabledTransformations

theorem keys_ne : updatePrecisionsKey ≠ supportAsymmetricKey ∧
    updatePrecisionsKey ≠ activationPrecisionsKey ∧
    updatePrecisionsKey ≠ disabledTransformationsKey ∧
    supportAsymmetricKey ≠ activationPrecisionsKey ∧
    supportAsymmetricKey ≠ disabledTransformationsKey ∧
    activationPrecisionsKey ≠ disabledTransformationsKey := by decide +kernel

theorem areIn_entries (settings : Settings) : settings.AreIn settings.entries := by
  obtain ⟨first, second, third, fourth, fifth, sixth⟩ := keys_ne
  constructor <;>
    simp [entries, List.lookup_append, lookup_settingEntry, lookup_settingEntry_of_ne, first, second,
      third, fourth, fifth, sixth, first.symm, second.symm, third.symm, fourth.symm, fifth.symm,
      sixth.symm]

/-! ## Files -/

theorem fileText_eq (settings : Settings) : settings.fileText =
    '[' :: (sectionName.toList ++ (']' :: '\n' ::
      (lineText updatePrecisionsKey booleanText settings.updatePrecisions ++
        (lineText supportAsymmetricKey booleanText settings.supportAsymmetric ++
          (lineText activationPrecisionsKey listText settings.activationPrecisions ++
            (lineText disabledTransformationsKey listText settings.disabledTransformations ++
              [])))))) := by
  simp [fileText]

/-- The lines of a file with settings make up a section with their entries. -/
theorem readLines_fileText (settings : Settings) :
    Document.readLines 6 .empty settings.fileText =
      some (.sectioned sectionName settings.entries) := by
  obtain ⟨first, second, third, fourth, fifth, sixth⟩ := keys_ne
  rw [fileText_eq, Document.readLines_header (by decide +kernel),
    String.ofList_toList, Document.openTable_empty, Option.bind_some]
  refine readLines_lineText isWritten_boolean (by decide +kernel) rfl _ ?_
  refine readLines_lineText isWritten_boolean (by decide +kernel) ?_ _ ?_
  · exact lookup_settingEntry_of_ne first.symm _ _
  refine readLines_lineText isWritten_list (by decide +kernel) ?_ _ ?_
  · simp [List.lookup_append, lookup_settingEntry_of_ne, second.symm, fourth.symm]
  refine readLines_lineText isWritten_list (by decide +kernel) ?_ _ rfl
  simp [List.lookup_append, lookup_settingEntry_of_ne, third.symm, fifth.symm, sixth.symm]

theorem not_mem_lineText_return {key : String} (plainKey : '\r' ∉ key.toList)
    (plain : ∀ value, '\r' ∉ write value) (setting : Option β) :
    '\r' ∉ lineText key write setting := by
  cases setting with
  | none => exact List.not_mem_nil
  | some value => simp [lineText, plainKey, plain value]

theorem not_mem_listText_return (names : List String) : '\r' ∉ listText names := by
  have plain (name : String) := Toml.Quoted.not_mem_write_return name.toList
  match names with
  | [] => decide
  | [name] => simp [listText, plain name]
  | first :: second :: names =>
      simp only [listText, List.map_cons, List.mem_append, List.mem_flatMap, List.mem_cons,
        List.mem_map]
      rintro ((opening | ⟨quoted, listed, inside⟩) | closing)
      · simp at opening
      · have isWritten : ∃ name : String, quoted = Toml.Quoted.write name.toList := by
          rcases listed with rfl | rfl | ⟨name, _, rfl⟩ <;> exact ⟨_, rfl⟩
        obtain ⟨name, rfl⟩ := isWritten
        simp [plain name] at inside
      · simp at closing

theorem not_mem_fileText_return (settings : Settings) : '\r' ∉ settings.fileText := by
  have boolean (value : Bool) : '\r' ∉ booleanText value := by cases value <;> decide
  have line {key : String} (plainKey : '\r' ∉ key.toList) (setting : Option Bool) :=
    not_mem_lineText_return plainKey boolean setting
  have list {key : String} (plainKey : '\r' ∉ key.toList) (setting : Option (List String)) :=
    not_mem_lineText_return plainKey not_mem_listText_return setting
  have sectioned : '\r' ∉ sectionName.toList := by decide +kernel
  rw [fileText_eq]
  simp [sectioned, line (show '\r' ∉ updatePrecisionsKey.toList by decide +kernel),
    line (show '\r' ∉ supportAsymmetricKey.toList by decide +kernel),
    list (show '\r' ∉ activationPrecisionsKey.toList by decide +kernel),
    list (show '\r' ∉ disabledTransformationsKey.toList by decide +kernel)]

/-- Settings that are written to a file are read from it again. -/
theorem load_fileText (settings : Settings) :
    load (some (String.ofList settings.fileText)) = .ok settings := by
  have unmarked : Toml.Quoted.IsClearOf '\uFEFF' settings.fileText := by
    rw [fileText_eq]
    exact nofun
  have enough : 6 ≤ settings.fileText.length + 1 := by
    have length : sectionName.toList.length = 13 := by decide +kernel
    rw [fileText_eq, List.length_cons, List.length_append, length]
    omega
  have document : Toml.parse? settings.fileText =
      some [(sectionName, .table .header settings.entries)] := by
    rw [Toml.parse?_of_unmarked unmarked,
      Toml.unifyLines_of_not_mem settings.not_mem_fileText_return,
      Document.readLines_mono enough settings.readLines_fileText]
    rfl
  have isSectioned : IsSectioned (String.ofList settings.fileText) settings.entries :=
    ⟨_, .header, by rwa [String.toList_ofList], List.lookup_cons_self⟩
  rw [load_of_isSectioned isSectioned, ofEntries?_eq_some_iff.mpr settings.areIn_entries]
  rfl

end QuantGraph.Settings
