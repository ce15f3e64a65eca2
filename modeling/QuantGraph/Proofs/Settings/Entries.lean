import QuantGraph.Settings.File

/-! Which settings the entries of a table hold, when they hold none, and what is loaded from a file of
such entries. -/

namespace QuantGraph.Settings

open Toml (Entries Value)

variable {β : Type}

/-- The value of a list of names. -/
def namesValue (names : List String) : Value := .array (names.map .text)

/-- Every setting has its value under its key, and one that is not set has no entry. Other keys do
not matter. -/
structure AreIn (settings : Settings) (entries : Entries) : Prop where
  updatePrecisions :
    entries.lookup updatePrecisionsKey = settings.updatePrecisions.map .boolean
  supportAsymmetric :
    entries.lookup supportAsymmetricKey = settings.supportAsymmetric.map .boolean
  activationPrecisions :
    entries.lookup activationPrecisionsKey = settings.activationPrecisions.map namesValue
  disabledTransformations :
    entries.lookup disabledTransformationsKey = settings.disabledTransformations.map namesValue

/-- A key has a value, and no setting is written as it. -/
def HasOther (toValue : β → Value) (key : String) (entries : Entries) : Prop :=
  ∃ value, entries.lookup key = some value ∧ ∀ setting, value ≠ toValue setting

/-- A setting has a value of the wrong type. -/
inductive IsMistyped (entries : Entries) : Prop where
  | boolean {key : String} (isKey : key = updatePrecisionsKey ∨ key = supportAsymmetricKey)
      (wrong : HasOther Value.boolean key entries)
  | names {key : String} (isKey : key = activationPrecisionsKey ∨ key = disabledTransformationsKey)
      (wrong : HasOther namesValue key entries)

variable {toValue : β → Value} {entries : Entries} {settings : Settings}

/-! ## Values -/

theorem boolean?_eq_some_iff (value : Value) (setting : Bool) :
    value.boolean? = some setting ↔ value = .boolean setting := by
  cases value <;> simp [Value.boolean?]

theorem text?_eq_some_iff (value : Value) (content : String) :
    value.text? = some content ↔ value = .text content := by
  cases value <;> simp [Value.text?]

theorem mapM_text?_eq_some_iff (values : List Value) (names : List String) :
    values.mapM Value.text? = some names ↔ values = names.map .text := by
  induction values generalizing names with
  | nil => cases names <;> simp
  | cons value values induction =>
      cases names <;> simp [List.mapM_cons, Option.bind_eq_some_iff, induction, text?_eq_some_iff]

theorem texts?_eq_some_iff (value : Value) (names : List String) :
    value.texts? = some names ↔ value = namesValue names := by
  cases value <;> simp [Value.texts?, namesValue, mapM_text?_eq_some_iff]

/-! ## Settings -/

theorem setting?_eq_some_iff {read : Value → Option β}
    (reads : ∀ value setting, read value = some setting ↔ value = toValue setting) {key : String}
    {setting : Option β} :
    setting? read key entries = some setting ↔ entries.lookup key = setting.map toValue := by
  unfold setting?
  cases entries.lookup key <;> cases setting <;> simp [reads]

/-- A table is read as the settings that are in it. -/
theorem ofEntries?_eq_some_iff : ofEntries? entries = some settings ↔ settings.AreIn entries := by
  constructor
  · intro read
    obtain ⟨updates, first, read⟩ := Option.bind_eq_some_iff.mp read
    obtain ⟨asymmetric, second, read⟩ := Option.bind_eq_some_iff.mp read
    obtain ⟨activations, third, read⟩ := Option.bind_eq_some_iff.mp read
    obtain ⟨disabled, fourth, ⟨⟩⟩ := Option.bind_eq_some_iff.mp read
    exact {
      updatePrecisions := (setting?_eq_some_iff boolean?_eq_some_iff).mp first
      supportAsymmetric := (setting?_eq_some_iff boolean?_eq_some_iff).mp second
      activationPrecisions := (setting?_eq_some_iff texts?_eq_some_iff).mp third
      disabledTransformations := (setting?_eq_some_iff texts?_eq_some_iff).mp fourth }
  · intro areIn
    unfold ofEntries?
    rw [(setting?_eq_some_iff boolean?_eq_some_iff).mpr areIn.updatePrecisions,
      (setting?_eq_some_iff boolean?_eq_some_iff).mpr areIn.supportAsymmetric,
      (setting?_eq_some_iff texts?_eq_some_iff).mpr areIn.activationPrecisions,
      (setting?_eq_some_iff texts?_eq_some_iff).mpr areIn.disabledTransformations]
    rfl

/-! ## Wrong types -/

theorem exists_setting_or_hasOther (toValue : β → Value) (key : String) (entries : Entries) :
    (∃ setting : Option β, entries.lookup key = setting.map toValue) ∨
      HasOther toValue key entries := by
  cases found : entries.lookup key with
  | none => exact .inl ⟨none, rfl⟩
  | some value =>
      by_cases typed : ∃ setting, value = toValue setting
      · obtain ⟨setting, rfl⟩ := typed
        exact .inl ⟨some setting, rfl⟩
      · exact .inr ⟨value, found, not_exists.mp typed⟩

theorem HasOther.lookup_ne {key : String} (wrong : HasOther toValue key entries)
    (setting : Option β) : entries.lookup key ≠ setting.map toValue := by
  obtain ⟨value, found, wrong⟩ := wrong
  rw [found]
  cases setting with
  | none => exact nofun
  | some setting => exact fun equal => wrong setting (Option.some.inj equal)

theorem exists_areIn_or_isMistyped (entries : Entries) :
    (∃ settings : Settings, settings.AreIn entries) ∨ IsMistyped entries := by
  obtain ⟨updates, first⟩ | wrong := exists_setting_or_hasOther .boolean updatePrecisionsKey entries
  case inr => exact .inr (.boolean (.inl rfl) wrong)
  obtain ⟨asymmetric, second⟩ | wrong :=
    exists_setting_or_hasOther .boolean supportAsymmetricKey entries
  case inr => exact .inr (.boolean (.inr rfl) wrong)
  obtain ⟨activations, third⟩ | wrong :=
    exists_setting_or_hasOther namesValue activationPrecisionsKey entries
  case inr => exact .inr (.names (.inl rfl) wrong)
  obtain ⟨disabled, fourth⟩ | wrong :=
    exists_setting_or_hasOther namesValue disabledTransformationsKey entries
  case inr => exact .inr (.names (.inr rfl) wrong)
  exact .inl ⟨⟨updates, asymmetric, activations, disabled⟩, first, second, third, fourth⟩

theorem AreIn.not_isMistyped (areIn : settings.AreIn entries) : ¬ IsMistyped entries := by
  rintro (⟨isKey, wrong⟩ | ⟨isKey, wrong⟩)
  · rcases isKey with rfl | rfl
    · exact wrong.lookup_ne _ areIn.updatePrecisions
    · exact wrong.lookup_ne _ areIn.supportAsymmetric
  · rcases isKey with rfl | rfl
    · exact wrong.lookup_ne _ areIn.activationPrecisions
    · exact wrong.lookup_ne _ areIn.disabledTransformations

/-- A table is read unless a setting in it has the wrong type. -/
theorem ofEntries?_eq_none_iff : ofEntries? entries = none ↔ IsMistyped entries := by
  constructor
  · intro unread
    refine (exists_areIn_or_isMistyped entries).resolve_left ?_
    rintro ⟨settings, areIn⟩
    rw [ofEntries?_eq_some_iff.mpr areIn] at unread
    cases unread
  · intro mistyped
    refine Option.eq_none_iff_forall_ne_some.mpr fun settings read => ?_
    exact (ofEntries?_eq_some_iff.mp read).not_isMistyped mistyped

/-! ## Files -/

/-- A file of some entries, and without the section. -/
structure IsDirect (file : String) (entries : Entries) : Prop where
  parsed : Toml.parse? file.toList = some entries
  without : entries.lookup sectionName = none

/-- A file with some entries in the section. -/
def IsSectioned (file : String) (entries : Entries) : Prop :=
  ∃ root form, Toml.parse? file.toList = some root ∧
    root.lookup sectionName = some (.table form entries)

variable {file : String}

/-- Outside of the section a wrong type is as good as no entry at all. -/
theorem load_of_isDirect (isDirect : IsDirect file entries) :
    load (some file) = .ok ((ofEntries? entries).getD {}) := by
  rw [load, parse, isDirect.parsed]
  change ofDocument entries = _
  rw [ofDocument, isDirect.without]

/-- In the section a wrong type is an error. -/
theorem load_of_isSectioned (isSectioned : IsSectioned file entries) :
    load (some file) = (ofEntries? entries).elim (.error .malformed) .ok := by
  obtain ⟨root, form, parsed, found⟩ := isSectioned
  rw [load, parse, parsed]
  change ofDocument root = _
  have ofTable : ofSection? (.table form entries) = ofEntries? entries := rfl
  rw [ofDocument, found]
  dsimp only
  rw [ofTable]
  cases ofEntries? entries <;> rfl

end QuantGraph.Settings
