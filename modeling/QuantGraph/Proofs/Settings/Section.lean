import QuantGraph.Proofs.Settings.Entries
import QuantGraph.Proofs.Toml.Section

/-! The same entries in the section of the settings and outside of any section. They are the same
settings as long as each of them has a value of its type. -/

namespace QuantGraph.Settings

open Toml (Entries)

variable {file : String} {entries : Entries}

/-- The header of the section makes a file with the section out of one without. -/
theorem isSectioned_append (isDirect : IsDirect file entries)
    (headerless : Toml.IsHeaderless file.toList) :
    IsSectioned ("[low-precision]\n" ++ file) entries := by
  have header : "[low-precision]\n".toList = '[' :: (sectionName.toList ++ [']', '\n']) := by
    decide +kernel
  have parsed : Toml.parse? ('[' :: (sectionName.toList ++ (']' :: '\n' :: file.toList))) =
      some [(String.ofList sectionName.toList, .table .header entries)] :=
    Toml.parse?_section (by decide +kernel) headerless isDirect.parsed
  refine ⟨[(sectionName, .table .header entries)], .header, ?_, List.lookup_cons_self⟩
  rw [String.ofList_toList] at parsed
  rw [String.toList_append, header, ← parsed]
  simp

/-- Entries outside of any section are the same settings as in the section, if the settings among
them have values of the right types. If one has not, the section is refused, while outside of it
nothing is set, the other settings included. Below the header of the section the lines of a file
are such a section. -/
theorem direct_eq_sectioned_iff (isDirect : IsDirect file entries) :
    (∀ sectioned, IsSectioned sectioned entries →
      (load (some file) = load (some sectioned) ↔ ¬ IsMistyped entries) ∧
      (¬ IsMistyped entries → ∃ settings : Settings, settings.AreIn entries ∧
        load (some file) = .ok settings ∧ load (some sectioned) = .ok settings) ∧
      (IsMistyped entries →
        load (some file) = .ok {} ∧ load (some sectioned) = .error .malformed)) ∧
    (Toml.IsHeaderless file.toList → IsSectioned ("[low-precision]\n" ++ file) entries) := by
  refine ⟨fun sectioned isSectioned => ?_, isSectioned_append isDirect⟩
  rw [load_of_isDirect isDirect, load_of_isSectioned isSectioned]
  cases read : ofEntries? entries with
  | none =>
      have mistyped := ofEntries?_eq_none_iff.mp read
      exact ⟨iff_of_false nofun (not_not_intro mistyped), fun typed => absurd mistyped typed,
        fun _ => ⟨rfl, rfl⟩⟩
  | some settings =>
      have areIn := ofEntries?_eq_some_iff.mp read
      exact ⟨iff_of_true rfl areIn.not_isMistyped, fun _ => ⟨settings, areIn, rfl, rfl⟩,
        fun mistyped => absurd mistyped areIn.not_isMistyped⟩

/-- Two settings, the first of which is a number. -/
def numberFile : String := "update_precisions = 1\nsupport_asymmetric_quantization = false\n"

def numberEntries : Entries :=
  [(updatePrecisionsKey, .number), (supportAsymmetricKey, .boolean false)]

theorem isDirect_numberFile : IsDirect numberFile numberEntries where
  parsed := by rfl
  without := by decide +kernel

theorem isMistyped_numberEntries : IsMistyped numberEntries :=
  .boolean (.inl rfl) ⟨.number, List.lookup_cons_self, nofun⟩

theorem isHeaderless_numberFile : Toml.IsHeaderless numberFile.toList where
  unmarked := show numberFile.toList.head? ≠ some '\uFEFF' by decide +kernel
  unopened := by
    intro document read
    have direct : Toml.Document.readLines (numberFile.toList.length + 1) .empty
        (Toml.unifyLines numberFile.toList) = some (.direct numberEntries) := by rfl
    rw [direct] at read
    cases read
    rfl

/-- The number is refused in the section, and outside of it the other setting is lost as well. -/
theorem direct_eq_sectioned_iff_numberFile :
    IsDirect numberFile numberEntries ∧ Toml.IsHeaderless numberFile.toList ∧
      IsMistyped numberEntries ∧
      load (some numberFile) = .ok {} ∧
      load (some ("[low-precision]\n" ++ numberFile)) = .error .malformed := by
  have isDirect := isDirect_numberFile
  have isSectioned := (direct_eq_sectioned_iff isDirect).2 isHeaderless_numberFile
  have refused := ((direct_eq_sectioned_iff isDirect).1 _ isSectioned).2.2 isMistyped_numberEntries
  exact ⟨isDirect, isHeaderless_numberFile, isMistyped_numberEntries, refused⟩

/-- The same entries may be settings in one place, without one of the right type, and an error in
the other place. -/
theorem exists_direct_ne_sectioned : ∃ direct sectioned entries,
    IsDirect direct entries ∧ IsSectioned sectioned entries ∧
      entries.lookup supportAsymmetricKey = some (.boolean false) ∧
      load (some direct) = .ok {} ∧ load (some sectioned) = .error .malformed := by
  refine ⟨numberFile, "[low-precision]\n" ++ numberFile, numberEntries, isDirect_numberFile,
    isSectioned_append isDirect_numberFile isHeaderless_numberFile, rfl, ?_, ?_⟩
  · rw [load_of_isDirect isDirect_numberFile,
      ofEntries?_eq_none_iff.mpr isMistyped_numberEntries]
    rfl
  · rw [load_of_isSectioned (isSectioned_append isDirect_numberFile isHeaderless_numberFile),
      ofEntries?_eq_none_iff.mpr isMistyped_numberEntries]
    rfl

end QuantGraph.Settings
