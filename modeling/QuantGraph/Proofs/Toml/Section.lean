import QuantGraph.Proofs.Toml.Document

/-! Entries that stand outside of any section can be put into one: below its header they are read as
before. -/

namespace QuantGraph.Toml

open Quoted (IsClearOf)

variable {text rest name : List Char}

namespace Document

variable {document next after : Document}

theorem path_openTable_ne_nil {key : Key} (opened : document.openTable key = some next) :
    next.path ≠ [] := by
  obtain ⟨_, _, ⟨⟩⟩ := Option.bind_eq_some_iff.mp opened
  exact List.append_ne_nil_of_right_ne_nil _ (List.cons_ne_nil _ _)

theorem path_openNext_ne_nil {key : Key} (opened : document.openNext key = some next) :
    next.path ≠ [] := by
  obtain ⟨_, _, ⟨⟩⟩ := Option.bind_eq_some_iff.mp opened
  exact List.append_ne_nil_of_right_ne_nil _ (List.cons_ne_nil _ _)

/-- A statement opens a table, or it is an entry, which is read alike in every document. -/
theorem opens_or_assigns (stated : document.readStatement text = some (next, rest)) :
    next.path ≠ [] ∨ ∃ key value, ∀ other : Document,
      other.readStatement text = (other.assign key value).map fun next => (next, rest) := by
  unfold readStatement at stated
  split at stated
  case h_1 =>
    obtain ⟨⟨key, behind⟩, _, stated⟩ := Option.bind_eq_some_iff.mp stated
    dsimp only at stated
    split at stated
    case h_1 =>
      obtain ⟨_, opened, ⟨⟩⟩ := Option.bind_eq_some_iff.mp stated
      exact .inl (path_openNext_ne_nil opened)
    case h_2 => cases stated
  case h_2 =>
    obtain ⟨⟨key, behind⟩, _, stated⟩ := Option.bind_eq_some_iff.mp stated
    dsimp only at stated
    split at stated
    case h_1 =>
      obtain ⟨_, opened, ⟨⟩⟩ := Option.bind_eq_some_iff.mp stated
      exact .inl (path_openTable_ne_nil opened)
    case h_2 => cases stated
  case h_3 noNext noTable =>
    obtain ⟨⟨⟨key, value⟩, behind⟩, entry, stated⟩ := Option.bind_eq_some_iff.mp stated
    obtain ⟨_, _, ⟨⟩⟩ := Option.bind_eq_some_iff.mp stated
    refine .inr ⟨key, value, fun other => ?_⟩
    rw [readStatement]
    · rw [entry]
      change (other.assign key value).bind _ = _
      cases other.assign key value <;> rfl
    · exact noNext
    · exact noTable

theorem path_assign {key : Key} {value : Value} (assigned : document.assign key value = some next) :
    next.path = document.path := by
  obtain ⟨_, _, ⟨⟩⟩ := Option.bind_eq_some_iff.mp assigned
  rfl

theorem path_readStatement_ne_nil (inside : document.path ≠ [])
    (stated : document.readStatement text = some (next, rest)) : next.path ≠ [] := by
  rcases opens_or_assigns stated with opens | ⟨key, value, assigns⟩
  · exact opens
  · rw [assigns] at stated
    obtain ⟨_, assigned, ⟨⟩⟩ := Option.map_eq_some_iff.mp stated
    rwa [path_assign assigned]

/-- A section is left only for another one. -/
theorem Leads.path_ne_nil {bound : Nat} (leads : Leads bound document text after)
    (inside : document.path ≠ []) : after.path ≠ [] := by
  induction leads with
  | ending => exact inside
  | empty _ _ induction => exact induction inside
  | comment _ _ _ induction => exact induction inside
  | statement _ stated _ _ induction => exact induction (path_readStatement_ne_nil inside stated)

/-- Lines without a header add the same entries in a section as outside of any. -/
theorem Leads.sectioned {bound : Nat} {entries : Entries}
    (leads : Leads bound (direct entries) text after) (headerless : after.path = [])
    (name : String) : Leads bound (.sectioned name entries) text (.sectioned name after.root) := by
  generalize outside : direct entries = document at leads
  induction leads generalizing entries with
  | ending line =>
      subst outside
      exact .ending line
  | empty line _ induction => exact .empty line (induction headerless outside)
  | comment line ended _ induction => exact .comment line ended (induction headerless outside)
  | statement line stated ended later induction =>
      subst outside
      rcases opens_or_assigns stated with opens | ⟨key, value, assigns⟩
      · exact absurd headerless (later.path_ne_nil opens)
      · rw [assigns, assign_direct] at stated
        obtain ⟨_, put, ⟨⟩⟩ := Option.map_eq_some_iff.mp stated
        obtain ⟨added, assigned, rfl⟩ := Option.map_eq_some_iff.mp put
        refine .statement line ?_ ended (induction headerless rfl)
        rw [assigns, assign_sectioned, assigned]
        rfl

end Document

/-- A text that opens no table by a header, and has no byte order mark. -/
structure IsHeaderless (text : List Char) : Prop where
  unmarked : IsClearOf '\uFEFF' text
  unopened : ∀ document,
    Document.readLines (text.length + 1) .empty (unifyLines text) = some document → document.path = []

/-- Below a header the entries of a text are the entries of the section. -/
theorem parse?_section (bare : IsBare name)
    (headerless : IsHeaderless text) {entries : Entries} (found : parse? text = some entries) :
    parse? ('[' :: (name ++ (']' :: '\n' :: text))) =
      some [(String.ofList name, .table .header entries)] := by
  rw [parse?_of_unmarked headerless.unmarked] at found
  obtain ⟨document, read, rfl⟩ := Option.map_eq_some_iff.mp found
  have lines := (Document.readLines_eq_some_iff.mp read).sectioned
    (headerless.unopened document read) (String.ofList name)
  have without : '\r' ∉ '[' :: (name ++ [']', '\n']) := by
    have other : '\r' ∉ name := fun member => nomatch bare.chars _ member
    simp [other]
  have unified : unifyLines ('[' :: (name ++ (']' :: '\n' :: text))) =
      '[' :: (name ++ (']' :: '\n' :: unifyLines text)) := by
    have split := unifyLines_append without text
    simpa using split
  have enough : text.length + 1 ≤ ('[' :: (name ++ (']' :: '\n' :: text))).length := by
    rw [List.length_cons, List.length_append, List.length_cons, List.length_cons]
    omega
  have unmarked : IsClearOf '\uFEFF' ('[' :: (name ++ (']' :: '\n' :: text))) := nofun
  rw [parse?_of_unmarked unmarked, unified, Document.readLines_header bare,
    Document.openTable_empty, Option.bind_some,
    Document.readLines_mono enough (Document.readLines_eq_some_iff.mpr lines)]
  rfl

end QuantGraph.Toml
