import QuantGraph.Toml.Reading

/-! Strings in quotation marks. Between the marks a content is spelled character by character: as it
is, or with an escape, and quotation marks as they are only in runs that are too short to end the
string. Whatever is spelled that way is read as its content, and every content is written that way. -/

namespace QuantGraph.Toml

/-! ## Spelling -/

/-- A character stands for itself in a string of some style, wherever it is. -/
structure QuoteStyle.ShowsChar (style : QuoteStyle) (char : Char) : Prop where
  ne_mark : char ≠ style.mark
  ne_backslash : style.escapes = true → char ≠ '\\'
  plain : isPlain char = true ∨ style.multiline = true ∧ char = '\n'

theorem QuoteStyle.maxRun_of_line {style : QuoteStyle} (line : style.multiline = false) :
    style.maxRun = 0 := by
  rw [maxRun, line]
  rfl

theorem QuoteStyle.multiline_of_lt_maxRun (style : QuoteStyle) {run : Nat}
    (short : run < style.maxRun) : style.multiline = true := by
  refine Bool.not_eq_false _ ▸ fun line => ?_
  rw [maxRun_of_line line] at short
  exact Nat.not_lt_zero _ short

namespace Quoted

/-- A text spells a content, behind a run of quotation marks. -/
inductive Spells (style : QuoteStyle) : (run : Nat) → (text content : List Char) → Prop where
  | nil (run : Nat) : Spells style run [] []
  | mark {run : Nat} {text content : List Char} (short : run < style.maxRun)
      (rest : Spells style (run + 1) text content) :
      Spells style run (style.mark :: text) (style.mark :: content)
  | plain {char : Char} {text content : List Char} (run : Nat) (shown : style.ShowsChar char)
      (rest : Spells style 0 text content) : Spells style run (char :: text) (char :: content)
  | escape {char : Char} {text content : List Char} (run : Nat) (escapes : style.escapes = true)
      (needed : escape char ≠ [char]) (rest : Spells style 0 text content) :
      Spells style run (escape char ++ text) (char :: content)

variable {style : QuoteStyle} {char : Char} {text content rest : List Char} {run : Nat}

theorem mark_of_escapes (escapes : style.escapes = true) : style.mark = '"' :=
  of_decide_eq_true escapes

/-! ## Control characters -/

/-- What holds of each control character by its number holds of all. -/
theorem of_isControl (holds : Char → Prop) [DecidablePred holds]
    (each : ∀ number : Fin 128, isControl (Char.ofNat number) = true → holds (Char.ofNat number))
    (control : isControl char = true) : holds char := by
  have small : char.toNat < 128 := by
    simp only [isControl, Bool.or_eq_true, decide_eq_true_eq] at control
    omega
  have back : Char.ofNat char.toNat = char := Char.ofNat_toNat char
  have held := each ⟨char.toNat, small⟩
  rw [back] at held
  exact held control

/-- The digits in which a control character is written are those of its number. -/
theorem foldlM_numberText (control : isControl char = true) :
    (numberText char).foldlM (fun value digit => (hexValue? digit).map (16 * value + ·)) 0 =
      some char.toNat :=
  of_isControl (fun char => (numberText char).foldlM
    (fun value digit => (hexValue? digit).map (16 * value + ·)) 0 = some char.toNat)
    (by decide +kernel) control

theorem exists_escape (needed : escape char ≠ [char]) : ∃ code, escape char = '\\' :: code := by
  unfold escape at needed ⊢
  split
  case h_8 =>
    split
    case isTrue => exact ⟨_, rfl⟩
    case isFalse plain => simp [plain] at needed
  all_goals exact ⟨_, rfl⟩

/-! ## Reading -/

/-- A mark ends a string on one line. -/
theorem body_mark_of_line (line : style.multiline = false) (rest : List Char) :
    body style .content (style.mark :: rest) = some ([], rest) := by
  simp [body, line]

/-- A mark ends a string of several lines with those after it, or else it is content. -/
theorem body_mark_of_lines (lines : style.multiline = true) (rest : List Char) :
    body style .content (style.mark :: rest) =
      (close? style.mark rest <|> push style.mark (body style .content rest)) := by
  cases closed : close? style.mark rest <;> simp [body, lines, closed]

theorem body_plain (shown : style.ShowsChar char) (rest : List Char) :
    body style .content (char :: rest) = push char (body style .content rest) := by
  have escapeless : (decide (char = '\\') && style.escapes) = false := by
    rw [Bool.and_eq_false_imp]
    intro backslash
    exact Bool.eq_false_iff.mpr fun escapes =>
      shown.ne_backslash escapes (of_decide_eq_true backslash)
  have plain := shown.plain
  simp only [body, shown.ne_mark, escapeless]
  simp [plain]

theorem body_backslash (escapes : style.escapes = true) (rest : List Char) :
    body style .content ('\\' :: rest) = body style .escaped rest := by
  simp [body, mark_of_escapes escapes, escapes]

/-- The digits of a number are read to the last one. -/
theorem body_number (style : QuoteStyle) (rest : List Char) {number : Nat} :
    ∀ (digits : List Char) (left value : Nat), digits.length = left + 1 →
      digits.foldlM (fun value digit => (hexValue? digit).map (16 * value + ·)) value =
        some number →
      body style (.number left value) (digits ++ rest) =
        (charOfNumber? number).bind fun char => push char (body style .content rest)
  | [], _, _, length, _ => by cases length
  | digit :: digits, left, value, length, folded => by
      rw [List.foldlM_cons] at folded
      obtain ⟨next, isNext, folded⟩ := Option.bind_eq_some_iff.mp folded
      obtain ⟨digitValue, isDigit, rfl⟩ := Option.map_eq_some_iff.mp isNext
      rw [List.cons_append, body, isDigit]
      cases left with
      | zero =>
          obtain rfl : digits = [] := List.length_eq_zero_iff.mp (by simpa using length)
          cases folded
          rfl
      | succ left => exact body_number style rest digits left _ (by simpa using length) folded

/-- An escape is read as the character that it stands for. -/
theorem body_escape (escapes : style.escapes = true) (needed : escape char ≠ [char])
    (rest : List Char) :
    body style .content (escape char ++ rest) = push char (body style .content rest) := by
  unfold escape at needed ⊢
  split at needed
  case h_8 =>
    split at needed
    case isTrue control =>
      have number := body_number style rest (numberText char) 3 0 rfl (foldlM_numberText control)
      have found : charOfNumber? char.toNat = some char := by
        rw [charOfNumber?, if_pos (show char.toNat.isValidChar from char.valid), Char.ofNat_toNat]
      rw [found, Option.bind_some] at number
      rw [if_pos control, List.cons_append, body_backslash escapes, List.cons_append, body, if_pos rfl]
      exact number
    case isFalse => exact absurd rfl needed
  all_goals
    rw [List.cons_append, body_backslash escapes]
    simp [body, unescape?, isBlank]

/-- A text does not go on with a character. -/
def IsClearOf (char : Char) (text : List Char) : Prop := text.head? ≠ some char

theorem takeWhile_run {mark : Char} (clear : IsClearOf mark rest) (count : Nat) :
    (List.replicate count mark ++ rest).takeWhile (· = mark) = List.replicate count mark := by
  rw [List.takeWhile_append_of_pos fun other member => by simp [List.eq_of_mem_replicate member]]
  suffices none_left : rest.takeWhile (· = mark) = [] by rw [none_left, List.append_nil]
  cases rest with
  | nil => rfl
  | cons first rest =>
      have other : first ≠ mark := fun equal => clear (by rw [List.head?_cons, equal])
      rw [List.takeWhile_cons_of_neg (by simpa using other)]

/-- Past the first one, two marks to four end a string, and those before the last two are content. -/
theorem close?_run {mark : Char} (clear : IsClearOf mark rest) {count : Nat} (few : count ≤ 4) :
    close? mark (List.replicate count mark ++ rest) =
      if count < 2 then none else some (List.replicate (count - 2) mark, rest) := by
  have front : ((List.replicate count mark ++ rest).take 4).takeWhile (· = mark) =
      List.replicate count mark := by
    rw [List.take_append, List.take_of_length_le (by simpa using few), List.length_replicate]
    refine takeWhile_run (fun first => clear ?_) count
    cases rest with
    | nil => simp at first
    | cons head rest =>
        cases left : 4 - count with
        | zero => simp [left] at first
        | succ left => simpa [left] using first
  rw [close?, front, List.length_replicate, List.drop_replicate, List.drop_append,
    List.length_replicate, List.drop_of_length_le (by simp), Nat.sub_self, List.nil_append,
    List.drop_zero]

namespace Spells

/-- What stands in front of the closing marks begins with a run of marks. Either it is all of the
content, or something else follows it. -/
theorem exists_run (spells : Spells style run text content) (lines : style.multiline = true)
    (bounded : run ≤ 2) (closed : List Char) :
    ∃ count, run + count ≤ 2 ∧
      (text = List.replicate count style.mark ∧ content = List.replicate count style.mark ∨
        ∃ after, text ++ closed = List.replicate count style.mark ++ after ∧
          IsClearOf style.mark after) := by
  induction spells with
  | nil run => exact ⟨0, bounded, Or.inl ⟨rfl, rfl⟩⟩
  | mark short rest induction =>
      rw [QuoteStyle.maxRun, if_pos lines] at short
      obtain ⟨count, few, found⟩ := induction short
      refine ⟨count + 1, by omega, found.imp ?_ ?_⟩
      · rintro ⟨rfl, rfl⟩
        exact ⟨rfl, rfl⟩
      · rintro ⟨after, equal, clear⟩
        exact ⟨after, by rw [List.cons_append, equal, List.replicate_succ, List.cons_append], clear⟩
  | plain run shown rest _ =>
      refine ⟨0, bounded, Or.inr ⟨_, rfl, fun first => shown.ne_mark ?_⟩⟩
      simpa using first
  | escape run escapes needed rest _ =>
      refine ⟨0, bounded, Or.inr ⟨_, rfl, fun first => ?_⟩⟩
      obtain ⟨code, isCode⟩ := exists_escape needed
      rw [mark_of_escapes escapes, isCode] at first
      simp at first

/-- A spelled content is read up to the closing marks. -/
theorem body (spells : Spells style run text content) (bounded : run ≤ style.maxRun)
    (clear : IsClearOf style.mark rest) :
    Quoted.body style .content (text ++ (style.marks ++ rest)) = some (content, rest) := by
  induction spells with
  | nil run =>
      unfold QuoteStyle.marks
      cases lines : style.multiline with
      | false => exact body_mark_of_line lines rest
      | true =>
          have closed := close?_run clear (show 2 ≤ 4 by decide)
          rw [if_pos rfl, List.nil_append, List.replicate_succ, List.cons_append,
            body_mark_of_lines lines, closed]
          rfl
  | @mark run text content short spelled induction =>
      have lines : style.multiline = true := style.multiline_of_lt_maxRun short
      have most : style.maxRun = 2 := if_pos lines
      rw [List.cons_append, body_mark_of_lines lines]
      obtain ⟨count, few, ⟨rfl, rfl⟩ | ⟨after, equal, unmarked⟩⟩ :=
        spelled.exists_run lines (by omega) (style.marks ++ rest)
      · rw [QuoteStyle.marks, if_pos lines, ← List.append_assoc, List.replicate_append_replicate,
          close?_run clear (by omega), if_neg (by omega), Nat.add_sub_assoc (by decide),
          List.replicate_succ]
        rfl
      · rw [equal, close?_run unmarked (by omega), if_pos (by omega), ← equal, induction (by omega)]
        rfl
  | plain run shown spelled induction =>
      rw [List.cons_append, body_plain shown, induction (Nat.zero_le _)]
      rfl
  | escape run escapes needed spelled induction =>
      rw [List.append_assoc, body_escape escapes needed, induction (Nat.zero_le _)]
      rfl

/-- What a content is spelled with begins like no other text: with a mark, if one may stand there,
with a character of the content or with a backslash. -/
theorem head_eq (spells : Spells style run text content) {first : Char}
    (begins : text.head? = some first) :
    run < style.maxRun ∧ first = style.mark ∨ style.ShowsChar first ∧ first ∈ content ∨
      style.escapes = true ∧ first = '\\' := by
  cases spells with
  | nil => cases begins
  | mark short => exact Or.inl ⟨short, (Option.some.inj begins).symm⟩
  | plain run shown =>
      cases begins
      exact Or.inr (Or.inl ⟨shown, List.mem_cons_self⟩)
  | escape run escapes needed =>
      obtain ⟨code, isCode⟩ := exists_escape needed
      rw [isCode] at begins
      exact Or.inr (Or.inr ⟨escapes, (Option.some.inj begins).symm⟩)

end Spells

/-- A written string of some style, the content of which is spelled: the marks, a line end if the
content has several lines, the spelling and the marks again. -/
def IsWrittenAs (style : QuoteStyle) (content written : List Char) : Prop :=
  ∃ text, Spells style 0 text content ∧
    written = style.marks ++ (if style.multiline && content.contains '\n' then ['\n'] else []) ++
      text ++ style.marks

theorem readLine_of_spells (spells : Spells style 0 text content) (line : style.multiline = false)
    (clear : IsClearOf style.mark rest) :
    readLine style.mark (text ++ (style.marks ++ rest)) = some (String.ofList content, rest) := by
  have same : { mark := style.mark, multiline := false } = style := by rw [← line]
  rw [readLine, same, spells.body (Nat.zero_le _) clear]
  rfl

theorem readLines_of_spells (spells : Spells style 0 text content) (lines : style.multiline = true)
    (clear : IsClearOf style.mark rest) (quote : style.mark ≠ '\n') :
    readLines style.mark ((if content.contains '\n' then ['\n'] else []) ++
      (text ++ (style.marks ++ rest))) = some (String.ofList content, rest) := by
  have same : { mark := style.mark, multiline := true } = style := by rw [← lines]
  have found := spells.body (Nat.zero_le _) clear
  unfold readLines
  rw [same]
  cases several : content.contains '\n' with
  | true =>
      exact congrArg (Option.map _) found
  | false =>
      rw [if_neg Bool.false_ne_true, List.nil_append]
      split
      case h_1 other equal =>
        -- A line end at the front would be dropped, but a content of one line has none.
        exfalso
        cases text with
        | nil =>
            rw [QuoteStyle.marks, if_pos lines] at equal
            exact quote (List.cons.inj equal).1
        | cons first text =>
            obtain rfl : first = '\n' := (List.cons.inj equal).1
            rcases spells.head_eq rfl with ⟨_, isMark⟩ | ⟨_, member⟩ | ⟨_, backslash⟩
            · exact quote isMark.symm
            · rw [List.contains_iff_mem.mpr member] at several
              cases several
            · cases backslash
      case h_2 => exact congrArg (Option.map _) found

/-- A written string is read as its content. -/
theorem read_of_isWrittenAs {written : List Char} (writes : IsWrittenAs style content written)
    (quote : style.mark ≠ '\n') (clear : IsClearOf style.mark rest) :
    ∃ body, written = style.mark :: body ∧
      read style.mark (body ++ rest) = some (String.ofList content, rest) := by
  obtain ⟨text, spells, rfl⟩ := writes
  unfold read
  cases lines : style.multiline with
  | true =>
      have marks : style.marks = [style.mark, style.mark, style.mark] := by
        rw [QuoteStyle.marks, if_pos lines]
        rfl
      have found := readLines_of_spells spells lines clear quote
      refine ⟨_, by rw [marks, Bool.true_and]; rfl, ?_⟩
      rw [marks] at found
      rw [if_pos (by simp)]
      simpa using found
  | false =>
      have marks : style.marks = [style.mark] := by
        rw [QuoteStyle.marks, lines]
        rfl
      have found := readLine_of_spells spells lines clear
      refine ⟨_, by rw [marks, Bool.false_and]; rfl, ?_⟩
      rw [marks] at found
      rw [if_neg ?_]
      · simpa using found
      intro two
      cases text with
      | nil =>
          cases rest with
          | nil => simp at two
          | cons first rest => exact clear (by simpa using two)
      | cons first text =>
          obtain rfl : first = style.mark := by
            simpa using congrArg List.head? two
          rcases spells.head_eq rfl with ⟨short, _⟩ | ⟨shown, _⟩ | ⟨escapes, backslash⟩
          · exact Nat.not_lt_zero 0 (QuoteStyle.maxRun_of_line lines ▸ short)
          · exact shown.ne_mark rfl
          · rw [mark_of_escapes escapes] at backslash
            cases backslash

/-! ## Writing -/

/-- What needs no escape is shown as it is, unless it is the mark. -/
theorem showsChar_of_escape_eq (plain : escape char = [char]) (different : char ≠ style.mark) :
    style.ShowsChar char := by
  refine ⟨different, fun _ backslash => ?_, Or.inl ?_⟩
  · subst backslash
    cases plain
  · unfold escape at plain
    split at plain
    case h_8 =>
      split at plain
      case isTrue => simp at plain
      case isFalse uncontrolled => simp [isPlain, uncontrolled]
    all_goals simp at plain

/-- With escapes every content can be spelled. -/
theorem spells_escaped (escapes : style.escapes = true) (content : List Char) (run : Nat) :
    Spells style run (escaped style run content) content := by
  induction content generalizing run with
  | nil => exact .nil run
  | cons char content induction =>
      rw [escaped]
      split
      case isTrue isMark =>
        subst isMark
        split
        case isTrue short => exact .mark short (induction _)
        case isFalse =>
          refine .escape run escapes ?_ (induction 0)
          rw [mark_of_escapes escapes]
          decide
      case isFalse different =>
        split
        case isTrue endsLine =>
          rw [Bool.and_eq_true, decide_eq_true_iff] at endsLine
          obtain ⟨rfl, lines⟩ := endsLine
          exact .plain run ⟨different, fun _ => by decide, Or.inr ⟨lines, rfl⟩⟩ (induction 0)
        case isFalse =>
          by_cases plain : escape char = [char]
          · rw [plain]
            exact .plain run (showsChar_of_escape_eq plain different) (induction 0)
          · exact .escape run escapes plain (induction 0)

theorem le_longestRun (mark : Char) (run : Nat) (content : List Char) :
    run ≤ longestRun mark run content := by
  induction content generalizing run with
  | nil => exact Nat.le_refl run
  | cons char content induction =>
      rw [longestRun]
      split
      · exact Nat.le_of_succ_le (induction (run + 1))
      · exact Nat.le_max_left _ _

theorem isPlain_of_uncoded (uncoded : isCoded char = false) (inLine : char ≠ '\n') :
    isPlain char = true := by
  by_cases tab : char = '\t'
  · rw [isPlain, decide_eq_true tab, Bool.true_or]
  · simpa [isCoded, isPlain, tab, inLine] using uncoded

/-- Without escapes a content that the style shows spells itself. -/
theorem spells_self (literal : style.escapes = false)
    (uncoded : ∀ char ∈ content, isCoded char = false)
    (oneLine : style.multiline = false → '\n' ∉ content)
    (runs : longestRun style.mark run content ≤ style.maxRun) : Spells style run content content := by
  induction content generalizing run with
  | nil => exact .nil run
  | cons char content induction =>
      have uncoded_rest := fun other member => uncoded other (List.mem_cons_of_mem char member)
      have oneLine_rest := fun line member => oneLine line (List.mem_cons_of_mem char member)
      rw [longestRun] at runs
      split at runs
      case isTrue isMark =>
        subst isMark
        exact .mark (Nat.lt_of_lt_of_le (le_longestRun _ _ content) runs)
          (induction uncoded_rest oneLine_rest runs)
      case isFalse different =>
        refine .plain run ⟨different, fun escapes => ?_, ?_⟩
          (induction uncoded_rest oneLine_rest (Nat.le_trans (Nat.le_max_right _ _) runs))
        · rw [literal] at escapes
          cases escapes
        · have uncoded := uncoded char List.mem_cons_self
          by_cases endsLine : char = '\n'
          · refine Or.inr ⟨?_, endsLine⟩
            refine Bool.not_eq_false _ ▸ fun line => ?_
            exact oneLine line (endsLine ▸ List.mem_cons_self)
          · exact Or.inl (isPlain_of_uncoded uncoded endsLine)

theorem spells_of_shows (shows : style.shows content = true) (literal : style.escapes = false) :
    Spells style 0 content content := by
  simp only [QuoteStyle.shows, Bool.and_eq_true, Bool.not_eq_true', List.any_eq_false,
    decide_eq_true_eq, Bool.or_eq_true] at shows
  obtain ⟨⟨⟨uncoded, _⟩, runs⟩, oneLine⟩ := shows
  refine spells_self literal (fun char member => by simpa using uncoded char member) ?_ runs
  intro line member
  rcases oneLine with lines | without
  · rw [line] at lines
    cases lines
  · rw [List.contains_iff_mem.mpr member] at without
    cases without

/-- The style in which a content is written has one of the two marks, and it has escapes unless it
shows the content. -/
theorem ofContent_eq (content : List Char) :
    ((QuoteStyle.ofContent content).mark = '"' ∨ (QuoteStyle.ofContent content).mark = '\'') ∧
      ((QuoteStyle.ofContent content).escapes = true ∨
        (QuoteStyle.ofContent content).shows content = true) := by
  unfold QuoteStyle.ofContent
  cases found : QuoteStyle.all.find? fun style => style.shows content with
  | none => exact ⟨Or.inl rfl, Or.inl rfl⟩
  | some style =>
      have listed := List.mem_of_find?_eq_some found
      have shows := @List.find?_some QuoteStyle (fun style => style.shows content) _ _ found
      refine ⟨?_, Or.inr shows⟩
      simp only [QuoteStyle.all, List.mem_cons, List.not_mem_nil, or_false] at listed
      rcases listed with rfl | rfl | rfl | rfl <;> simp

theorem isWrittenAs_write (content : List Char) :
    IsWrittenAs (.ofContent content) content (write content) := by
  refine ⟨_, ?_, rfl⟩
  split
  case isTrue escapes => exact spells_escaped escapes content 0
  case isFalse literal =>
    exact spells_of_shows ((ofContent_eq content).2.resolve_left literal) (Bool.not_eq_true _ ▸ literal)

/-! ## Ends of lines -/

/-- A carriage return is never written as it is. -/
theorem Spells.not_mem_return (spells : Spells style run text content) (quote : style.mark ≠ '\r') :
    '\r' ∉ text := by
  induction spells with
  | nil => exact List.not_mem_nil
  | mark _ _ induction => simp [quote.symm, induction]
  | plain run shown _ induction =>
      rintro member
      rcases List.mem_cons.mp member with rfl | member
      · rcases shown.plain with plain | ⟨_, endsLine⟩
        · cases plain
        · cases endsLine
      · exact induction member
  | @escape char _ _ run escapes needed _ induction =>
      intro member
      refine (List.mem_append.mp member).elim (fun member => ?_) induction
      unfold Quoted.escape at member needed
      split at needed
      case h_8 =>
        split at needed
        case isTrue control =>
          have digits := of_isControl (fun char => '\r' ∉ '\\' :: 'u' :: numberText char)
            (by decide +kernel) control
          exact digits (by simpa [control] using member)
        case isFalse => exact needed rfl
      all_goals simp at member

theorem not_mem_write_return (content : List Char) : '\r' ∉ write content := by
  obtain ⟨text, spells, equal⟩ := isWrittenAs_write content
  have quote : (QuoteStyle.ofContent content).mark ≠ '\r' := by
    rcases (ofContent_eq content).1 with isMark | isMark <;> rw [isMark] <;> decide
  have marks : '\r' ∉ (QuoteStyle.ofContent content).marks := fun member =>
    quote (List.eq_of_mem_replicate member).symm
  rw [equal]
  simp only [List.mem_append, not_or]
  refine ⟨⟨⟨marks, ?_⟩, spells.not_mem_return quote⟩, marks⟩
  split <;> simp

/-- A written string is read as its content, whatever follows it, as long as that is no quotation
mark. -/
theorem readAtom_write (content : List Char) (double : IsClearOf '"' rest)
    (single : IsClearOf '\'' rest) :
    readAtom (write content ++ rest) = some (.text (String.ofList content), rest) := by
  have writes := isWrittenAs_write content
  rcases (ofContent_eq content).1 with isMark | isMark
  · obtain ⟨text, equal, found⟩ := read_of_isWrittenAs writes (by rw [isMark]; decide)
      (isMark ▸ double)
    rw [isMark] at equal found
    rw [equal, List.cons_append, readAtom, found]
    rfl
  · obtain ⟨text, equal, found⟩ := read_of_isWrittenAs writes (by rw [isMark]; decide)
      (isMark ▸ single)
    rw [isMark] at equal found
    rw [equal, List.cons_append, readAtom, found]
    rfl

end Quoted

end QuantGraph.Toml
