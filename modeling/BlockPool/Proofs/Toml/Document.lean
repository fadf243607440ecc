import BlockPool.Proofs.Toml.Lexeme
import BlockPool.Proofs.Toml.Number
import BlockPool.Toml.Document

/-!
# Flat tables that read back

The lines that are written for settings are read as these settings, in their
order, as long as no key is given twice and every number fits.
-/

namespace BlockPool.Toml

def Scalar.Fits : Scalar → Prop
  | integer value => -integerBound ≤ value ∧ value < integerBound
  | _ => True

/-! ## Values -/

def startsScalar (c : Char) : Bool :=
  c = '"' || c = '-' || c.isDigit || c = 't' || c = 'f'

theorem exists_text_eq (s : Scalar) :
    ∃ c cs, s.text = c :: cs ∧ startsScalar c = true := by
  cases s with
  | string text => exact ⟨'"', _, rfl, rfl⟩
  | boolean value => cases value <;> exact ⟨_, _, rfl, rfl⟩
  | integer value =>
      cases value with
      | ofNat n =>
          obtain ⟨c, ds, shape, digit, _⟩ := exists_toDigits_eq n
          refine ⟨c, ds, ?_, by simp [startsScalar, digit]⟩
          rw [Scalar.text, Int.toString_eq_repr, Int.repr, Nat.toList_repr, shape]
      | negSucc n =>
          refine ⟨'-', Nat.toDigits 10 (n + 1), ?_, rfl⟩
          rw [Scalar.text, Int.toString_eq_repr, Int.repr, String.toList_append,
            Nat.toList_repr]
          rfl

theorem string_eq_none {c : Char} (cs : List Char) (quote : c ≠ '"')
    (apostrophe : c ≠ '\'') : string (c :: cs) = none := by
  unfold string
  split
  · next same => exact absurd (List.cons.inj same).1 quote
  · next same => exact absurd (List.cons.inj same).1 quote
  · next same => exact absurd (List.cons.inj same).1 apostrophe
  · next same => exact absurd (List.cons.inj same).1 apostrophe
  · rfl

theorem scalar_integer {n : Int} (inside : -integerBound ≤ n ∧ n < integerBound)
    (rest : List Char) :
    scalar ((toString n).toList ++ '\n' :: rest) =
      some (.scalar (.integer n), '\n' :: rest) := by
  obtain ⟨negative, m, cut⟩ := exists_cut n rest
  obtain ⟨c, cs, text, first⟩ := cut.head
  have plain (d : Char) (letter : d ≠ '-' ∧ d.isDigit = false) : c ≠ d := by
    rintro rfl
    rcases first with minus | digit
    · exact letter.1 minus
    · rw [digit] at letter
      cases letter.2
  have read : string (c :: cs) = none :=
    string_eq_none cs (plain '"' (by decide)) (plain '\'' (by decide))
  rw [text] at cut ⊢
  unfold scalar
  split
  · next same => exact absurd (List.cons.inj same).1 (plain 't' (by decide))
  · next same => exact absurd (List.cons.inj same).1 (plain 'f' (by decide))
  · rw [read, cut.dateTime, cut.float_eq_none, cut.integer_eq, inRange, if_pos inside]
    rfl

theorem scalar_text (s : Scalar) (fits : s.Fits) (rest : List Char) :
    scalar (s.text ++ '\n' :: rest) = some (.scalar s, '\n' :: rest) := by
  cases s with
  | integer n => exact scalar_integer fits rest
  | boolean value => cases value <;> rfl
  | string text =>
      have read := string_quotedText text (c := '\n') rest (by decide)
      simp only [Scalar.text, quotedText, List.cons_append] at read ⊢
      unfold scalar
      split
      · next same => cases (List.cons.inj same).1
      · next same => cases (List.cons.inj same).1
      · rw [read]

theorem value_eq_scalar {c : Char} (cs : List Char) (bracket : c ≠ '[') (brace : c ≠ '{')
    (depth : Nat) : value (depth + 1) (c :: cs) = scalar (c :: cs) := by
  cases depth with
  | zero => rfl
  | succ depth =>
      rw [value]
      · exact nofun
      · intro _ same
        exact bracket (List.cons.inj same).1
      · intro _ same
        exact brace (List.cons.inj same).1

theorem value_text (s : Scalar) (fits : s.Fits) (rest : List Char) :
    value depthLimit (skipBlanks (' ' :: s.text ++ '\n' :: rest)) =
      some (.scalar s, '\n' :: rest) := by
  obtain ⟨c, cs, text, starts⟩ := exists_text_eq s
  have read := scalar_text s fits rest
  have skipped : skipBlanks (' ' :: s.text ++ '\n' :: rest) = c :: (cs ++ '\n' :: rest) := by
    rw [text]
    exact skipBlanks_of_class starts rfl rfl (cs ++ '\n' :: rest)
  rw [text, List.cons_append] at read
  rw [skipped, depthLimit,
    value_eq_scalar _ (ne_of_class starts rfl) (ne_of_class starts rfl), read]

/-! ## Lines -/

theorem settingLine_append (setting : String × Scalar) (rest : List Char) :
    settingLine setting ++ rest =
      keyText setting.1 ++ ' ' :: '=' :: (' ' :: setting.2.text ++ '\n' :: rest) := by
  simp [settingLine]

theorem pair_settingLine (setting : String × Scalar) (fits : setting.2.Fits)
    (rest : List Char) :
    pair (value depthLimit) (settingLine setting ++ rest) =
      some (([], setting.1), .scalar setting.2, '\n' :: rest) := by
  rw [settingLine_append, pair, key_keyText]
  simp only [Option.bind_eq_bind, Option.bind_some]
  rw [value_text setting.2 fits rest]
  rfl

namespace Document

theorem line_settingLine {entries : Entries} (setting : String × Scalar)
    (fits : setting.2.Fits) (fresh : entries.get? setting.1 = none) (rest : List Char) :
    (⟨entries, []⟩ : Document).line (settingLine setting ++ rest) =
      some (⟨entries.add setting.1 (.scalar setting.2), []⟩, rest) := by
  have read := pair_settingLine setting fits rest
  obtain ⟨c, cs, text, starts⟩ := exists_keyText_eq setting.1
  have shape : settingLine setting ++ rest =
      c :: (cs ++ ' ' :: '=' :: (' ' :: setting.2.text ++ '\n' :: rest)) := by
    rw [settingLine_append, text]
    rfl
  rw [shape] at read ⊢
  unfold line
  split
  · next same => exact absurd (List.cons.inj same).1 (ne_of_class starts rfl)
  · next same => exact absurd (List.cons.inj same).1 (ne_of_class starts rfl)
  · next same => exact absurd (List.cons.inj same).1 (ne_of_class starts rfl)
  · next same => exact absurd (List.cons.inj same).1 (ne_of_class starts rfl)
  · next same => exact absurd (List.cons.inj same).1 (ne_of_class starts rfl)
  · rw [read]
    simp [lineEnd, skipComment, skipBlanks, isBlank, Entries.within, Entries.insert, fresh]

theorem lines_cons {entries : Entries} {count : Nat} {setting : String × Scalar}
    (fits : setting.2.Fits) (fresh : entries.get? setting.1 = none) (rest : List Char) :
    lines (count + 1) ⟨entries, []⟩ (settingLine setting ++ rest) =
      lines count ⟨entries.add setting.1 (.scalar setting.2), []⟩ rest := by
  have line := line_settingLine setting fits fresh rest
  have front : skipBlanks (settingLine setting ++ rest) = settingLine setting ++ rest := by
    rw [settingLine_append]
    exact skipBlanks_keyText ..
  rw [lines, front]
  split
  · next empty => simp [settingLine] at empty
  · rw [line]

theorem lines_settings {settings : List (String × Scalar)} {count : Nat}
    {entries : Entries} (enough : settings.length < count)
    (fits : ∀ setting ∈ settings, setting.2.Fits)
    (distinct : (settings.map Prod.fst).Nodup)
    (fresh : ∀ setting ∈ settings, entries.get? setting.1 = none) :
    lines count ⟨entries, []⟩ (settings.flatMap settingLine) =
      some ⟨entries ++ settings.map fun setting => (setting.1, .scalar setting.2), []⟩ := by
  induction settings generalizing count entries with
  | nil =>
      obtain ⟨count, rfl⟩ : ∃ n, count = n + 1 := ⟨count - 1, by omega⟩
      simp [lines, skipBlanks]
  | cons setting rest ih =>
      obtain ⟨count, rfl⟩ : ∃ n, count = n + 1 := ⟨count - 1, by omega⟩
      obtain ⟨apart, distinct⟩ := List.nodup_cons.mp distinct
      -- The keys still to come differ from this one, so none of them is there yet.
      have later : ∀ other ∈ rest,
          (entries.add setting.1 (.scalar setting.2)).get? other.1 = none := by
        intro other member
        have different : other.1 ≠ setting.1 := by
          intro same
          exact apart (same ▸ List.mem_map_of_mem member)
        have absent : entries.lookup other.1 = none :=
          fresh other (List.mem_cons_of_mem _ member)
        rw [Entries.get?, Entries.add, List.lookup_append, absent, List.lookup_cons,
          beq_false_of_ne different]
        rfl
      rw [List.flatMap_cons, lines_cons (fits _ List.mem_cons_self)
          (fresh _ List.mem_cons_self),
        ih (by simpa using enough) (fun s member => fits s (List.mem_cons_of_mem _ member))
          distinct later]
      simp [Entries.add]

end Document

theorem length_le_flatMap_settingLine (settings : List (String × Scalar)) :
    settings.length ≤ (settings.flatMap settingLine).length := by
  induction settings with
  | nil => exact Nat.le_refl 0
  | cons setting rest ih =>
      rw [List.flatMap_cons, List.length_append, List.length_cons]
      simp only [settingLine, List.length_append, List.length_cons]
      omega

theorem skipMark_settings (settings : List (String × Scalar)) :
    skipMark (settings.flatMap settingLine) = settings.flatMap settingLine := by
  cases settings with
  | nil => rfl
  | cons setting rest =>
      obtain ⟨c, cs, text, starts⟩ := exists_keyText_eq setting.1
      rw [List.flatMap_cons, settingLine_append, text, List.cons_append]
      unfold skipMark
      split
      · next same => exact absurd (List.cons.inj same).1 (ne_of_class starts rfl)
      · rfl

theorem parse_settingLines {settings : List (String × Scalar)}
    (fits : ∀ setting ∈ settings, setting.2.Fits)
    (distinct : (settings.map Prod.fst).Nodup) :
    parse (settingLines settings) =
      some (settings.map fun setting => (setting.1, .scalar setting.2)) := by
  have enough : settings.length < (settings.flatMap settingLine).length + 1 :=
    Nat.lt_succ_of_le (length_le_flatMap_settingLine settings)
  have fresh : ∀ setting ∈ settings, Entries.get? [] setting.1 = none := fun _ _ => rfl
  have read := Document.lines_settings enough fits distinct fresh
  rw [parse, settingLines, String.toList_ofList]
  simp only [skipMark_settings]
  rw [Document.empty, read]
  rfl

end BlockPool.Toml
