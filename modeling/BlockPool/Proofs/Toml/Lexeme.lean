import Mathlib.Algebra.Ring.Nat
import Mathlib.Data.List.TakeDrop
import BlockPool.Toml.Writer

/-!
# Strings and keys that read back

A character is written so that reading takes exactly what was written for it,
whatever stands behind.  From this strings and keys of any characters read
back as they were.
-/

namespace BlockPool.Toml

/-! ## Characters by their code points -/

theorem digit_digitChar (d : Nat) (small : d < 16) :
    isHexDigit (Nat.digitChar d) = true ∧ digitValue (Nat.digitChar d) = d := by
  revert d
  decide

theorem all_hexDigits (count value : Nat) :
    (hexDigits count value).all isHexDigit = true := by
  induction count generalizing value with
  | zero => rfl
  | succ count ih =>
      have last := (digit_digitChar (value % 16) (Nat.mod_lt _ (by decide))).1
      simp [hexDigits, ih, last]

theorem numeral_hexDigits (count value : Nat) :
    numeral 16 (hexDigits count value) = value % 16 ^ count := by
  induction count generalizing value with
  | zero => simp [hexDigits, numeral, Nat.mod_one]
  | succ count ih =>
      have front : (hexDigits count (value / 16)).foldl
          (fun value c => value * 16 + digitValue c) 0 = value / 16 % 16 ^ count :=
        ih (value / 16)
      have last := (digit_digitChar (value % 16) (Nat.mod_lt _ (by decide))).2
      rw [hexDigits, numeral, List.foldl_append, front, List.foldl_cons, List.foldl_nil,
        last, Nat.pow_succ', Nat.mod_mul]
      omega

theorem unicode?_hexDigits (c : Char) (small : c.toNat < 16 ^ 4) :
    unicode? (hexDigits 4 c.toNat) = some c := by
  have code : numeral 16 (hexDigits 4 c.toNat) = c.toNat := by
    rw [numeral_hexDigits, Nat.mod_eq_of_lt small]
  have valid : c.toNat.isValidChar := c.valid
  simp [unicode?, all_hexDigits, code, valid]

theorem toNat_lt_of_not_printable {c : Char} (hidden : isPrintable c = false) :
    c.toNat < 16 ^ 4 := by
  simp only [isPrintable, Bool.or_eq_false_iff, decide_eq_false_iff_not] at hidden
  have low : c < '\x80' := Char.not_le.mp hidden.2
  have bound : c.toNat < 128 := low
  omega

/-! ## Strings -/

inductive Escaping (c : Char) : List Char → Prop where
  | named (d : Char) (means : escape? d = some c) : Escaping c ['\\', d]
  | plain (quote : c ≠ '"') (backslash : c ≠ '\\') (printable : isPrintable c = true) :
      Escaping c [c]
  | coded (small : c.toNat < 16 ^ 4) : Escaping c ('\\' :: 'u' :: hexDigits 4 c.toNat)

theorem escaping (c : Char) : Escaping c (escaped c) := by
  unfold escaped
  split
  · exact .named 'b' rfl
  · exact .named 't' rfl
  · exact .named 'n' rfl
  · exact .named 'f' rfl
  · exact .named 'r' rfl
  · exact .named '"' rfl
  · exact .named '\\' rfl
  · next quote backslash =>
      split
      · next printable => exact .plain quote backslash printable
      · next hidden =>
          exact .coded (toNat_lt_of_not_printable (Bool.eq_false_iff.mpr hidden))

theorem quoted_named {c d : Char} (means : escape? d = some c) (cs : List Char) :
    quoted ('\\' :: d :: cs) = prepend (some c) (quoted cs) := by
  rw [quoted]
  · rw [means]
  · rintro _ _ _ _ _ rfl
    cases means
  · rintro _ _ _ _ _ _ _ _ _ rfl
    cases means

theorem quoted_plain {c : Char} (cs : List Char) (quote : c ≠ '"') (backslash : c ≠ '\\')
    (printable : isPrintable c = true) :
    quoted (c :: cs) = prepend (some c) (quoted cs) := by
  rw [quoted]
  · simp [printable, backslash]
  · exact quote
  · intro _ _ _ _ _ own
    exact absurd own backslash
  · intro _ _ _ _ _ _ _ _ _ own
    exact absurd own backslash
  · intro _ _ own
    exact absurd own backslash

theorem quoted_coded {c : Char} (small : c.toNat < 16 ^ 4) (cs : List Char) :
    quoted ('\\' :: 'u' :: hexDigits 4 c.toNat ++ cs) = prepend (some c) (quoted cs) := by
  rw [← unicode?_hexDigits c small]
  rfl

theorem quoted_escaped_append (c : Char) (cs : List Char) :
    quoted (escaped c ++ cs) = prepend (some c) (quoted cs) := by
  have way := escaping c
  generalize escaped c = written at way
  cases way with
  | named d means => exact quoted_named means cs
  | plain quote backslash printable => exact quoted_plain cs quote backslash printable
  | coded small => exact quoted_coded small cs

theorem escaped_ne_quote (c : Char) (cs rest : List Char) :
    escaped c ++ cs ≠ '"' :: rest := by
  have way := escaping c
  generalize escaped c = written at way
  cases way with
  | named d means => exact nofun
  | plain quote _ _ =>
      intro same
      exact quote (List.cons.inj same).1
  | coded small => exact nofun

theorem quoted_flatMap_escaped (text rest : List Char) :
    quoted (text.flatMap escaped ++ '"' :: rest) = some (text, rest) := by
  induction text with
  | nil => rfl
  | cons c text ih =>
      rw [List.flatMap_cons, List.append_assoc, quoted_escaped_append, ih]
      rfl

theorem string_quote {cs : List Char} (single : ∀ rest, cs ≠ '"' :: '"' :: rest) :
    string ('"' :: cs) = (quoted cs).map fun (text, rest) => (String.ofList text, rest) := by
  unfold string
  split
  · next rest same =>
      cases same
      exact absurd rfl (single rest)
  · next same =>
      cases same
      rfl
  · next same => cases same
  · next same => cases same
  · next _ other _ _ => exact absurd rfl (other cs)

theorem string_quotedText (text : String) {c : Char} (rest : List Char) (other : c ≠ '"') :
    string (quotedText text ++ c :: rest) = some (text, c :: rest) := by
  -- Two quotation marks in a row are an empty text, and then no third one follows.
  have single (rest' : List Char) :
      text.toList.flatMap escaped ++ '"' :: c :: rest ≠ '"' :: '"' :: rest' := by
    cases text.toList with
    | nil =>
        intro same
        simp only [List.flatMap_nil, List.nil_append, List.cons.injEq] at same
        exact other same.2.1
    | cons d text =>
        rw [List.flatMap_cons, List.append_assoc]
        exact escaped_ne_quote d _ _
  simp only [quotedText, List.cons_append, List.append_assoc, List.nil_append]
  rw [string_quote single, quoted_flatMap_escaped]
  simp

/-! ## Keys -/

/-- What a key begins with when it is written. -/
def startsKey (c : Char) : Bool := c = '"' || isKeyChar c

theorem exists_keyText_eq (key : String) :
    ∃ c cs, keyText key = c :: cs ∧ startsKey c = true := by
  unfold keyText
  split
  · next bare =>
      cases chars : key.toList with
      | nil => exact absurd (String.toList_eq_nil_iff.mp chars) bare.1
      | cons c cs =>
          rw [chars, List.all_cons, Bool.and_eq_true] at bare
          exact ⟨c, cs, rfl, by simp [startsKey, bare.2.1]⟩
  · exact ⟨'"', _, rfl, rfl⟩

theorem ne_of_class {p : Char → Bool} {c d : Char} (inside : p c = true)
    (outside : p d = false) : c ≠ d := by
  rintro rfl
  rw [inside] at outside
  cases outside

theorem skipBlanks_of_class {p : Char → Bool} {c : Char} (inside : p c = true)
    (space : p ' ' = false) (tab : p '\t' = false) (cs : List Char) :
    skipBlanks (c :: cs) = c :: cs := by
  simp [skipBlanks, isBlank, ne_of_class inside space, ne_of_class inside tab]

theorem skipBlanks_keyText (key : String) (rest : List Char) :
    skipBlanks (keyText key ++ rest) = keyText key ++ rest := by
  obtain ⟨c, cs, text, starts⟩ := exists_keyText_eq key
  rw [text]
  exact skipBlanks_of_class starts rfl rfl _

theorem span_isKeyChar {cs : List Char} (all : cs.all isKeyChar = true)
    (rest : List Char) : (cs ++ ' ' :: rest).span isKeyChar = (cs, ' ' :: rest) := by
  rw [List.span_eq_takeWhile_dropWhile, List.takeWhile_append_of_pos (by simpa using all),
    List.dropWhile_append_of_pos (by simpa using all)]
  simp [isKeyChar]

theorem simpleKey_of_bare {c : Char} {cs : List Char}
    (all : (c :: cs).all isKeyChar = true) (rest : List Char) :
    simpleKey (c :: cs ++ ' ' :: rest) = some (String.ofList (c :: cs), ' ' :: rest) := by
  have bare : isKeyChar c = true := by
    rw [List.all_cons, Bool.and_eq_true] at all
    exact all.1
  have read := span_isKeyChar all rest
  rw [List.cons_append] at read ⊢
  unfold simpleKey
  split
  · next same =>
      cases same
      simp [isKeyChar] at bare
  · next same =>
      cases same
      simp [isKeyChar] at bare
  · rw [read]
    rfl

theorem simpleKey_keyText (key : String) (rest : List Char) :
    simpleKey (keyText key ++ ' ' :: rest) = some (key, ' ' :: rest) := by
  unfold keyText
  split
  · next bare =>
      obtain ⟨some, all⟩ := bare
      cases chars : key.toList with
      | nil => exact absurd (String.toList_eq_nil_iff.mp chars) some
      | cons c cs =>
          rw [simpleKey_of_bare (chars ▸ all), ← chars, String.ofList_toList]
  · simp only [quotedText, List.cons_append, List.append_assoc, List.nil_append, simpleKey]
    rw [quoted_flatMap_escaped]
    simp

theorem key_keyText (k : String) (rest : List Char) :
    key (keyText k ++ ' ' :: '=' :: rest) = some (([], k), '=' :: rest) := by
  have keys : dottedKeys (depthLimit - 1) (keyText k ++ ' ' :: '=' :: rest) =
      some ([k], '=' :: rest) := by
    change dottedKeys (78 + 1) _ = _
    rw [dottedKeys, skipBlanks_keyText, simpleKey_keyText]
    rfl
  rw [key, keys]
  rfl

end BlockPool.Toml
