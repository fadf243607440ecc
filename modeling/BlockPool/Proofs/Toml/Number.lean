import BlockPool.Toml.Number

/-!
# Whole numbers that read back

A whole number is written in decimal digits, a negative one behind a minus
sign.  At the end of a line these are read as that number, and neither as a
date or a time nor as a number with a fraction.
-/

namespace BlockPool.Toml

variable {cs ds rest : List Char} {c : Char} {n : Nat}

/-! ## Digits at the end of a line -/

def DigitLine (cs : List Char) : Prop :=
  ∃ ds rest, cs = ds ++ '\n' :: rest ∧ ∀ c ∈ ds, c.isDigit = true

theorem DigitLine.digit (h : DigitLine cs) (read : digit cs = some (n, rest)) :
    DigitLine rest := by
  obtain ⟨ds, tail, rfl, all⟩ := h
  cases ds with
  | nil => cases read
  | cons c ds =>
      have first := all c List.mem_cons_self
      simp only [List.cons_append, Toml.digit, first, if_true, Option.some.injEq,
        Prod.mk.injEq] at read
      exact ⟨ds, tail, read.2.symm, fun d member => all d (List.mem_cons_of_mem c member)⟩

theorem DigitLine.twoDigits (h : DigitLine cs) (read : twoDigits cs = some (n, rest)) :
    DigitLine rest := by
  cases first : Toml.digit cs with
  | none => simp [Toml.twoDigits, first] at read
  | some tens =>
      cases second : Toml.digit tens.2 with
      | none => simp [Toml.twoDigits, first, second] at read
      | some ones =>
          simp only [Toml.twoDigits, first, second, Option.bind_eq_bind, Option.bind_some,
            Option.some.injEq, Prod.mk.injEq] at read
          exact read.2 ▸ (h.digit first).digit second

theorem DigitLine.expect_eq_none (h : DigitLine cs) (other : c.isDigit = false)
    (line : c ≠ '\n') : expect c cs = none := by
  obtain ⟨ds, rest, rfl, all⟩ := h
  cases ds with
  | nil => exact if_neg line
  | cons d ds =>
      have digit := all d List.mem_cons_self
      refine if_neg ?_
      rintro rfl
      rw [digit] at other
      cases other

theorem DigitLine.date_eq_none (h : DigitLine cs) : date cs = none := by
  cases century : Toml.twoDigits cs with
  | none => simp [date, century]
  | some found =>
      have later := h.twoDigits century
      cases year : Toml.twoDigits found.2 with
      | none => simp [date, century, year]
      | some found =>
          have dash := (later.twoDigits year).expect_eq_none (c := '-') rfl (by decide)
          simp [date, century, year, dash]

theorem DigitLine.clock_eq_none (h : DigitLine cs) : clock cs = none := by
  cases hour : Toml.twoDigits cs with
  | none => simp [clock, hour]
  | some found =>
      have colon := (h.twoDigits hour).expect_eq_none (c := ':') rfl (by decide)
      simp [clock, hour, colon]

theorem DigitLine.dateTime_eq_none (h : DigitLine cs) : dateTime cs = none := by
  simp [dateTime, time, h.date_eq_none, h.clock_eq_none]

/-! ## Decimal digits of a number -/

theorem digitChar_ne_zero (d : Nat) (small : d < 10) (positive : d ≠ 0) :
    Nat.digitChar d ≠ '0' := by
  revert d
  decide

theorem exists_toDigits_eq (n : Nat) :
    ∃ c ds, Nat.toDigits 10 n = c :: ds ∧ c.isDigit = true ∧ (n ≠ 0 → c ≠ '0') := by
  suffices front : ∃ c ds, Nat.toDigits 10 n = c :: ds ∧ (n ≠ 0 → c ≠ '0') by
    obtain ⟨c, ds, shape, other⟩ := front
    have member : c ∈ Nat.toDigits 10 n := shape ▸ List.mem_cons_self
    have digit := Nat.isDigit_of_mem_toDigits (by decide) (by decide) member
    exact ⟨c, ds, shape, digit, other⟩
  induction n using Nat.strongRecOn with
  | ind n ih =>
      rw [Nat.toDigits_eq_if (by decide)]
      split
      · next small => exact ⟨_, [], rfl, digitChar_ne_zero n small⟩
      · next large =>
          obtain ⟨c, ds, front, other⟩ := ih (n / 10) (by omega)
          rw [front]
          exact ⟨c, _, rfl, fun _ => other (by omega)⟩

theorem digitLine_toDigits (n : Nat) (rest : List Char) :
    DigitLine (Nat.toDigits 10 n ++ '\n' :: rest) :=
  ⟨_, rest, rfl, fun _ => Nat.isDigit_of_mem_toDigits (by decide) (by decide)⟩

theorem moreDigits_append (all : ∀ c ∈ ds, c.isDigit = true) (rest : List Char) :
    moreDigits Char.isDigit (ds ++ '\n' :: rest) = (ds, '\n' :: rest) := by
  induction ds with
  | nil => rfl
  | cons c ds ih =>
      have first := all c List.mem_cons_self
      have later := ih fun d member => all d (List.mem_cons_of_mem c member)
      rw [List.cons_append, moreDigits]
      · simp [first, later]
      · intro d cs underscore
        rw [underscore] at first
        cases first

theorem wholeDigits_toDigits (n : Nat) (rest : List Char) :
    wholeDigits (Nat.toDigits 10 n ++ '\n' :: rest) =
      some (Nat.toDigits 10 n, '\n' :: rest) := by
  by_cases zero : n = 0
  · rw [zero]
    rfl
  · have all : ∀ c ∈ Nat.toDigits 10 n, c.isDigit = true :=
      fun _ => Nat.isDigit_of_mem_toDigits (by decide) (by decide)
    obtain ⟨c, ds, shape, digit, other⟩ := exists_toDigits_eq n
    rw [shape] at all ⊢
    have later := moreDigits_append (fun d member => all d (List.mem_cons_of_mem c member))
      rest
    rw [List.cons_append, wholeDigits]
    · simp [digits, digit, later]
    · intro _ same
      exact other zero (List.cons.inj same).1

theorem foldl_digitValue (all : ∀ c ∈ ds, c.isDigit = true) (start : Nat) :
    ds.foldl (fun value c => value * 10 + digitValue c) start =
      Nat.ofDigitChars 10 ds start := by
  induction ds generalizing start with
  | nil => rfl
  | cons c ds ih =>
      have first : digitValue c = c.toNat - '0'.toNat := if_pos (all c List.mem_cons_self)
      rw [List.foldl_cons, ih fun d member => all d (List.mem_cons_of_mem c member), first,
        Nat.mul_comm]
      rfl

theorem numeral_toDigits (n : Nat) : numeral 10 (Nat.toDigits 10 n) = n := by
  rw [numeral, foldl_digitValue fun _ =>
    Nat.isDigit_of_mem_toDigits (by decide) (by decide)]
  exact Nat.ofDigitChars_toDigits (by decide) (by decide)

/-! ## Numbers with their signs -/

/-- The text of a number, cut behind its sign. -/
structure Cut (value : Int) (text : List Char) (negative : Bool) (n : Nat)
    (rest : List Char) : Prop where
  sign : sign text = (negative, Nat.toDigits 10 n ++ '\n' :: rest)
  value : value = if negative then -(n : Int) else n
  head : ∃ c cs, text = c :: cs ∧ (c = '-' ∨ c.isDigit = true)
  /-- No digit follows a zero at the front, nor the mark of another radix. -/
  decimal : ∀ c cs, text = '0' :: c :: cs → c = '\n'
  dateTime : dateTime text = none

theorem cut_ofNat (n : Nat) (rest : List Char) :
    Cut n (Nat.toDigits 10 n ++ '\n' :: rest) false n rest where
  sign := by
    obtain ⟨c, ds, shape, digit, _⟩ := exists_toDigits_eq n
    rw [shape, List.cons_append, Toml.sign]
    · intro _ same
      rw [(List.cons.inj same).1] at digit
      cases digit
    · intro _ same
      rw [(List.cons.inj same).1] at digit
      cases digit
  value := rfl
  head := by
    obtain ⟨c, ds, shape, digit, _⟩ := exists_toDigits_eq n
    exact ⟨c, _, by rw [shape]; rfl, .inr digit⟩
  decimal c cs same := by
    by_cases zero : n = 0
    · rw [zero] at same
      cases same
      rfl
    · obtain ⟨d, ds, shape, _, other⟩ := exists_toDigits_eq n
      rw [shape] at same
      exact absurd (List.cons.inj same).1 (other zero)
  dateTime := (digitLine_toDigits n rest).dateTime_eq_none

theorem cut_negSucc (n : Nat) (rest : List Char) :
    Cut (Int.negSucc n) ('-' :: Nat.toDigits 10 (n + 1) ++ '\n' :: rest) true (n + 1)
      rest where
  sign := rfl
  value := rfl
  head := ⟨'-', _, rfl, .inl rfl⟩
  decimal _ _ same := by cases same
  dateTime := rfl

theorem exists_cut (value : Int) (rest : List Char) :
    ∃ negative n, Cut value ((toString value).toList ++ '\n' :: rest) negative n rest := by
  cases value with
  | ofNat n =>
      have text : (toString (Int.ofNat n)).toList = Nat.toDigits 10 n := by
        rw [Int.toString_eq_repr, Int.repr, Nat.toList_repr]
      exact ⟨false, n, text ▸ cut_ofNat n rest⟩
  | negSucc n =>
      have text : (toString (Int.negSucc n)).toList = '-' :: Nat.toDigits 10 (n + 1) := by
        rw [Int.toString_eq_repr, Int.repr, String.toList_append, Nat.toList_repr]
        rfl
      exact ⟨true, n + 1, text ▸ cut_negSucc n rest⟩

theorem Cut.float_eq_none {value : Int} {text : List Char} {negative : Bool}
    (h : Cut value text negative n rest) : float text = none := by
  obtain ⟨c, ds, shape, digit, _⟩ := exists_toDigits_eq n
  have whole := wholeDigits_toDigits n rest
  rw [float, h.sign]
  simp only
  split
  · next same =>
      rw [shape] at same
      rw [(List.cons.inj same).1] at digit
      cases digit
  · next same =>
      rw [shape] at same
      rw [(List.cons.inj same).1] at digit
      cases digit
  · rw [whole]
    rfl

theorem Cut.integer_eq {value : Int} {text : List Char} {negative : Bool}
    (h : Cut value text negative n rest) : integer text = inRange value ('\n' :: rest) := by
  unfold integer
  split
  · exact absurd (h.decimal _ _ rfl) (by decide)
  · exact absurd (h.decimal _ _ rfl) (by decide)
  · exact absurd (h.decimal _ _ rfl) (by decide)
  · rw [h.sign, h.value]
    simp only [wholeDigits_toDigits, Option.bind_some, numeral_toDigits]

end BlockPool.Toml
