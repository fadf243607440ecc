import BlockPool.Toml.Lexeme

/-!
# Numbers, dates and times of TOML

Whole numbers are evaluated and must fit 64 bits.  Numbers with a fraction or
an exponent must not exceed the finite doubles; dates and times must exist.
-/

namespace BlockPool.Toml

/-! ## Digits -/

def moreDigits (isDigit : Char → Bool) : List Char → List Char × List Char
  | '_' :: c :: cs =>
      if isDigit c then
        let (digits, rest) := moreDigits isDigit cs
        (c :: digits, rest)
      else
        ([], '_' :: c :: cs)
  | c :: cs =>
      if isDigit c then
        let (digits, rest) := moreDigits isDigit cs
        (c :: digits, rest)
      else
        ([], c :: cs)
  | [] => ([], [])

def digits (isDigit : Char → Bool) : List Char → Option (List Char × List Char)
  | c :: cs =>
      if isDigit c then
        let (digits, rest) := moreDigits isDigit cs
        some (c :: digits, rest)
      else
        none
  | [] => none

def wholeDigits : List Char → Option (List Char × List Char)
  | '0' :: rest => some (['0'], rest)
  | cs => digits Char.isDigit cs

def sign : List Char → Bool × List Char
  | '-' :: rest => (true, rest)
  | '+' :: rest => (false, rest)
  | cs => (false, cs)

/-! ## Whole numbers -/

/-- Whole numbers reach from minus this number to just below it. -/
def integerBound : Int := 9223372036854775808

def inRange (value : Int) (rest : List Char) : Option (Int × List Char) :=
  if -integerBound ≤ value ∧ value < integerBound then some (value, rest)
  else none

def radix (base : Nat) (isDigit : Char → Bool) (cs : List Char) :
    Option (Int × List Char) :=
  (digits isDigit cs).bind fun (digits, rest) => inRange (numeral base digits) rest

def integer : List Char → Option (Int × List Char)
  | '0' :: 'x' :: cs => radix 16 isHexDigit cs
  | '0' :: 'o' :: cs => radix 8 (fun c => '0' ≤ c && c ≤ '7') cs
  | '0' :: 'b' :: cs => radix 2 (fun c => c = '0' || c = '1') cs
  | cs =>
      let (negative, cs) := sign cs
      (wholeDigits cs).bind fun (digits, rest) =>
        let value : Int := numeral 10 digits
        inRange (if negative then -value else value) rest

/-! ## Numbers with a fraction or an exponent -/

/-- Numbers from here on round to infinity: half a step beyond the last double. -/
def overflowBound : Nat := Nat.pow 2 1024 - Nat.pow 2 970

/-- Whether `significand * 10 ^ exponent` rounds to a finite double.

The number of digits decides, except around the bound. -/
def isFinite (significand : Nat) (exponent : Int) : Bool :=
  let magnitude := (toString significand).length + exponent
  if significand = 0 ∨ magnitude < 300 then
    true
  else if 400 < magnitude then
    false
  else
    match exponent with
    | .ofNat exponent => significand * Nat.pow 10 exponent < overflowBound
    | .negSucc exponent =>
        significand < overflowBound * Nat.pow 10 (exponent + 1)

def exponent : List Char → Option (Option Int × List Char)
  | c :: cs =>
      if c = 'e' || c = 'E' then
        let (negative, cs) := sign cs
        (digits Char.isDigit cs).map fun (digits, rest) =>
          let value : Int := numeral 10 digits
          (some (if negative then -value else value), rest)
      else
        some (none, c :: cs)
  | [] => some (none, [])

def fraction : List Char → Option (Option (List Char) × List Char)
  | '.' :: cs =>
      (digits Char.isDigit cs).map fun (digits, rest) => (some digits, rest)
  | cs => some (none, cs)

def float (cs : List Char) : Option (List Char) :=
  let (negative, cs) := sign cs
  match cs with
  | 'i' :: 'n' :: 'f' :: rest => some rest
  | 'n' :: 'a' :: 'n' :: rest => some rest
  | _ => do
      let (whole, rest) ← wholeDigits cs
      let (fraction, rest) ← fraction rest
      let (exponent, rest) ← exponent rest
      if fraction = none ∧ exponent = none then
        none
      else
        let places := fraction.getD []
        let significand := numeral 10 (whole ++ places)
        let exponent := exponent.getD 0 - places.length
        if negative || isFinite significand exponent then some rest else none

/-! ## Dates and times -/

def digit : List Char → Option (Nat × List Char)
  | c :: rest => if c.isDigit then some (digitValue c, rest) else none
  | [] => none

def twoDigits (cs : List Char) : Option (Nat × List Char) := do
  let (tens, rest) ← digit cs
  let (ones, rest) ← digit rest
  some (10 * tens + ones, rest)

def expect (c : Char) : List Char → Option (List Char)
  | d :: rest => if c = d then some rest else none
  | [] => none

def isLeapYear (year : Nat) : Bool :=
  year % 4 = 0 && (year % 100 ≠ 0 || year % 400 = 0)

def daysInMonth (year : Nat) : Nat → Nat
  | 2 => if isLeapYear year then 29 else 28
  | 4 | 6 | 9 | 11 => 30
  | month => if 1 ≤ month ∧ month ≤ 12 then 31 else 0

def date (cs : List Char) : Option (List Char) := do
  let (century, rest) ← twoDigits cs
  let (year, rest) ← twoDigits rest
  let (month, rest) ← twoDigits (← expect '-' rest)
  let (day, rest) ← twoDigits (← expect '-' rest)
  if 1 ≤ day ∧ day ≤ daysInMonth (century * 100 + year) month then some rest
  else none

def clock (cs : List Char) : Option (List Char) := do
  let (hour, rest) ← twoDigits cs
  let (minute, rest) ← twoDigits (← expect ':' rest)
  if hour ≤ 23 ∧ minute ≤ 59 then some rest else none

def time (cs : List Char) : Option (List Char) := do
  let rest ← clock cs
  let (second, rest) ← twoDigits (← expect ':' rest)
  if second ≤ 60 then
    match rest with
    | '.' :: cs =>
        match cs.span Char.isDigit with
        | ([], _) => some rest
        | (_, rest) => some rest
    | _ => some rest
  else
    none

def skipOffset : List Char → List Char
  | 'Z' :: rest => rest
  | 'z' :: rest => rest
  | '+' :: cs => (clock cs).getD ('+' :: cs)
  | '-' :: cs => (clock cs).getD ('-' :: cs)
  | cs => cs

def timeOfDay (cs : List Char) : List Char :=
  match cs with
  | c :: rest =>
      if c = 'T' || c = 't' || c = ' ' then
        ((time rest).map skipOffset).getD cs
      else
        cs
  | [] => []

def dateTime (cs : List Char) : Option (List Char) :=
  match date cs with
  | some rest => some (timeOfDay rest)
  | none => time cs

end BlockPool.Toml
