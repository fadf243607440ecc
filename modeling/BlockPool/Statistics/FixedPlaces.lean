/-!
# Decimals with a fixed number of places

A binary floating point number is a signed multiple of a power of two.  It is
written with a fixed number of decimal places by rounding that exact value; a
tie goes to the even neighbour, and the sign is kept when the result is zero.
-/

namespace BlockPool.FixedPlaces

/-- The number `± significand * 2 ^ exponent`. -/
structure Dyadic where
  negative : Bool
  significand : Nat
  exponent : Int
  deriving DecidableEq, Repr

inductive Decoded where
  | finite (value : Dyadic)
  | infinite (negative : Bool)
  | notANumber
  deriving DecidableEq, Repr

def ofBits (bits : UInt64) : Decoded :=
  let negative := bits >>> 63 = 1
  let exponent := (bits >>> 52) &&& 0x7FF
  let fraction := bits &&& 0xFFFFFFFFFFFFF
  if exponent = 0x7FF then
    if fraction = 0 then .infinite negative else .notANumber
  else if exponent = 0 then
    .finite ⟨negative, fraction.toNat, -1074⟩
  else
    .finite
      ⟨negative, (fraction ||| 0x10000000000000).toNat, exponent.toNat - 1075⟩

/-- The quotient rounded to the nearest whole number, a tie to the even one. -/
def roundDiv (numerator denominator : Nat) : Nat :=
  let quotient := numerator / denominator
  let rest := numerator % denominator
  if 2 * rest < denominator ∨ 2 * rest = denominator ∧ quotient % 2 = 0 then
    quotient
  else
    quotient + 1

def units (places : Nat) (value : Dyadic) : Nat :=
  let scaled := value.significand * Nat.pow 10 places
  match value.exponent with
  | .ofNat exponent => scaled * Nat.pow 2 exponent
  | .negSucc exponent => roundDiv scaled (Nat.pow 2 (exponent + 1))

def signText : Bool → String
  | true => "-"
  | false => ""

def padLeft (width : Nat) (fill : Char) (text : String) : String :=
  String.ofList (List.replicate (width - text.length) fill) ++ text

def Dyadic.text (places : Nat) (value : Dyadic) : String :=
  let units := units places value
  let one := Nat.pow 10 places
  let whole := toString (units / one)
  let fraction := padLeft places '0' (toString (units % one))
  signText value.negative ++ whole ++
    if places = 0 then "" else "." ++ fraction

def text (places : Nat) (x : Float) : String :=
  match ofBits x.toBits with
  | .finite value => value.text places
  | .infinite negative => signText negative ++ "inf"
  | .notANumber => "NaN"

end BlockPool.FixedPlaces
