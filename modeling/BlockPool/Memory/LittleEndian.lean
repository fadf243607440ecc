/-!
# Little-endian byte strings

A number is written with its lowest byte first.  A field of a given width keeps
a number modulo the power of 256 of that width (`decode_encode`), and a byte
string is determined by its width and its number (`encode_decode`).
-/

namespace BlockPool.LittleEndian

def encode : Nat → Nat → List UInt8
  | 0, _ => []
  | count + 1, value => UInt8.ofNat value :: encode count (value / 256)

def decode : List UInt8 → Nat
  | [] => 0
  | byte :: rest => byte.toNat + 256 * decode rest

@[simp] theorem length_encode (count value : Nat) :
    (encode count value).length = count := by
  induction count generalizing value with
  | zero => rfl
  | succ count ih => simp [encode, ih]

theorem decode_encode (count value : Nat) :
    decode (encode count value) = value % Nat.pow 256 count := by
  induction count generalizing value with
  | zero => exact (Nat.mod_one value).symm
  | succ count ih =>
      have step : Nat.pow 256 (count + 1) = 256 * Nat.pow 256 count :=
        Nat.mul_comm _ _
      rw [encode, decode, ih, step, Nat.mod_mul]
      simp

theorem decode_lt (bytes : List UInt8) : decode bytes < Nat.pow 256 bytes.length := by
  induction bytes with
  | nil => exact Nat.one_pos
  | cons byte rest ih =>
      have step : Nat.pow 256 (rest.length + 1) = 256 * Nat.pow 256 rest.length :=
        Nat.mul_comm _ _
      have low := byte.toNat_lt
      rw [List.length_cons, decode, step]
      omega

theorem encode_decode (bytes : List UInt8) :
    encode bytes.length (decode bytes) = bytes := by
  induction bytes with
  | nil => rfl
  | cons byte rest ih =>
      have low : UInt8.ofNat (byte.toNat + 256 * decode rest) = byte := by
        apply UInt8.toNat_inj.mp
        simp
      have high : (byte.toNat + 256 * decode rest) / 256 = decode rest := by
        have := byte.toNat_lt
        omega
      simp only [List.length_cons, encode, decode, low, high, ih]

/-- A word as wide as the byte string holds all of its number. -/
theorem encode_decode_mod {bytes : List UInt8} {width : Nat} (exact : bytes.length = width) :
    encode width (decode bytes % Nat.pow 256 width) = bytes := by
  subst exact
  rw [Nat.mod_eq_of_lt (decode_lt bytes), encode_decode]

end BlockPool.LittleEndian
