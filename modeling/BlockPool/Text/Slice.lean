/-!
# Slices of a text

Places in a text are counted in bytes.  A place inside a character is no place
at which a text can be cut.
-/

namespace BlockPool.Text

def dropBytes? : Nat → List Char → Option (List Char)
  | 0, cs => some cs
  | _ + 1, [] => none
  | n + 1, c :: cs =>
      if c.utf8Size ≤ n + 1 then dropBytes? (n + 1 - c.utf8Size) cs else none

def takeBytes? : Nat → List Char → Option (List Char)
  | 0, _ => some []
  | _ + 1, [] => none
  | n + 1, c :: cs =>
      if c.utf8Size ≤ n + 1 then
        (takeBytes? (n + 1 - c.utf8Size) cs).map (c :: ·)
      else none

def slice? (cs : List Char) (first stop : Nat) : Option (List Char) :=
  (dropBytes? first cs).bind (takeBytes? (stop - first))

end BlockPool.Text
