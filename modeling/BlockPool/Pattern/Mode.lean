import BlockPool.Text.Basic

/-!
# Modes of a pattern

The mode in which a pattern is read says whether case is ignored, whether a
character is a letter of any script or a byte, and whether blanks and comments
stand between its parts.  A pattern changes its mode by settings, for the rest
of a group or for a group of its own.
-/

namespace BlockPool.Pattern

structure Mode where
  ignoreCase : Bool
  unicode : Bool
  spaced : Bool
  deriving DecidableEq, Repr

structure Setting where
  flag : Char
  on : Bool
  deriving DecidableEq, Repr

namespace Mode

def standard : Mode := ⟨false, true, false⟩

/-! ## Blanks and comments -/

def dropSpace (inComment : Bool) : List Char → List Char
  | [] => []
  | c :: cs =>
      if inComment then dropSpace (c ≠ '\n') cs
      else if Text.isBlank c then dropSpace false cs
      else if c = '#' then dropSpace true cs
      else c :: cs

def skip (mode : Mode) (cs : List Char) : List Char :=
  if mode.spaced then dropSpace false cs else cs

theorem length_dropSpace_le (inComment : Bool) (cs : List Char) :
    (dropSpace inComment cs).length ≤ cs.length := by
  induction cs generalizing inComment with
  | nil => simp [dropSpace]
  | cons c cs ih =>
      simp only [dropSpace, List.length_cons]
      split
      · exact Nat.le_succ_of_le (ih _)
      · split
        · exact Nat.le_succ_of_le (ih _)
        · split
          · exact Nat.le_succ_of_le (ih _)
          · simp

theorem length_skip_le (mode : Mode) (cs : List Char) :
    (mode.skip cs).length ≤ cs.length := by
  unfold skip
  split
  · exact length_dropSpace_le false cs
  · exact Nat.le_refl _

/-! ## Settings -/

/-- Only these three flags bear on which patterns are well formed. -/
def set (mode : Mode) (setting : Setting) : Mode :=
  match setting.flag with
  | 'i' => { mode with ignoreCase := setting.on }
  | 'u' => { mode with unicode := setting.on }
  | 'x' => { mode with spaced := setting.on }
  | _ => mode

def setAll (mode : Mode) (settings : List Setting) : Mode :=
  settings.foldl set mode

end Mode

/-- Case, lines, dots, greed, letters of any script, ends of lines, blanks. -/
def flags : List Char := ['i', 'm', 's', 'U', 'u', 'R', 'x']

/--
Reads flags up to a colon or a closing parenthesis.  Those after a minus are
cleared; there is one minus at most, it is not the last, and no flag is
named twice.
-/
def settings? (seen : List Setting) (on : Bool) :
    List Char → Option (List Setting × List Char)
  | [] => none
  | ':' :: cs => some (seen, ':' :: cs)
  | ')' :: cs => some (seen, ')' :: cs)
  | '-' :: cs =>
      match on, cs with
      | true, c :: _ =>
          if c = ':' || c = ')' then none else settings? seen false cs
      | _, _ => none
  | c :: cs =>
      if flags.contains c && !seen.any (fun setting => setting.flag = c) then
        settings? (⟨c, on⟩ :: seen) on cs
      else none

end BlockPool.Pattern
