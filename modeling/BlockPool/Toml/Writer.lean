import BlockPool.Toml.Lexeme
import BlockPool.Toml.Value

/-!
# Writing TOML

A flat table is written as one line for each entry.  Keys are written bare
where they can be, and in quotation marks otherwise.
-/

namespace BlockPool.Toml

def hexDigits : Nat → Nat → List Char
  | 0, _ => []
  | count + 1, value => hexDigits count (value / 16) ++ [Nat.digitChar (value % 16)]

def escaped (c : Char) : List Char :=
  match c with
  | '\x08' => ['\\', 'b']
  | '\t' => ['\\', 't']
  | '\n' => ['\\', 'n']
  | '\x0c' => ['\\', 'f']
  | '\r' => ['\\', 'r']
  | '"' => ['\\', '"']
  | '\\' => ['\\', '\\']
  | c => if isPrintable c then [c] else '\\' :: 'u' :: hexDigits 4 c.toNat

def quotedText (text : String) : List Char :=
  '"' :: text.toList.flatMap escaped ++ ['"']

def keyText (key : String) : List Char :=
  if key ≠ "" ∧ key.toList.all isKeyChar then key.toList else quotedText key

def Scalar.text : Scalar → List Char
  | string text => quotedText text
  | integer value => (toString value).toList
  | boolean true => ['t', 'r', 'u', 'e']
  | boolean false => ['f', 'a', 'l', 's', 'e']

def settingLine (setting : String × Scalar) : List Char :=
  keyText setting.1 ++ [' ', '=', ' '] ++ setting.2.text ++ ['\n']

def settingLines (settings : List (String × Scalar)) : String :=
  String.ofList (settings.flatMap settingLine)

end BlockPool.Toml
