import SymmetricTrees.Text.Printable

/-!
Quoted text for messages: characters that would not be seen, that would join
the character before them, or that would end the quotation are escaped.
-/

set_option autoImplicit false

namespace SymmetricTrees.Text

def hexDigits (number : Nat) : List Char := Nat.toDigits 16 number

def escaped (character : Char) : List Char :=
  if character = '\x00' then ['\\', '0']
  else if character = '\t' then ['\\', 't']
  else if character = '\r' then ['\\', 'r']
  else if character = '\n' then ['\\', 'n']
  else if character = '"' ∨ character = '\\' then ['\\', character]
  else if extendsGrapheme character || isUnprintable character then
    ['\\', 'u', '\x7b'] ++ hexDigits character.toNat ++ ['\x7d']
  else [character]

def quoted (text : String) : String :=
  String.ofList (['"'] ++ text.toList.flatMap escaped ++ ['"'])

end SymmetricTrees.Text
