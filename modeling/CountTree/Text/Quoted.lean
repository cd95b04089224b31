import CountTree.Text.Unprintable

/-!
Texts quoted in messages: between quotation marks, with a backslash before marks and backslashes
and with code points in braces for what is not shown as itself.
-/

set_option autoImplicit false
set_option relaxedAutoImplicit false

namespace CountTree.Text

def escape (c : Char) : List Char :=
  if c = '\x00' then ['\\', '0']
  else if c = '\t' then ['\\', 't']
  else if c = '\r' then ['\\', 'r']
  else if c = '\n' then ['\\', 'n']
  else if c = '"' then ['\\', '"']
  else if c = '\\' then ['\\', '\\']
  else if isUnprintable c then
    ['\\', 'u', '\x7b'] ++ Nat.toDigits 16 c.toNat ++ ['\x7d']
  else [c]

def quoted (text : String) : String :=
  String.ofList ('"' :: (text.toList.flatMap escape ++ ['"']))

end CountTree.Text
