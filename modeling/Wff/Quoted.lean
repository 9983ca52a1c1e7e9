import Wff.Character.Classes
import Wff.Text

/-!
# Wff.Quoted — texts in quotation marks

A quoted text stands between double quotes on one line.  Quotes, backslashes and the usual controls
are escaped by a letter; any other character without a printed form of its own is given by its code
point.
-/

namespace Wff.Quoted

open Character

def codePoint (c : Char) : Text :=
  "\\u\x7b".toList ++ Nat.toDigits 16 c.toNat ++ ['\x7d']

/-- A character as it stands between quotes. -/
def escape (c : Char) : Text :=
  if c = '"' then ['\\', '"']
  else if c = '\\' then ['\\', '\\']
  else if c = '\n' then ['\\', 'n']
  else if c = '\r' then ['\\', 'r']
  else if c = '\t' then ['\\', 't']
  else if c = '\x00' then ['\\', '0']
  else if isPrinted c then [c]
  else codePoint c

def encode (text : Text) : Text := '"' :: (text.flatMap escape ++ ['"'])

end Wff.Quoted
