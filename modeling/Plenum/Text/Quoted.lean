import Plenum.Text.Hidden
import Plenum.Text.Mark

namespace Plenum.Text

-- The common controls have a letter.
def showChar (c : Char) : List Char :=
  if c = '\"' ∨ c = '\\' then ['\\', c]
  else if c = '\n' then ['\\', 'n']
  else if c = '\r' then ['\\', 'r']
  else if c = '\t' then ['\\', 't']
  else if c.toNat = 0 then ['\\', '0']
  else if isHidden c || isMark c then ['\\', 'u', '{'] ++ Nat.toDigits 16 c.toNat ++ ['}']
  else [c]

-- What would not show, or would attach to what is before it, is written by its number.
def quoted (s : String) : String :=
  String.ofList ('\"' :: s.toList.flatMap showChar ++ ['\"'])

end Plenum.Text
