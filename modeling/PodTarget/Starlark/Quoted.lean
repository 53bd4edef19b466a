import PodTarget.Text.Hex

/-! String literals. A quote, a backslash and the control characters of ASCII
are escaped; every other character stands for itself. -/

namespace PodTarget.Starlark

open Text

def isControl (c : Char) : Bool := c.toNat < 0x20 || c.toNat = 0x7F

def escape (c : Char) : List Char :=
  if c = '"' then ['\\', '"']
  else if c = '\\' then ['\\', '\\']
  else if c = '\n' then ['\\', 'n']
  else if c = '\t' then ['\\', 't']
  else if c = '\r' then ['\\', 'r']
  else if isControl c then ['\\', 'x', hexDigit (c.toNat / 16), hexDigit (c.toNat % 16)]
  else [c]

def quote (s : List Char) : List Char := '"' :: (s.flatMap escape ++ ['"'])

end PodTarget.Starlark
