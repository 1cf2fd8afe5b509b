/-!
# Quoted text

A plain text value in a log line is written between double quotes, with the characters that would
blur its ends or its layout escaped: quote and backslash by a backslash, the usual control
characters by their letters, and every other character without a printed shape by its code in
braces.
-/

set_option autoImplicit false

namespace JobControl.Text

/-- Characters without a printed shape of their own: controls, invisible format marks, combining
marks of the common blocks, surrogate-free private use and unassigned ends of the code space. -/
def isShapeless (c : Char) : Bool :=
  let n := c.toNat
  n < 0x20 || (0x7f ≤ n && n < 0xa1) || n == 0xad || (0x300 ≤ n && n < 0x370) ||
  (0x200b ≤ n && n ≤ 0x200f) || (0x2028 ≤ n && n ≤ 0x202f) || (0x205f ≤ n && n ≤ 0x206f) ||
  (0x2000 ≤ n && n ≤ 0x200a) || n == 0x1680 || n == 0x3000 || n == 0xfeff ||
  (0xe000 ≤ n && n ≤ 0xf8ff) || (0xfff0 ≤ n && n ≤ 0xfffb) || n == 0xfffe || n == 0xffff ||
  0xe0000 ≤ n

/-- One character as it stands between the quotes. -/
def quotedChar (c : Char) : List Char :=
  if c == '"' then ['\\', '"']
  else if c == '\\' then ['\\', '\\']
  else if c == '\t' then ['\\', 't']
  else if c == '\n' then ['\\', 'n']
  else if c == '\r' then ['\\', 'r']
  else if c == '\x00' then ['\\', '0']
  else if isShapeless c then
    ['\\', 'u', '\x7b'] ++ Nat.toDigits 16 c.toNat ++ ['\x7d']
  else [c]

/-- The text between double quotes. -/
def quoted (text : String) : String :=
  String.ofList ('"' :: text.toList.flatMap quotedChar ++ ['"'])

end JobControl.Text
