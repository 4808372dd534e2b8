/-
# Courier.Text.Quoted -- texts quoted for a message

Messages show names, paths and defaults between double quotes so that blanks and invisible
characters can be seen. The quote, the backslash and the usual control characters get a short
escape; every other character that would not show as itself is written by its code.
-/

namespace Courier.Text

/-- Inclusive code ranges of the characters that have no shape of their own: controls, formats,
separators other than the blank, private use, and marks that attach to the character before them. The
ranges outside the first few blocks cover what can be told without a full character database: the
private planes, the surrogate gap, the noncharacters and the tags. -/
def unshownRanges : List (Nat × Nat) :=
  [(0x00, 0x1f), (0x7f, 0xa0), (0xad, 0xad), (0x300, 0x36f), (0x378, 0x379), (0x380, 0x383),
    (0x38b, 0x38b), (0x38d, 0x38d), (0x3a2, 0x3a2), (0x483, 0x489), (0x530, 0x530), (0x557, 0x558),
    (0x58b, 0x58c), (0x590, 0x5bd), (0x5bf, 0x5bf), (0x5c1, 0x5c2), (0x5c4, 0x5c5), (0x5c7, 0x5cf),
    (0x600, 0x605), (0x610, 0x61a), (0x61c, 0x61c), (0x64b, 0x65f), (0x670, 0x670), (0x6d6, 0x6dd),
    (0x6df, 0x6e4), (0x6e7, 0x6e8), (0x6ea, 0x6ed), (0x1680, 0x1680), (0x180b, 0x180f),
    (0x1ab0, 0x1aff), (0x1dc0, 0x1dff), (0x2000, 0x200f), (0x2028, 0x202f), (0x205f, 0x206f),
    (0x20d0, 0x20ff), (0x3000, 0x3000), (0xd7fc, 0xf8ff), (0xfe00, 0xfe0f), (0xfe20, 0xfe2f),
    (0xfeff, 0xfeff), (0xfff0, 0xfffb), (0xfffe, 0xffff), (0x1fffe, 0x1ffff), (0x2fffe, 0x2ffff),
    (0xe0000, 0x10ffff)]

/-- Does the character show as itself? -/
def isShown (c : Char) : Bool :=
  unshownRanges.all fun (lo, hi) => c.toNat < lo || hi < c.toNat

/-- A character inside a quoted text. -/
def quoteChar (c : Char) : List Char :=
  if c = '"' then ['\\', '"']
  else if c = '\\' then ['\\', '\\']
  else if c = '\n' then ['\\', 'n']
  else if c = '\r' then ['\\', 'r']
  else if c = '\t' then ['\\', 't']
  else if c.toNat = 0 then ['\\', '0']
  else if isShown c then [c]
  else ['\\', 'u', '\x7b'] ++ Nat.toDigits 16 c.toNat ++ ['\x7d']

/-- A text between double quotes. -/
def quoted (s : String) : String :=
  String.ofList ('"' :: s.toList.flatMap quoteChar ++ ['"'])

/-- A text between double quotes if there is one. -/
def quotedOption : Option String → String
  | none => "None"
  | some s => "Some(" ++ quoted s ++ ")"

end Courier.Text
