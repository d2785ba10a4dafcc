import PrioritySampling.Text.Hidden
/-!
# Quoted text

A text as it appears in a description of a value: between quotes, with an escape for every
character that has a name of its own, that would end the quotation, or that does not show.
-/

namespace PrioritySampling

namespace Text

/-- A number in hexadecimal notation, with small letters. -/
def hexadecimal (n : Nat) : List Char :=
  Nat.toDigits 16 n

/-- A character as it stands between quotes. -/
def quotedChar (c : Char) : List Char :=
  if c = '\x00' then ['\\', '0']
  else if c = '\t' then ['\\', 't']
  else if c = '\r' then ['\\', 'r']
  else if c = '\n' then ['\\', 'n']
  else if c = '"' then ['\\', '"']
  else if c = '\\' then ['\\', '\\']
  else if isHidden c then ['\\', 'u', '\x7b'] ++ hexadecimal c.toNat ++ ['\x7d']
  else [c]

/-- The text between quotes. -/
def quoted (text : String) : String :=
  String.ofList ('"' :: text.toList.flatMap quotedChar ++ ['"'])

end Text

end PrioritySampling
