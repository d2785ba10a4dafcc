/-!
# Strings in JSON

A string is written between quotes.  Quotes, backslashes and the characters below the space are
escaped, all others stand for themselves.  An escape can also give a UTF-16 code unit in
hexadecimal; two such units can make up one character, and one half of such a pair alone makes
up none.  A string with a lone half is well formed but spells no text, so reading a string has
two steps: `scanPieces` checks its form, and `assemble` looks for the text that it spells.
-/

namespace PrioritySampling

namespace Json

namespace Text

/-! ## Writing -/

/-- A digit of hexadecimal notation. -/
def hexDigit (n : Nat) : Char :=
  if n < 10 then Char.ofNat (48 + n) else Char.ofNat (87 + n)

/-- A character as it is written between quotes. -/
def escape (c : Char) : List Char :=
  if c = '"' then ['\\', '"']
  else if c = '\\' then ['\\', '\\']
  else if c = '\x08' then ['\\', 'b']
  else if c = '\x0c' then ['\\', 'f']
  else if c = '\n' then ['\\', 'n']
  else if c = '\r' then ['\\', 'r']
  else if c = '\t' then ['\\', 't']
  else if c.toNat < 32 then
    ['\\', 'u', '0', '0', hexDigit (c.toNat / 16), hexDigit (c.toNat % 16)]
  else [c]

/-- A text between quotes. -/
def quote (text : List Char) : List Char :=
  '"' :: text.flatMap escape ++ ['"']

/-! ## Reading -/

/-- What one character or escape between the quotes stands for. -/
inductive Piece where
  | char (c : Char)
  /-- A UTF-16 code unit. -/
  | codeUnit (code : Nat)
  deriving DecidableEq, Repr

/-- The value of a hexadecimal digit of either case. -/
def hexValue? (c : Char) : Option Nat :=
  let n := c.toNat
  if 48 ≤ n ∧ n ≤ 57 then some (n - 48)
  else if 97 ≤ n ∧ n ≤ 102 then some (n - 87)
  else if 65 ≤ n ∧ n ≤ 70 then some (n - 55)
  else none

/-- The code unit that four hexadecimal digits give. -/
def codeUnit? (a b c d : Char) : Option Nat :=
  match hexValue? a, hexValue? b, hexValue? c, hexValue? d with
  | some a, some b, some c, some d => some (4096 * a + 256 * b + 16 * c + d)
  | _, _, _, _ => none

/-- The character that a letter after a backslash stands for. -/
def unescape? : Char → Option Char
  | '"' => some '"'
  | '\\' => some '\\'
  | '/' => some '/'
  | 'b' => some '\x08'
  | 'f' => some '\x0c'
  | 'n' => some '\n'
  | 'r' => some '\r'
  | 't' => some '\t'
  | _ => none

/-- One piece more at the front. -/
def addPiece (piece : Piece) : Option (List Piece × List Char) → Option (List Piece × List Char)
  | some (pieces, rest) => some (piece :: pieces, rest)
  | none => none

/-- The pieces up to the closing quote, and what follows it. -/
def scanPieces : List Char → Option (List Piece × List Char)
  | [] => none
  | '"' :: rest => some ([], rest)
  | '\\' :: 'u' :: a :: b :: c :: d :: rest =>
    match codeUnit? a b c d with
    | some code => addPiece (.codeUnit code) (scanPieces rest)
    | none => none
  | '\\' :: letter :: rest =>
    match unescape? letter with
    | some c => addPiece (.char c) (scanPieces rest)
    | none => none
  | c :: rest =>
    if c.toNat < 32 then none else addPiece (.char c) (scanPieces rest)

/-- The code unit is the first half of a pair. -/
def isHighSurrogate (code : Nat) : Bool :=
  0xd800 ≤ code && code < 0xdc00

/-- The code unit is the second half of a pair. -/
def isLowSurrogate (code : Nat) : Bool :=
  0xdc00 ≤ code && code < 0xe000

/-- The character that a pair makes up. -/
def joinPair (high low : Nat) : Char :=
  Char.ofNat (0x10000 + 0x400 * (high - 0xd800) + (low - 0xdc00))

/-- The text that the pieces spell, unless half a pair stands alone. -/
def assemble : List Piece → Option (List Char)
  | [] => some []
  | .char c :: rest => (assemble rest).map (c :: ·)
  | .codeUnit high :: .codeUnit low :: rest =>
    if isHighSurrogate high then
      if isLowSurrogate low then (assemble rest).map (joinPair high low :: ·) else none
    else if isLowSurrogate high then none
    else (assemble (.codeUnit low :: rest)).map (Char.ofNat high :: ·)
  | .codeUnit code :: rest =>
    if isHighSurrogate code || isLowSurrogate code then none
    else (assemble rest).map (Char.ofNat code :: ·)

/-- The closing quote is behind what the pieces took. -/
theorem length_of_scanPieces {text rest : List Char} {pieces : List Piece}
    (h : scanPieces text = some (pieces, rest)) : rest.length < text.length := by
  fun_induction scanPieces text generalizing pieces with
  | case1 => contradiction
  | case2 => cases h; simp
  | case3 a b c d after code hcode ih =>
    simp only [addPiece] at h
    split at h
    · rename_i later after' heq
      cases h
      have := ih heq
      simp only [List.length_cons]
      omega
    · contradiction
  | case4 => contradiction
  | case5 letter after hletter c hc ih =>
    simp only [addPiece] at h
    split at h
    · rename_i later after' heq
      cases h
      have := ih heq
      simp only [List.length_cons]
      omega
    · contradiction
  | case6 => contradiction
  | case7 => contradiction
  | case8 c after _ _ _ hc ih =>
    simp only [addPiece] at h
    split at h
    · rename_i later after' heq
      cases h
      have := ih heq
      simp only [List.length_cons]
      omega
    · contradiction

end Text

end Json

end PrioritySampling
