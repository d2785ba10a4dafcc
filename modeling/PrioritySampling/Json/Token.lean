import PrioritySampling.Json.Number
import PrioritySampling.Json.Text
/-!
# Tokens of JSON

A text is first cut into tokens, and blanks between them are dropped.  Cutting needs no
knowledge of the structure: two tokens that could be taken for one, such as two numbers, never
stand side by side in a well-formed text.
-/

namespace PrioritySampling

namespace Json

/-- A token. -/
inductive Token where
  | openArray
  | closeArray
  | openObject
  | closeObject
  | comma
  | colon
  | null
  | bool (b : Bool)
  | number (n : Number)
  /-- A string, with the text that it spells, if it spells one. -/
  | string (text : Option String)
  deriving DecidableEq

namespace Token

/-- The token in characters.  For a string that spells no text, a lone half of a pair serves as
well as any other. -/
def render : Token → List Char
  | openArray => ['[']
  | closeArray => [']']
  | openObject => ['\x7b']
  | closeObject => ['\x7d']
  | comma => [',']
  | colon => [':']
  | null => ['n', 'u', 'l', 'l']
  | bool true => ['t', 'r', 'u', 'e']
  | bool false => ['f', 'a', 'l', 's', 'e']
  | number n => n.render
  | string (some text) => Text.quote text.toList
  | string none => ['"', '\\', 'u', 'd', '8', '0', '0', '"']

/-- The token at the front of a text without leading blanks, and what follows it. -/
def scan : List Char → Option (Token × List Char)
  | '[' :: rest => some (openArray, rest)
  | ']' :: rest => some (closeArray, rest)
  | '\x7b' :: rest => some (openObject, rest)
  | '\x7d' :: rest => some (closeObject, rest)
  | ',' :: rest => some (comma, rest)
  | ':' :: rest => some (colon, rest)
  | 'n' :: 'u' :: 'l' :: 'l' :: rest => some (null, rest)
  | 't' :: 'r' :: 'u' :: 'e' :: rest => some (bool true, rest)
  | 'f' :: 'a' :: 'l' :: 's' :: 'e' :: rest => some (bool false, rest)
  | '"' :: rest =>
    match Text.scanPieces rest with
    | some (pieces, after) => some (string ((Text.assemble pieces).map String.ofList), after)
    | none => none
  | text =>
    match Number.scan text with
    | some (n, after) => some (number n, after)
    | none => none

/-- Blanks may stand between tokens. -/
def isBlank (c : Char) : Bool :=
  c == ' ' || c == '\t' || c == '\n' || c == '\r'

/-- A token takes at least one character. -/
theorem length_of_scan {text rest : List Char} {token : Token}
    (h : scan text = some (token, rest)) : rest.length < text.length := by
  unfold scan at h
  split at h
  iterate 9
    · cases h
      simp only [List.length_cons]
      omega
  · split at h
    · rename_i heq
      cases h
      have := Text.length_of_scanPieces heq
      simp only [List.length_cons]
      omega
    · contradiction
  · split at h
    · rename_i heq
      cases h
      exact Number.length_of_scan heq
    · contradiction

/-- All tokens of a text, if it can be cut. -/
def scanAll (text : List Char) : Option (List Token) :=
  let front := text.dropWhile isBlank
  match h : scan front with
  | some (token, rest) =>
    have : rest.length < text.length :=
      Nat.lt_of_lt_of_le (length_of_scan h) (List.dropWhile_sublist _).length_le
    (scanAll rest).map (token :: ·)
  | none => if front.isEmpty then some [] else none
termination_by text.length

end Token

end Json

end PrioritySampling
