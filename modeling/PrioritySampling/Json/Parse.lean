import PrioritySampling.Json.Value
/-!
# Reading JSON

The tokens are read from left to right, with the arrays and objects that are still open on a
stack, the innermost first.  `want` reads on where a value must come, `given` after one has
been read.  A value may be nested to any depth.
-/

namespace PrioritySampling

namespace Json

/-- An array or object that is still open, with what it holds so far, latest first. -/
inductive Open where
  | array (items : List Value)
  /-- The key is that of the member whose value comes next. -/
  | object (members : List (Option String × Value)) (key : Option String)

mutual

/-- Reads on where a value must come. -/
def want (stack : List Open) : List Token → Option Value
  | .null :: rest => given stack .null rest
  | .bool b :: rest => given stack (.bool b) rest
  | .number n :: rest => given stack (.number n) rest
  | .string text :: rest => given stack (.string text) rest
  | .openArray :: .closeArray :: rest => given stack (.array []) rest
  | .openArray :: rest => want (.array [] :: stack) rest
  | .openObject :: .closeObject :: rest => given stack (.object []) rest
  | .openObject :: .string key :: .colon :: rest => want (.object [] key :: stack) rest
  | _ => none

/-- Reads on after a value. -/
def given (stack : List Open) (value : Value) (tokens : List Token) : Option Value :=
  match tokens, stack with
  | [], [] => some value
  | .comma :: rest, .array items :: outer => want (.array (value :: items) :: outer) rest
  | .closeArray :: rest, .array items :: outer =>
    given outer (.array (value :: items).reverse) rest
  | .comma :: .string next :: .colon :: rest, .object members key :: outer =>
    want (.object ((key, value) :: members) next :: outer) rest
  | .closeObject :: rest, .object members key :: outer =>
    given outer (.object ((key, value) :: members).reverse) rest
  | _, _ => none

end

/-- The value that a text denotes, if it is well formed. -/
def parse (text : String) : Option Value :=
  (Token.scanAll text.toList).bind (want [])

end Json

end PrioritySampling
