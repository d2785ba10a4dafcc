import PrioritySampling.Json.Token
/-!
# Values of JSON

A value is a tree.  Members of an object keep their order, and a key may come twice; what that
means is for the reader of the object to say.  Strings and keys hold the text that they spell,
if they spell one.

Writing goes through tokens: `toTokens` lists them and `render` puts their characters one after
another, without blanks.
-/

namespace PrioritySampling

namespace Json

/-- A value. -/
inductive Value where
  | null
  | bool (b : Bool)
  | number (n : Number)
  | string (text : Option String)
  | array (items : List Value)
  | object (members : List (Option String × Value))
  deriving Inhabited

namespace Value

mutual

/-- The tokens of a value. -/
def toTokens : Value → List Token
  | null => [.null]
  | bool b => [.bool b]
  | number n => [.number n]
  | string text => [.string text]
  | array [] => [.openArray, .closeArray]
  | array (item :: items) => .openArray :: (item.toTokens ++ laterItems items)
  | object [] => [.openObject, .closeObject]
  | object ((key, value) :: members) =>
    .openObject :: .string key :: .colon :: (value.toTokens ++ laterMembers members)

/-- The tokens of the items of an array after the first, and of its end. -/
def laterItems : List Value → List Token
  | [] => [.closeArray]
  | item :: items => .comma :: (item.toTokens ++ laterItems items)

/-- The tokens of the members of an object after the first, and of its end. -/
def laterMembers : List (Option String × Value) → List Token
  | [] => [.closeObject]
  | (key, value) :: members =>
    .comma :: .string key :: .colon :: (value.toTokens ++ laterMembers members)

end

/-- The value in characters. -/
def render (value : Value) : String :=
  String.ofList (value.toTokens.flatMap Token.render)

end Value

end Json

end PrioritySampling
