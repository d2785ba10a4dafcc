import PrioritySampling.Export.Records
import PrioritySampling.Proofs.Lexemes
/-!
# Reading values back

The text of a value is cut into the tokens that it was written from, since no number stands before
anything that could go on with it.  Of these tokens each value takes up its own and leaves the
rest, so reading a text that was written gives the value back.
-/

namespace PrioritySampling

namespace Json

namespace Token

variable {token : Token} {tokens rest : List Token}

/-! ## Tokens -/

/-- What follows a token does not change how far it reaches. -/
def EndsBefore : Token → List Char → Prop
  | number _, text => Number.Ends text
  | _, _ => True

theorem scan_of_digit (digit : Digit) {text after : List Char} {n : Number}
    (h : Number.scan (digit.toChar :: text) = some (n, after)) :
    scan (digit.toChar :: text) = some (number n, after) := by
  rw [scan, h]
  -- No digit is a bracket, a comma, a colon, a quote or the first letter of a word.
  all_goals
    intro rest heq
    have hchar := List.head_eq_of_cons_eq heq
    clear h heq
    revert digit
    decide

theorem scan_number (n : Number) {text : List Char} (h : Number.Ends text) :
    scan (n.render ++ text) = some (number n, text) := by
  have hscan := n.scan_render h
  obtain ⟨c, later, hrender, rfl | ⟨digit, rfl⟩⟩ := n.exists_render
  · rw [hrender, List.cons_append] at hscan ⊢
    rw [scan, hscan]
    all_goals exact nofun
  · rw [hrender, List.cons_append] at hscan ⊢
    exact scan_of_digit digit hscan

/-- A token is read as it was written. -/
theorem scan_render {text : List Char} (h : token.EndsBefore text) :
    scan (token.render ++ text) = some (token, text) := by
  cases token with
  | number n => exact scan_number n h
  | bool b =>
    cases b with
    | _ => rfl
  | string spelled =>
    cases spelled with
    | none => rfl
    | some spelled =>
      obtain ⟨pieces, hscan, hspell⟩ := Text.exists_scanPieces spelled.toList text
      rw [render, Text.quote, List.cons_append, List.cons_append, List.append_assoc,
        List.singleton_append, scan, hscan]
      simp only [hspell, Option.map_some, String.ofList_toList]
  | _ => rfl

/-- No token begins with a blank. -/
theorem dropWhile_render (token : Token) (text : List Char) :
    (token.render ++ text).dropWhile isBlank = token.render ++ text := by
  cases token with
  | number n =>
    obtain ⟨c, later, hrender, rfl | ⟨digit, rfl⟩⟩ := n.exists_render
    · rw [render, hrender]
      rfl
    · rw [render, hrender]
      fin_cases digit <;> rfl
  | bool b =>
    cases b with
    | _ => rfl
  | string spelled =>
    cases spelled with
    | _ => rfl
  | _ => rfl

/-- The characters of the tokens are cut into the same tokens. -/
def Cut (tokens : List Token) : Prop :=
  scanAll (tokens.flatMap render) = some tokens

theorem cut_nil : Cut [] := by
  rw [Cut, List.flatMap_nil, scanAll]
  rfl

theorem Cut.cons (h : Cut rest) (hends : token.EndsBefore (rest.flatMap render)) :
    Cut (token :: rest) := by
  have hscan := scan_render hends
  rw [← dropWhile_render] at hscan
  rw [Cut, List.flatMap_cons, scanAll]
  split
  · rename_i heq
    rw [hscan] at heq
    cases heq
    rw [h]
    rfl
  · rename_i heq
    rw [hscan] at heq
    cases heq

end Token

namespace Value

open Token (Cut)

/-! ## Values -/

section Cut

-- A value in an array or object is followed by a comma or a bracket, which no number goes on with.

theorem ends_laterItems (items : List Value) (rest : List Token) :
    Number.Ends ((laterItems items ++ rest).flatMap Token.render) := by
  cases items with
  | _ => exact ⟨rfl, nofun, nofun, nofun⟩

theorem ends_laterMembers (members : List (Option String × Value)) (rest : List Token) :
    Number.Ends ((laterMembers members ++ rest).flatMap Token.render) := by
  cases members with
  | _ => exact ⟨rfl, nofun, nofun, nofun⟩

mutual

/-- The characters of a value are cut into its tokens, unless something follows that a number at
its end would go on with. -/
theorem cut_toTokens {rest : List Token} (hrest : Cut rest)
    (hends : Number.Ends (rest.flatMap Token.render)) :
    (value : Value) → Cut (value.toTokens ++ rest)
  | null => hrest.cons trivial
  | bool _ => hrest.cons trivial
  | number _ => hrest.cons hends
  | string _ => hrest.cons trivial
  | array [] => .cons (.cons hrest trivial) trivial
  | array (item :: items) => by
    rw [toTokens, List.cons_append, List.append_assoc]
    exact (cut_toTokens (cut_laterItems hrest items) (ends_laterItems items rest) item).cons trivial
  | object [] => .cons (.cons hrest trivial) trivial
  | object ((key, value) :: members) => by
    rw [toTokens, List.cons_append, List.cons_append, List.cons_append, List.append_assoc]
    have hvalue :=
      cut_toTokens (cut_laterMembers hrest members) (ends_laterMembers members rest) value
    exact .cons (.cons (.cons hvalue trivial) trivial) trivial

theorem cut_laterItems {rest : List Token} (hrest : Cut rest) :
    (items : List Value) → Cut (laterItems items ++ rest)
  | [] => hrest.cons trivial
  | item :: items => by
    rw [laterItems, List.cons_append, List.append_assoc]
    exact (cut_toTokens (cut_laterItems hrest items) (ends_laterItems items rest) item).cons trivial

theorem cut_laterMembers {rest : List Token} (hrest : Cut rest) :
    (members : List (Option String × Value)) → Cut (laterMembers members ++ rest)
  | [] => hrest.cons trivial
  | (key, value) :: members => by
    rw [laterMembers, List.cons_append, List.cons_append, List.cons_append, List.append_assoc]
    have hvalue :=
      cut_toTokens (cut_laterMembers hrest members) (ends_laterMembers members rest) value
    exact .cons (.cons (.cons hvalue trivial) trivial) trivial

end

end Cut

section Want

variable {stack : List Open} {rest : List Token}

theorem head?_toTokens (value : Value) (rest : List Token) :
    (value.toTokens ++ rest).head? ≠ some .closeArray := by
  cases value with
  | array items =>
    cases items with
    | _ => exact nofun
  | object members =>
    cases members with
    | _ => exact nofun
  | _ => exact nofun

/-- An array that does not end at once begins with an item. -/
theorem want_openArray {tokens : List Token} (h : tokens.head? ≠ some .closeArray) :
    want stack (.openArray :: tokens) = want (.array [] :: stack) tokens := by
  rw [want]
  rintro later rfl
  exact h rfl

mutual

/-- Where a value must come, the tokens of one are taken up as that value. -/
theorem want_toTokens (stack : List Open) (rest : List Token) :
    (value : Value) → want stack (value.toTokens ++ rest) = given stack value rest
  | null => rfl
  | bool _ => rfl
  | number _ => rfl
  | string _ => rfl
  | array [] => rfl
  | array (item :: items) => by
    rw [toTokens, List.cons_append, List.append_assoc, want_openArray (head?_toTokens item _),
      want_toTokens _ _ item, given_laterItems stack rest [] item items]
    rfl
  | object [] => rfl
  | object ((key, value) :: members) => by
    rw [toTokens, List.cons_append, List.cons_append, List.cons_append, List.append_assoc, want,
      want_toTokens _ _ value, given_laterMembers stack rest [] key value members]
    rfl

/-- The items up to the end of an array join those that it holds so far. -/
theorem given_laterItems (stack : List Open) (rest : List Token) (done : List Value)
    (item : Value) :
    (items : List Value) →
      given (.array done :: stack) item (laterItems items ++ rest) =
        given stack (.array (done.reverse ++ item :: items)) rest
  | [] => by
    rw [laterItems, List.singleton_append, given, List.reverse_cons]
  | next :: items => by
    rw [laterItems, List.cons_append, List.append_assoc, given, want_toTokens _ _ next,
      given_laterItems stack rest (item :: done) next items, List.reverse_cons,
      List.append_assoc, List.singleton_append]

theorem given_laterMembers (stack : List Open) (rest : List Token)
    (done : List (Option String × Value)) (key : Option String) (value : Value) :
    (members : List (Option String × Value)) →
      given (.object done key :: stack) value (laterMembers members ++ rest) =
        given stack (.object (done.reverse ++ (key, value) :: members)) rest
  | [] => by
    rw [laterMembers, List.singleton_append, given, List.reverse_cons]
  | (next, later) :: members => by
    rw [laterMembers, List.cons_append, List.cons_append, List.cons_append, List.append_assoc,
      given, want_toTokens _ _ later,
      given_laterMembers stack rest ((key, value) :: done) next later members, List.reverse_cons,
      List.append_assoc, List.singleton_append]

end

end Want

/-- A value is read as it was written. -/
theorem parse_render (value : Value) : parse value.render = some value := by
  have hcut := cut_toTokens Token.cut_nil trivial value
  have hwant := want_toTokens [] [] value
  rw [List.append_nil] at hcut hwant
  rw [parse, render, String.toList_ofList, hcut, Option.bind_some, hwant, given]

/-! ## Data -/

theorem toInt?_ofInt (i : Int) : (ofInt i).toInt? = some i :=
  Number.toInt?_ofInt i

theorem toNatBelow?_ofInt {n bound : Nat} (h : n < bound) :
    (ofInt n).toNatBelow? bound = some n := by
  rw [toNatBelow?, toInt?_ofInt]
  exact if_pos h

theorem toUInt64?_ofUInt64 (n : UInt64) : (ofUInt64 n).toUInt64? = some n := by
  rw [toUInt64?, ofUInt64, toNatBelow?_ofInt n.toNat_lt_size, Option.map_some, UInt64.ofNat_toNat]

/-- A list is read back if all its items are. -/
theorem toList?_array {α : Type} {item? : Value → Option α} {encode : α → Value} {items : List α}
    (h : ∀ item ∈ items, item? (encode item) = some item) :
    toList? item? (.array (items.map encode)) = some items := by
  induction items with
  | nil => rfl
  | cons item items ih =>
    obtain ⟨hitem, hitems⟩ := List.forall_mem_cons.mp h
    have hlater := ih hitems
    rw [toList?] at hlater
    rw [toList?, List.map_cons, List.mapM_cons, hitem, hlater]
    rfl

end Value

end Json

namespace Event

open Json (Payload Value)

variable {π : Type} [Payload π] {event : Event π}

/-- An event of finite priority is read back if its priority and its payload are. -/
theorem ofJson?_toJson (hfinite : event.priority.isFinite = true)
    (hpriority : (Value.number (.ofBinary64 event.priority)).toBinary64? = some event.priority)
    (hpayload : Payload.decode? (Payload.encode event.payload) = some event.payload) :
    ofJson? event.toJson = some event := by
  have hfields : event.toJson.fields? keys false =
      some [some (.ofBinary64 event.priority), some (.ofUInt64 event.timestamp),
        some (Payload.encode event.payload)] := by
    rfl
  rw [Value.ofBinary64, if_pos hfinite] at hfields
  rw [ofJson?, hfields]
  simp only [hpriority, hpayload, Value.toUInt64?_ofUInt64, Option.bind_eq_bind, Option.bind_some,
    Option.pure_def]

end Event

end PrioritySampling
