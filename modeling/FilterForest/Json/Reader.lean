import FilterForest.Json.Numeral.Value
import FilterForest.Json.Token

/-!
# Reading JSON

A descent over the tokens of a text. Every step of the descent either takes a token or enters an
element of an array, an object or a member, so twice the number of tokens bounds its length.
-/

namespace FilterForest
namespace Json

def ofPieces (pieces : List Piece) : Json :=
  match Piece.characters? pieces with
  | some characters => string (.ofList characters)
  | none => unreadable

/-- An object, if each of its names denotes a string. -/
def ofMembers (members : List (Json × Json)) : Json :=
  match members.mapM fun
    | (string name, value) => some (name, value)
    | _ => none with
  | some members => object members
  | none => unreadable

mutual

def takeValue? : Nat → List Token → Option (Json × List Token)
  | 0, _ => none
  | fuel + 1, tokens =>
    match tokens with
    | .null :: rest => some (null, rest)
    | .bool value :: rest => some (bool value, rest)
    | .numeral n :: rest => some (n.toJson, rest)
    | .string pieces :: rest => some (ofPieces pieces, rest)
    | .openBracket :: .closeBracket :: rest => some (array [], rest)
    | .openBracket :: rest => (takeItems? fuel rest).map fun (items, rest) => (array items, rest)
    | .openBrace :: .closeBrace :: rest => some (object [], rest)
    | .openBrace :: rest =>
      (takeMembers? fuel rest).map fun (members, rest) => (ofMembers members, rest)
    | _ => none

def takeItems? : Nat → List Token → Option (List Json × List Token)
  | 0, _ => none
  | fuel + 1, tokens =>
    match takeValue? fuel tokens with
    | some (item, .closeBracket :: rest) => some ([item], rest)
    | some (item, .comma :: rest) =>
      (takeItems? fuel rest).map fun (items, rest) => (item :: items, rest)
    | _ => none

def takeMembers? : Nat → List Token → Option (List (Json × Json) × List Token)
  | 0, _ => none
  | fuel + 1, tokens =>
    match tokens with
    | .string pieces :: .colon :: rest =>
      match takeValue? fuel rest with
      | some (value, .closeBrace :: rest) => some ([(ofPieces pieces, value)], rest)
      | some (value, .comma :: rest) =>
        (takeMembers? fuel rest).map fun (members, rest) =>
          ((ofPieces pieces, value) :: members, rest)
      | _ => none
    | _ => none

end

def ofTokens? (tokens : List Token) : Option Json :=
  match takeValue? (2 * tokens.length) tokens with
  | some (value, []) => some value
  | _ => none

def ofText? (s : List Char) : Option Json := (Token.ofText? s).bind ofTokens?

end Json
end FilterForest
