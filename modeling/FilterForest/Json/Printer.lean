import FilterForest.Json
import FilterForest.Json.Numeral.Layout
import FilterForest.Json.Token

/-!
# Writing JSON

The compact form: the texts of the tokens with nothing between them. Strings escape the quote,
the backslash and the control characters and no other character.
-/

namespace FilterForest
namespace Json

mutual

/-- The tokens of a value. What has no value, and a number that is not finite, is written as
null. -/
def tokens : Json → List Token
  | null | unreadable => [.null]
  | bool value => [.bool value]
  | integer value => [.numeral (.ofInt value)]
  | real (.finite negative m) => [.numeral (.ofFinite negative m)]
  | real (.infinite _) | real .nan => [.null]
  | string value => [.ofString value]
  | array items => .openBracket :: itemTokens items ++ [.closeBracket]
  | object members => .openBrace :: memberTokens members ++ [.closeBrace]

def itemTokens : List Json → List Token
  | [] => []
  | [item] => tokens item
  | item :: rest => tokens item ++ .comma :: itemTokens rest

def memberTokens : List (String × Json) → List Token
  | [] => []
  | [(name, value)] => .ofString name :: .colon :: tokens value
  | (name, value) :: rest => .ofString name :: .colon :: tokens value ++ .comma :: memberTokens rest

end

/-- The compact text of a value. -/
def compact (value : Json) : List Char := value.tokens.flatMap Token.text

end Json
end FilterForest
