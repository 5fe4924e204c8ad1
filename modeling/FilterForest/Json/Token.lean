import FilterForest.Json.Numeral

/-!
# JSON tokens

Reading and writing meet in a list of tokens. Numerals and strings are kept as they are written,
so that every token has a text, and the text of a list of tokens is that of one after the other.
The grammar is strict: four blanks only, no control character inside a string, no zero in front of
other digits.
-/

namespace FilterForest
namespace Json

/-- What a string is written with: a character, or a code unit of UTF-16 as an escape. -/
inductive Piece
  | char (c : Char)
  | unit (code : Nat)
deriving DecidableEq

inductive Token
  | openBracket
  | closeBracket
  | openBrace
  | closeBrace
  | colon
  | comma
  | null
  | bool (value : Bool)
  | numeral (n : Numeral)
  | string (pieces : List Piece)
deriving DecidableEq

namespace Piece

/-- The letter of the short escape of a character. -/
def escape? (c : Char) : Option Char :=
  match c with
  | '"' => some '"'
  | '\\' => some '\\'
  | '\x08' => some 'b'
  | '\x0c' => some 'f'
  | '\n' => some 'n'
  | '\r' => some 'r'
  | '\t' => some 't'
  | _ => none

/-- The character that a short escape stands for. -/
def escaped? (letter : Char) : Option Char :=
  match letter with
  | '"' => some '"'
  | '\\' => some '\\'
  | '/' => some '/'
  | 'b' => some '\x08'
  | 'f' => some '\x0c'
  | 'n' => some '\n'
  | 'r' => some '\r'
  | 't' => some '\t'
  | _ => none

/-- The four hexadecimal digits of a code unit, in lower case. -/
def hex (code : Nat) : List Char :=
  [code / 4096 % 16, code / 256 % 16, code / 16 % 16, code % 16].map Nat.digitChar

def hexDigit? (c : Char) : Option Nat :=
  if '0' ≤ c ∧ c ≤ '9' then some (c.toNat - '0'.toNat)
  else if 'a' ≤ c ∧ c ≤ 'f' then some (c.toNat - 'a'.toNat + 10)
  else if 'A' ≤ c ∧ c ≤ 'F' then some (c.toNat - 'A'.toNat + 10)
  else none

/-- The code unit that four hexadecimal digits write. -/
def unhex? (a b c d : Char) : Option Nat :=
  match hexDigit? a, hexDigit? b, hexDigit? c, hexDigit? d with
  | some a, some b, some c, some d => some (4096 * a + 256 * b + 16 * c + d)
  | _, _, _, _ => none

def text : Piece → List Char
  | char c =>
    match escape? c with
    | some letter => ['\\', letter]
    | none => [c]
  | unit code => '\\' :: 'u' :: hex code

/-- The piece that a character is written with: itself, unless it is a control character without a
short escape. -/
def ofChar (c : Char) : Piece :=
  if c < ' ' ∧ escape? c = none then unit c.toNat else char c

/-- The pieces of a string after its opening quote, and what follows its closing quote. -/
def take? : List Char → Option (List Piece × List Char)
  | [] => none
  | '"' :: rest => some ([], rest)
  | '\\' :: 'u' :: a :: b :: c :: d :: rest =>
    match unhex? a b c d, take? rest with
    | some code, some (pieces, rest) => some (unit code :: pieces, rest)
    | _, _ => none
  | '\\' :: letter :: rest =>
    match escaped? letter, take? rest with
    | some c, some (pieces, rest) => some (char c :: pieces, rest)
    | _, _ => none
  | c :: rest =>
    if c < ' ' then none
    else (take? rest).map fun (pieces, rest) => (char c :: pieces, rest)

def isHighSurrogate (code : Nat) : Bool := 0xD800 ≤ code && code < 0xDC00

def isLowSurrogate (code : Nat) : Bool := 0xDC00 ≤ code && code < 0xE000

/-- The characters that pieces denote, none if half of a surrogate pair stands alone. -/
def characters? : List Piece → Option (List Char)
  | [] => some []
  | char c :: rest => (characters? rest).map (c :: ·)
  | unit code :: rest =>
    if isLowSurrogate code then none
    else if isHighSurrogate code then
      match rest with
      | unit low :: rest =>
        if isLowSurrogate low then
          (characters? rest).map
            (Char.ofNat (0x10000 + (code - 0xD800) * 0x400 + (low - 0xDC00)) :: ·)
        else none
      | _ => none
    else (characters? rest).map (Char.ofNat code :: ·)

end Piece

namespace Token

def text : Token → List Char
  | openBracket => ['[']
  | closeBracket => [']']
  | openBrace => ['\x7b']
  | closeBrace => ['\x7d']
  | colon => [':']
  | comma => [',']
  | null => "null".toList
  | bool value => if value then "true".toList else "false".toList
  | numeral n => n.text
  | string pieces => '"' :: pieces.flatMap Piece.text ++ ['"']

/-- The string token of a string. -/
def ofString (s : String) : Token := string (s.toList.map Piece.ofChar)

def isSpace (c : Char) : Bool := c = ' ' || c = '\t' || c = '\n' || c = '\r'

def take? : List Char → Option (Token × List Char)
  | '[' :: rest => some (openBracket, rest)
  | ']' :: rest => some (closeBracket, rest)
  | '\x7b' :: rest => some (openBrace, rest)
  | '\x7d' :: rest => some (closeBrace, rest)
  | ':' :: rest => some (colon, rest)
  | ',' :: rest => some (comma, rest)
  | 'n' :: 'u' :: 'l' :: 'l' :: rest => some (null, rest)
  | 't' :: 'r' :: 'u' :: 'e' :: rest => some (bool true, rest)
  | 'f' :: 'a' :: 'l' :: 's' :: 'e' :: rest => some (bool false, rest)
  | '"' :: rest => (Piece.take? rest).map fun (pieces, rest) => (string pieces, rest)
  | s => (Numeral.take? s).map fun (n, rest) => (numeral n, rest)

/-- Splits a text into tokens. Every step takes a character at least, so that the length of the
text bounds their number. -/
def scan? : Nat → List Char → Option (List Token)
  | _, [] => some []
  | 0, _ :: _ => none
  | fuel + 1, c :: rest =>
    if isSpace c then scan? fuel rest
    else match take? (c :: rest) with
      | some (token, rest) => (scan? fuel rest).map (token :: ·)
      | none => none

def ofText? (s : List Char) : Option (List Token) := scan? s.length s

end Token
end Json
end FilterForest
