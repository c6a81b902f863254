/-!
# JSON tokens

The text of a JSON value is a sequence of tokens with blanks between them. A token is a punctuation
mark, a word, a number or a string. `Json.tokens?` splits a text into its tokens.
-/

namespace CodeTree.Json

inductive Token where
  | openBrace | closeBrace | openBracket | closeBracket | comma | colon
  | null
  | bool (value : Bool)
  | nat (value : Nat)
  | number (literal : String)
  | string (text : String)
  deriving DecidableEq, Repr

def isBlank (c : Char) : Bool := c == ' ' || c == '\n' || c == '\t' || c == '\r'

/-- One character of a string, or one UTF-16 unit written as `\u` and four digits. -/
inductive Piece where
  | char (c : Char)
  | unit (value : Nat)

def hexValue? (c : Char) : Option Nat :=
  if '0' ≤ c ∧ c ≤ '9' then some (c.toNat - '0'.toNat)
  else if 'a' ≤ c ∧ c ≤ 'f' then some (c.toNat - 'a'.toNat + 10)
  else if 'A' ≤ c ∧ c ≤ 'F' then some (c.toNat - 'A'.toNat + 10)
  else none

def hex4? (a b c d : Char) : Option Nat := do
  return (((← hexValue? a) * 16 + (← hexValue? b)) * 16 + (← hexValue? c)) * 16 + (← hexValue? d)

/-- The character for which a letter behind a backslash stands. -/
def unescape? : Char → Option Char
  | '"' => some '"'
  | '\\' => some '\\'
  | '/' => some '/'
  | 'b' => some '\x08'
  | 'f' => some '\x0c'
  | 'n' => some '\n'
  | 'r' => some '\r'
  | 't' => some '\t'
  | _ => none

/-- Reads up to the closing quote; gives the pieces and what comes behind the quote. -/
def pieces? : List Char → Option (List Piece × List Char)
  | [] => none
  | '"' :: rest => some ([], rest)
  | '\\' :: 'u' :: a :: b :: c :: d :: rest => do
    let unit ← hex4? a b c d
    let (pieces, after) ← pieces? rest
    return (.unit unit :: pieces, after)
  | '\\' :: letter :: rest => do
    let c ← unescape? letter
    let (pieces, after) ← pieces? rest
    return (.char c :: pieces, after)
  | c :: rest =>
    if c.toNat < 32 then none
    else do
      let (pieces, after) ← pieces? rest
      return (.char c :: pieces, after)

/-- The characters of the pieces. Two units make one character when they are a surrogate pair; a
surrogate that is alone is no character. -/
def charsOf? : List Piece → Option (List Char)
  | [] => some []
  | .char c :: rest => (charsOf? rest).map (c :: ·)
  | .unit high :: .unit low :: rest =>
    if 0xd800 ≤ high ∧ high < 0xdc00 then
      if 0xdc00 ≤ low ∧ low < 0xe000 then
        (charsOf? rest).map
          (Char.ofNat (0x10000 + (high - 0xd800) * 0x400 + (low - 0xdc00)) :: ·)
      else none
    else if 0xdc00 ≤ high ∧ high < 0xe000 then none
    else (charsOf? (.unit low :: rest)).map (Char.ofNat high :: ·)
  | .unit value :: rest =>
    if 0xd800 ≤ value ∧ value < 0xe000 then none
    else (charsOf? rest).map (Char.ofNat value :: ·)

def isNumberChar (c : Char) : Bool :=
  c.isDigit || c == '-' || c == '+' || c == '.' || c == 'e' || c == 'E'

def isDigits (text : List Char) : Bool := !text.isEmpty && text.all Char.isDigit

def isInteger (text : List Char) : Bool :=
  isDigits text && (text.head? != some '0' || text == ['0'])

/-- An exponent with its letter, or nothing. -/
def isExponent : List Char → Bool
  | [] => true
  | mark :: rest =>
    (mark == 'e' || mark == 'E') &&
      match rest with
      | sign :: digits => if sign == '+' || sign == '-' then isDigits digits else isDigits rest
      | [] => false

/-- A fraction with its point, or nothing, and then an exponent. -/
def isFraction : List Char → Bool
  | '.' :: rest =>
    isDigits (rest.takeWhile Char.isDigit) && isExponent (rest.dropWhile Char.isDigit)
  | rest => isExponent rest

def isUnsigned (text : List Char) : Bool :=
  isInteger (text.takeWhile Char.isDigit) && isFraction (text.dropWhile Char.isDigit)

def numberToken? (text : List Char) : Option Token :=
  if isInteger text then some (.nat (Nat.ofDigitChars 10 text 0))
  else
    let unsigned := match text with
      | '-' :: rest => rest
      | _ => text
    if isUnsigned unsigned then some (.number (String.ofList text)) else none

def punctuation? : Char → Option Token
  | '\x7b' => some .openBrace
  | '\x7d' => some .closeBrace
  | '[' => some .openBracket
  | ']' => some .closeBracket
  | ',' => some .comma
  | ':' => some .colon
  | _ => none

def word? : List Char → Option (Token × List Char)
  | 'n' :: 'u' :: 'l' :: 'l' :: rest => some (.null, rest)
  | 't' :: 'r' :: 'u' :: 'e' :: rest => some (.bool true, rest)
  | 'f' :: 'a' :: 'l' :: 's' :: 'e' :: rest => some (.bool false, rest)
  | _ => none

def token? (c : Char) (rest : List Char) : Option (Token × List Char) :=
  match punctuation? c with
  | some token => some (token, rest)
  | none =>
    if c = '"' then do
      let (pieces, after) ← pieces? rest
      let chars ← charsOf? pieces
      return (.string (String.ofList chars), after)
    else if isNumberChar c then do
      let token ← numberToken? (c :: rest.takeWhile isNumberChar)
      return (token, rest.dropWhile isNumberChar)
    else word? (c :: rest)

/-- The tokens of a text of at most the given length. -/
def tokensWithin? : Nat → List Char → Option (List Token)
  | _, [] => some []
  | 0, _ :: _ => none
  | length + 1, c :: rest =>
    if isBlank c then tokensWithin? length rest
    else do
      let (token, after) ← token? c rest
      return token :: (← tokensWithin? length after)

def tokens? (text : List Char) : Option (List Token) := tokensWithin? text.length text

end CodeTree.Json
