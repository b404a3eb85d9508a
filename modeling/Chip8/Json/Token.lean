import Chip8.Json.Basic
import Chip8.Numeral

/-!
# The tokens of JSON

A text is cut into tokens by going over it once, character by character. Between
tokens there may be blanks, tabs and line ends. A word or a number is every
letter, digit, sign and point in a row, and is judged as a whole when it ends; a
quoted text ends at its quote and holds no control character as it stands.
-/

namespace Chip8.Json

/-- A token. Words and numbers stand for their values. -/
inductive Token
  | listOpen
  | listClose
  | recordOpen
  | recordClose
  | comma
  | colon
  | scalar (value : Json)
  | text (content : Text)

/-- A piece of a quoted text: a character, or a unit of sixteen bits named by an escape. -/
inductive Piece
  | char (c : Char)
  | unit (value : Nat)
  deriving DecidableEq, Repr

namespace Piece

/-- The unit is the first half of a surrogate pair. -/
def isLeading (value : Nat) : Bool :=
  0xd800 ≤ value && value < 0xdc00

/-- The unit is the second half of a surrogate pair. -/
def isTrailing (value : Nat) : Bool :=
  0xdc00 ≤ value && value < 0xe000

/-- The character of a surrogate pair. -/
def paired (leading trailing : Nat) : Char :=
  Char.ofNat (0x10000 + 0x400 * (leading - 0xd800) + (trailing - 0xdc00))

/-- The characters that the pieces stand for, unless a half pair stands alone. -/
def join : List Piece → Option (List Char)
  | [] => some []
  | char c :: rest => (join rest).map (c :: ·)
  | unit a :: unit b :: rest =>
    if isLeading a && isTrailing b then (join rest).map (paired a b :: ·)
    else if isLeading a || isTrailing a then none
    else (join (unit b :: rest)).map (Char.ofNat a :: ·)
  | unit a :: rest =>
    if isLeading a || isTrailing a then none
    else (join rest).map (Char.ofNat a :: ·)

end Piece

/-- The character may stand between tokens. -/
def isBlank (c : Char) : Bool :=
  c == ' ' || c == '\t' || c == '\n' || c == '\r'

/-- The character belongs to a word or a number. -/
def isBare (c : Char) : Bool :=
  c.isAlphanum || c == '+' || c == '-' || c == '.'

/-- The token that is one character. -/
def Token.ofMark? : Char → Option Token
  | '[' => some .listOpen
  | ']' => some .listClose
  | '\x7b' => some .recordOpen
  | '\x7d' => some .recordClose
  | ',' => some .comma
  | ':' => some .colon
  | _ => none

/-- There is a digit, and there are only digits. -/
def areDigits (lexeme : List Char) : Bool :=
  !lexeme.isEmpty && lexeme.all Char.isDigit

/-- Digits without a zero in front, or zero itself. -/
def isWhole (lexeme : List Char) : Bool :=
  areDigits lexeme && (lexeme == ['0'] || lexeme.head? != some '0')

/-- Nothing, or the power of ten that ends a number. -/
def isExponent : List Char → Bool
  | [] => true
  | 'e' :: rest | 'E' :: rest =>
    match rest with
    | '+' :: digits | '-' :: digits => areDigits digits
    | digits => areDigits digits
  | _ => false

/-- Nothing, or a point with digits behind it, and the power of ten. -/
def isFraction : List Char → Bool
  | '.' :: rest =>
    areDigits (rest.takeWhile Char.isDigit) && isExponent (rest.dropWhile Char.isDigit)
  | rest => isExponent rest

/-- A number without a sign. -/
def isMagnitude (lexeme : List Char) : Bool :=
  isWhole (lexeme.takeWhile Char.isDigit) && isFraction (lexeme.dropWhile Char.isDigit)

/-- The value of a number. -/
def ofNumber? (lexeme : List Char) : Option Json :=
  if isWhole lexeme then some (.natural (Nat.ofDigitChars 10 lexeme 0))
  else if isMagnitude lexeme || (lexeme.head? == some '-' && isMagnitude lexeme.tail) then
    some (.number (String.ofList lexeme))
  else none

/-- The value of a word or a number. -/
def ofBare? (lexeme : List Char) : Option Json :=
  if lexeme = ['n', 'u', 'l', 'l'] then some .null
  else if lexeme = ['t', 'r', 'u', 'e'] then some (.bool true)
  else if lexeme = ['f', 'a', 'l', 's', 'e'] then some (.bool false)
  else ofNumber? lexeme

/-- The character that a backslash and this one stand for. -/
def ofEscape? : Char → Option Char
  | '"' => some '"'
  | '\\' => some '\\'
  | '/' => some '/'
  | 'b' => some '\x08'
  | 'f' => some '\x0c'
  | 'n' => some '\n'
  | 'r' => some '\r'
  | 't' => some '\t'
  | _ => none

/-- What the lexer is in the middle of; lists hold the latest character first. -/
inductive Lexer.Mode
  | between
  | bare (lexeme : List Char)
  | quoted (pieces : List Piece)
  /-- A quoted text, just behind a backslash. -/
  | escaped (pieces : List Piece)
  /-- A quoted text, with this many digits of a numbered escape to come. -/
  | coded (pieces : List Piece) (missing value : Nat)

/-- The tokens found so far, the latest first, and what is under way. -/
structure Lexer where
  tokens : List Token
  mode : Lexer.Mode

namespace Lexer

/-- Before the first character. -/
def start : Lexer := ⟨[], .between⟩

/-- A character where no token is under way. -/
def feedBetween (tokens : List Token) (c : Char) : Option Lexer :=
  if isBlank c then some ⟨tokens, .between⟩
  else if c = '"' then some ⟨tokens, .quoted []⟩
  else if isBare c then some ⟨tokens, .bare [c]⟩
  else (Token.ofMark? c).map fun token => ⟨token :: tokens, .between⟩

/-- A character inside a quoted text. -/
def feedQuoted (tokens : List Token) (pieces : List Piece) (c : Char) : Option Lexer :=
  if c = '"' then
    some ⟨.text ((Piece.join pieces.reverse).map String.ofList) :: tokens, .between⟩
  else if c = '\\' then some ⟨tokens, .escaped pieces⟩
  else if c < ' ' then none
  else some ⟨tokens, .quoted (.char c :: pieces)⟩

/-- A character behind a backslash. -/
def feedEscaped (tokens : List Token) (pieces : List Piece) (c : Char) : Option Lexer :=
  if c = 'u' then some ⟨tokens, .coded pieces 4 0⟩
  else (ofEscape? c).map fun c => ⟨tokens, .quoted (.char c :: pieces)⟩

/-- A digit of a numbered escape. -/
def feedCoded (tokens : List Token) (pieces : List Piece) (missing value : Nat) (c : Char) :
    Option Lexer :=
  (Numeral.digit? 16 c).map fun d =>
    if missing ≤ 1 then ⟨tokens, .quoted (.unit (16 * value + d) :: pieces)⟩
    else ⟨tokens, .coded pieces (missing - 1) (16 * value + d)⟩

/-- Takes in the next character of the text. -/
def feed (lexer : Lexer) (c : Char) : Option Lexer :=
  match lexer.mode with
  | .between => feedBetween lexer.tokens c
  | .bare lexeme =>
    if isBare c then some ⟨lexer.tokens, .bare (c :: lexeme)⟩
    else
      (ofBare? lexeme.reverse).bind fun value => feedBetween (.scalar value :: lexer.tokens) c
  | .quoted pieces => feedQuoted lexer.tokens pieces c
  | .escaped pieces => feedEscaped lexer.tokens pieces c
  | .coded pieces missing value => feedCoded lexer.tokens pieces missing value c

/-- The tokens of the whole text, unless it ends inside a quoted text. -/
def finish (lexer : Lexer) : Option (List Token) :=
  match lexer.mode with
  | .between => some lexer.tokens.reverse
  | .bare lexeme =>
    (ofBare? lexeme.reverse).map fun value => (.scalar value :: lexer.tokens).reverse
  | .quoted _ | .escaped _ | .coded _ _ _ => none

end Lexer

def tokens? (text : List Char) : Option (List Token) :=
  (text.foldlM Lexer.feed Lexer.start).bind Lexer.finish

end Chip8.Json
