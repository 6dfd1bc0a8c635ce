import CrossCompiler.Text.Quoted

/-!
# Reading JSON

Reads one value from the front of a text and says what is left.  What follows the value is
not looked at.  White space is the four characters of the standard only.  A text that ends
too early fails differently from one that goes wrong, and a text without any value
differently again.  Stray bytes are allowed in strings only, where each becomes one
replacement character, as does a surrogate escape without its other half.

Strings are lists of characters, so every string of a value is valid however it was written.  A
number is kept as it was written.  Members of an object are kept in the order of the text,
repetitions included.
-/

namespace CrossCompiler
namespace Json

/-- A JSON value. -/
inductive Value where
  | null
  | boolean (b : Bool)
  | number (literal : List Char)
  | string (s : List Char)
  | array (elements : List Value)
  | object (members : List (List Char × Value))

/-- Where in a text a symbol was not expected. -/
inductive Context where
  | beginningOfValue
  | beginningOfKey
  | afterKey
  | afterMember
  | afterElement
  | inString
  | inEscape
  | inHexEscape
  | inNumber
  | afterPoint
  | inExponent
  | inLiteral (literal : String) (expected : Char)
  | tooDeep
  deriving DecidableEq

/-- Why no value can be read. -/
inductive Failure where
  /-- There is nothing but white space. -/
  | noValue
  /-- The text ends inside the value. -/
  | cutOff
  /-- The symbol cannot stand where it does. -/
  | unexpected (symbol : Symbol) (context : Context)
  deriving DecidableEq

/-- A reader takes a value off the front of a text. -/
abbrev Reader (α : Type) := List Symbol → Except Failure (α × List Symbol)

/-- How deep arrays and objects may be nested. -/
def depthLimit : Nat := 10000

/-- The white space of JSON. -/
def isBlank (s : Symbol) : Bool :=
  s = .char ' ' || s = .char '\t' || s = .char '\n' || s = .char '\r'

/-- The text behind the white space at its front. -/
def skipBlanks (s : List Symbol) : List Symbol := s.dropWhile isBlank

/-- Reads the rest of a literal. -/
def literal (whole : String) (value : Value) : List Char → Reader Value
  | [], rest => .ok (value, rest)
  | _ :: _, [] => .error .cutOff
  | c :: expected, s :: rest =>
    if s = .char c then literal whole value expected rest
    else .error (.unexpected s (.inLiteral whole c))

def isDigit : Symbol → Bool
  | .char c => '0' ≤ c && c ≤ '9'
  | .stray _ => false

/-- Reads one or more digits. -/
def digits (context : Context) : Reader Unit
  | [] => .error .cutOff
  | s :: rest =>
    if isDigit s then .ok ((), rest.dropWhile isDigit) else .error (.unexpected s context)

/-- Reads the exponent of a number, if there is one. -/
def exponent : Reader Unit
  | .char e :: rest =>
    if e = 'e' ∨ e = 'E' then
      match rest with
      | .char sign :: unsigned =>
        if sign = '+' ∨ sign = '-' then digits .inExponent unsigned
        else digits .inExponent rest
      | _ => digits .inExponent rest
    else .ok ((), .char e :: rest)
  | rest => .ok ((), rest)

/-- Reads the fraction and the exponent of a number, if there are any. -/
def fraction : Reader Unit
  | .char '.' :: rest => do
    let (_, rest) ← digits .afterPoint rest
    exponent rest
  | rest => exponent rest

/-- Reads a number behind its sign.  Behind a leading zero no digit belongs to it. -/
def magnitude (context : Context) : Reader Unit
  | [] => .error .cutOff
  | .char '0' :: rest => fraction rest
  | s :: rest =>
    if isDigit s then fraction (rest.dropWhile isDigit) else .error (.unexpected s context)

/-- Reads a number. -/
def number : Reader Value := fun s => do
  let (_, rest) ←
    match s with
    | .char '-' :: unsigned => magnitude .inNumber unsigned
    | s => magnitude .beginningOfValue s
  return (.number ((s.take (s.length - rest.length)).map Symbol.toChar), rest)

/-- A part of a string: a character, or the number of an escape. -/
inductive Piece where
  | char (c : Char)
  | escaped (code : Nat)

/-- The value of a hexadecimal digit. -/
def hexValue? : Symbol → Option Nat
  | .char c =>
    if '0' ≤ c ∧ c ≤ '9' then some (c.toNat - 48)
    else if 'a' ≤ c ∧ c ≤ 'f' then some (c.toNat - 87)
    else if 'A' ≤ c ∧ c ≤ 'F' then some (c.toNat - 55)
    else none
  | .stray _ => none

/-- The character behind a backslash. -/
def escape? : Char → Option Char
  | '"' => some '"'
  | '\\' => some '\\'
  | '/' => some '/'
  | 'b' => some '\x08'
  | 'f' => some '\x0c'
  | 'n' => some '\n'
  | 'r' => some '\r'
  | 't' => some '\t'
  | _ => none

/-- The number of four hexadecimal digits, or the first symbol that is none. -/
def hexCode (a b c d : Symbol) : Except Symbol Nat :=
  match hexValue? a, hexValue? b, hexValue? c, hexValue? d with
  | some a, some b, some c, some d => .ok (a * 4096 + b * 256 + c * 16 + d)
  | none, _, _, _ => .error a
  | _, none, _, _ => .error b
  | _, _, none, _ => .error c
  | _, _, _, none => .error d

/-- Puts a piece in front of what is read behind it. -/
def consPiece (piece : Piece) :
    Except Failure (List Piece × List Symbol) → Except Failure (List Piece × List Symbol)
  | .ok (pieces, rest) => .ok (piece :: pieces, rest)
  | .error failure => .error failure

/-- Reads a string behind its opening quote, up to and including the closing one. -/
def stringBody : Reader (List Piece)
  | [] => .error .cutOff
  | .stray _ :: rest => consPiece (.char replacement) (stringBody rest)
  | .char '"' :: rest => .ok ([], rest)
  | .char '\\' :: .char 'u' :: a :: b :: c :: d :: rest =>
    match hexCode a b c d with
    | .ok code => consPiece (.escaped code) (stringBody rest)
    | .error s => .error (.unexpected s .inHexEscape)
  | .char '\\' :: .char 'u' :: short =>
    match short.find? fun s => (hexValue? s).isNone with
    | some s => .error (.unexpected s .inHexEscape)
    | none => .error .cutOff
  | .char '\\' :: .char e :: rest =>
    match escape? e with
    | some c => consPiece (.char c) (stringBody rest)
    | none => .error (.unexpected (.char e) .inEscape)
  | .char '\\' :: .stray b :: _ => .error (.unexpected (.stray b) .inEscape)
  | [.char '\\'] => .error .cutOff
  | .char c :: rest =>
    if c.toNat < 0x20 then .error (.unexpected (.char c) .inString)
    else consPiece (.char c) (stringBody rest)

/-- The character of an escape that is no half of a surrogate pair. -/
def escapedChar (code : Nat) : Char :=
  if code.isValidChar then Char.ofNat code else replacement

/-- The first half of a surrogate pair. -/
def isHigh (code : Nat) : Bool := 0xD800 ≤ code && code < 0xDC00

/-- The second half of a surrogate pair. -/
def isLow (code : Nat) : Bool := 0xDC00 ≤ code && code < 0xE000

/-- The characters of a string.  Two escapes that form a surrogate pair are one character; a
surrogate without its other half is replaced.  `high` is a first half whose second half has
yet to come. -/
def joinPieces : (high : Option Nat) → List Piece → List Char
  | none, [] => []
  | some _, [] => [replacement]
  | none, .char c :: rest => c :: joinPieces none rest
  | some _, .char c :: rest => replacement :: c :: joinPieces none rest
  | none, .escaped code :: rest =>
    if isHigh code then joinPieces (some code) rest
    else escapedChar code :: joinPieces none rest
  | some high, .escaped code :: rest =>
    if isLow code then
      Char.ofNat (0x10000 + (high - 0xD800) * 1024 + (code - 0xDC00)) :: joinPieces none rest
    else if isHigh code then replacement :: joinPieces (some code) rest
    else replacement :: escapedChar code :: joinPieces none rest

/-- Reads a string behind its opening quote. -/
def string : Reader (List Char) := fun s => do
  let (pieces, rest) ← stringBody s
  return (joinPieces none pieces, rest)

/-- Reads the elements of an array behind its opening bracket and the white space there, with
the closing bracket.  `fuel` bounds the number of elements by the length of the text. -/
def elements (value : Reader Value) : (fuel : Nat) → Reader (List Value)
  | 0, _ => .error .cutOff
  | fuel + 1, s => do
    let (first, rest) ← value s
    match skipBlanks rest with
    | [] => .error .cutOff
    | next :: rest =>
      if next = .char ']' then return ([first], rest)
      else if next = .char ',' then do
        let (others, rest) ← elements value fuel (skipBlanks rest)
        return (first :: others, rest)
      else .error (.unexpected next .afterElement)

/-- Reads the name of a member and the colon behind it. -/
def key : Reader (List Char)
  | [] => .error .cutOff
  | s :: rest =>
    if s = .char '"' then do
      let (name, rest) ← string rest
      match skipBlanks rest with
      | [] => .error .cutOff
      | next :: rest =>
        if next = .char ':' then return (name, skipBlanks rest)
        else .error (.unexpected next .afterKey)
    else .error (.unexpected s .beginningOfKey)

/-- Reads the members of an object behind its opening brace and the white space there, with
the closing brace. -/
def members (value : Reader Value) : (fuel : Nat) → Reader (List (List Char × Value))
  | 0, _ => .error .cutOff
  | fuel + 1, s => do
    let (name, rest) ← key s
    let (first, rest) ← value rest
    match skipBlanks rest with
    | [] => .error .cutOff
    | next :: rest =>
      if next = .char '\x7d' then return ([(name, first)], rest)
      else if next = .char ',' then do
        let (others, rest) ← members value fuel (skipBlanks rest)
        return ((name, first) :: others, rest)
      else .error (.unexpected next .afterMember)

/-- Reads a value that is no array and no object. -/
def scalar (s : Symbol) (rest : List Symbol) : Except Failure (Value × List Symbol) :=
  match s with
  | .char '"' => do
    let (chars, rest) ← string rest
    return (.string chars, rest)
  | .char 't' => literal "true" (.boolean true) ['r', 'u', 'e'] rest
  | .char 'f' => literal "false" (.boolean false) ['a', 'l', 's', 'e'] rest
  | .char 'n' => literal "null" .null ['u', 'l', 'l'] rest
  | s => number (s :: rest)

/-- Reads a value in which arrays and objects are nested at most `depth` deep. -/
def value : (depth : Nat) → Reader Value
  | _, [] => .error .cutOff
  | 0, s :: rest =>
    if s = .char '[' ∨ s = .char '\x7b' then .error (.unexpected s .tooDeep)
    else scalar s rest
  | depth + 1, s :: rest =>
    if s = .char '[' then
      match skipBlanks rest with
      | .char ']' :: rest => .ok (.array [], rest)
      | inner => do
        let (found, rest) ← elements (value depth) (inner.length + 1) inner
        return (.array found, rest)
    else if s = .char '\x7b' then
      match skipBlanks rest with
      | .char '\x7d' :: rest => .ok (.object [], rest)
      | inner => do
        let (found, rest) ← members (value depth) (inner.length + 1) inner
        return (.object found, rest)
    else scalar s rest

/-- Reads the value at the front of a text. -/
def readFirst (content : Bytes) : Except Failure Value :=
  match skipBlanks (Utf8.symbols content) with
  | [] => .error .noValue
  | s => (value depthLimit s).map Prod.fst

/-- The wording of a context. -/
def Context.message : Context → Bytes
  | .beginningOfValue => text "looking for beginning of value"
  | .beginningOfKey => text "looking for beginning of object key string"
  | .afterKey => text "after object key"
  | .afterMember => text "after object key:value pair"
  | .afterElement => text "after array element"
  | .inString => text "in string literal"
  | .inEscape => text "in string escape code"
  | .inHexEscape => text "in \\u hexadecimal character escape"
  | .inNumber => text "in numeric literal"
  | .afterPoint => text "after decimal point in numeric literal"
  | .inExponent => text "in exponent of numeric literal"
  | .inLiteral literal expected =>
    text "in literal " ++ text literal ++ text " (expecting '" ++ [ascii expected] ++ text "')"
  | .tooDeep => text "exceeded max depth"

/-- A symbol as messages show it: its first byte, taken for a character. -/
def showSymbol (s : Symbol) : Bytes :=
  match s.bytes with
  | [] => []
  | b :: _ => quoteChar (Char.ofNat b.toNat)

/-- The wording of a failure. -/
def Failure.message : Failure → Bytes
  | .noValue => text "EOF"
  | .cutOff => text "unexpected EOF"
  | .unexpected s context =>
    text "invalid character " ++ showSymbol s ++ text " " ++ context.message

end Json
end CrossCompiler
