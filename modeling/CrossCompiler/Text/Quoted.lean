import CrossCompiler.Text.Printable
import CrossCompiler.Text.Symbol

/-!
# Text in messages

Messages show names and source text between quotes.  Printable characters stand for
themselves; the delimiter and the backslash are escaped; every other character, and every
stray byte, is written as a backslash, a letter and hexadecimal digits.  A stray byte is
written `\x..` and a character above `0x7F` never is, so two different byte strings are
never shown alike.

Other values from outside are set into a message as they are, but must not be taken for a part of
the message itself.  Messages reserve the marks `‹` and `›` for the limits of such values, so
inside a value they are shown as question marks; and a value that breaks off inside a
character is ended by one, so that it does not run into what follows.
-/

namespace CrossCompiler
namespace Quoted

/-- The letter of a control character that has an escape of its own. -/
def controlLetter? (c : Char) : Option Char :=
  match c.toNat with
  | 7 => some 'a'
  | 8 => some 'b'
  | 9 => some 't'
  | 10 => some 'n'
  | 11 => some 'v'
  | 12 => some 'f'
  | 13 => some 'r'
  | _ => none

/-- A character as it is shown between two delimiters. -/
def escapeChar (delimiter c : Char) : Bytes :=
  if c = delimiter ∨ c = '\\' then ascii '\\' :: String.utf8EncodeChar c
  else if isPrintable c then String.utf8EncodeChar c
  else
    match controlLetter? c with
    | some letter => [ascii '\\', ascii letter]
    | none =>
      if c.toNat < 0x20 ∨ c.toNat = 0x7F then text "\\x" ++ Bytes.hex 2 c.toNat
      else if c.toNat < 0x10000 then text "\\u" ++ Bytes.hex 4 c.toNat
      else text "\\U" ++ Bytes.hex 8 c.toNat

/-- A symbol as it is shown between two delimiters. -/
def escape (delimiter : Char) : Symbol → Bytes
  | .char c => escapeChar delimiter c
  | .stray b => text "\\x" ++ Bytes.hex 2 b.toNat

end Quoted

/-- A byte string between double quotes. -/
def quote (s : Bytes) : Bytes :=
  text "\"" ++ (Utf8.symbols s).flatMap (Quoted.escape '"') ++ text "\""

/-- A character between single quotes. -/
def quoteChar (c : Char) : Bytes :=
  text "'" ++ Quoted.escapeChar '\'' c ++ text "'"

/-!
## Values set into a message
-/

/-- What stands for a symbol that cannot be shown in a message. -/
def blot : Bytes := text "?"

/-- A symbol of a value inside a message. -/
def insetSymbol (s : Symbol) : Bytes :=
  if s = .char '‹' ∨ s = .char '›' then blot else s.bytes

/-- A value inside a message. -/
def inset (value : Bytes) : Bytes :=
  let symbols := Utf8.symbols value
  symbols.flatMap insetSymbol ++ if symbols.getLast?.any Symbol.isStray then blot else []

/-- A message in parts, from the general to the particular. -/
def chain (parts : List Bytes) : Bytes := Bytes.join (text ": ") parts

/-- A message in parts as it stands inside another one: parts that say nothing are left
out. -/
def brief (parts : List Bytes) : Bytes := chain (parts.filter (· ≠ []))

end CrossCompiler
