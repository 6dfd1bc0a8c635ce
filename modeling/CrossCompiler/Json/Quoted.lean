import CrossCompiler.Text.Symbol

/-!
# Writing JSON strings

A string is written between double quotes.  Quotes, backslashes and control characters are
escaped, as are the two line separators `U+2028` and `U+2029`.  A text that is meant to be
embedded in markup also escapes the three characters that have a meaning there.  A stray
byte is written as one replacement character, which is not escaped, so it does not come back.
-/

namespace CrossCompiler
namespace Json

/-- How the characters of markup are written. -/
inductive Markup where
  | escaped
  | plain
  deriving DecidableEq

/-- A backslash, the letter `u` and four hexadecimal digits. -/
def hexEscape (c : Char) : Bytes := text "\\u" ++ Bytes.hex 4 c.toNat

/-- The character that stands for another behind a backslash. -/
def shortEscape? (c : Char) : Option Char :=
  match c.toNat with
  | 34 => some '"'
  | 92 => some '\\'
  | 8 => some 'b'
  | 9 => some 't'
  | 10 => some 'n'
  | 12 => some 'f'
  | 13 => some 'r'
  | _ => none

/-- A character inside a string. -/
def writeChar (markup : Markup) (c : Char) : Bytes :=
  match shortEscape? c with
  | some letter => [ascii '\\', ascii letter]
  | none =>
    if c.toNat < 0x20 then hexEscape c
    else if markup = .escaped ∧ (c = '<' ∨ c = '>' ∨ c = '&') then hexEscape c
    else if c = '\u2028' ∨ c = '\u2029' then hexEscape c
    else String.utf8EncodeChar c

/-- A byte string as a JSON string. -/
def writeString (markup : Markup) (s : Bytes) : Bytes :=
  text "\"" ++ (Utf8.toChars s).flatMap (writeChar markup) ++ text "\""

end Json
end CrossCompiler
