import CrossCompiler.Text.Symbol

/-!
# Letter case

Names are compared with ASCII names without regard to case.  Two rules are in use.
*Folding* identifies a letter with every character of the same simple case folding: the
long s `U+017F` folds with `s` and the Kelvin sign `U+212A` with `k`.  *Lowering* replaces
a letter by its lower case: the dotted capital `U+0130` becomes `i` and the Kelvin sign
`k`, but the long s stays as it is.
-/

namespace CrossCompiler
namespace Case

/-- The lower case of a character, for the characters whose lower case is in ASCII; every
other character is left alone, so it stays different from all of ASCII. -/
def lower (c : Char) : Char :=
  if 'A' ≤ c ∧ c ≤ 'Z' then Char.ofNat (c.toNat + 32)
  else if c = '\u0130' then 'i'
  else if c = '\u212a' then 'k'
  else c

/-- The folding of a character, for the characters that fold with an ASCII one. -/
def fold (c : Char) : Char :=
  if 'A' ≤ c ∧ c ≤ 'Z' then Char.ofNat (c.toNat + 32)
  else if c = '\u017f' then 's'
  else if c = '\u212a' then 'k'
  else c

/-- The characters of a byte string in lower case. -/
def lowered (s : Bytes) : List Char := (Utf8.toChars s).map lower

/-- The folding of a symbol; a stray byte is like no other symbol. -/
def foldSymbol : Symbol → Symbol
  | .char c => .char (fold c)
  | .stray b => .stray b

/-- Whether a byte string is the given ASCII name up to case folding. -/
def isName (name s : Bytes) : Bool :=
  (Utf8.symbols s).map foldSymbol = (Utf8.symbols name).map foldSymbol

/-- Whether a byte string ends, in lower case, with the given suffix. -/
def hasSuffix (suffix : String) (s : Bytes) : Bool :=
  suffix.toList.isSuffixOf (lowered s)

end Case
end CrossCompiler
