import CrossCompiler.Bytes

/-!
# Texts as symbols

A byte string is read as a list of symbols: the characters it encodes in UTF-8, and the
stray bytes that begin no character.  Overlong forms, surrogates and values above
`U+10FFFF` encode nothing, so their bytes are stray one by one.  Writing the symbols back
gives the byte string again, whatever it was.
-/

namespace CrossCompiler

/-- A character, or a byte at which no character begins. -/
inductive Symbol where
  | char (c : Char)
  | stray (b : UInt8)
  deriving DecidableEq

/-- The character that stands for bytes that could not be read. -/
def replacement : Char := '\ufffd'

namespace Utf8

/-- The bytes `0x80` to `0xBF`, which continue a character. -/
def isContinuation (b : UInt8) : Bool := 0x80 ≤ b.toNat && b.toNat < 0xC0

/-- The character of a scalar value, if the value is not below the least one that needs so
many bytes. -/
def scalar? (least value : Nat) : Option Char :=
  if least ≤ value ∧ value.isValidChar then some (Char.ofNat value) else none

/-- The character at the front of a byte string and the bytes behind it. -/
def decode? : Bytes → Option (Char × Bytes)
  | [] => none
  | a :: rest =>
    if a.toNat < 0x80 then some (Char.ofNat a.toNat, rest)
    else if a.toNat < 0xC0 then none
    else if a.toNat < 0xE0 then
      match rest with
      | b :: rest =>
        if isContinuation b then
          (scalar? 0x80 (a.toNat % 32 * 64 + b.toNat % 64)).map (·, rest)
        else none
      | _ => none
    else if a.toNat < 0xF0 then
      match rest with
      | b :: c :: rest =>
        if isContinuation b && isContinuation c then
          (scalar? 0x800 (a.toNat % 16 * 4096 + b.toNat % 64 * 64 + c.toNat % 64)).map (·, rest)
        else none
      | _ => none
    else if a.toNat < 0xF8 then
      match rest with
      | b :: c :: d :: rest =>
        if isContinuation b && isContinuation c && isContinuation d then
          (scalar? 0x10000
            (a.toNat % 8 * 262144 + b.toNat % 64 * 4096 + c.toNat % 64 * 64 + d.toNat % 64)).map
              (·, rest)
        else none
      | _ => none
    else none

/-- The symbols of a byte string, after the first `pending` bytes, which belong to the
character just read. -/
def symbolsFrom : (pending : Nat) → Bytes → List Symbol
  | _, [] => []
  | pending + 1, _ :: rest => symbolsFrom pending rest
  | 0, b :: rest =>
    match decode? (b :: rest) with
    | some (c, _) => .char c :: symbolsFrom (c.utf8Size - 1) rest
    | none => .stray b :: symbolsFrom 0 rest

/-- The symbols of a byte string. -/
def symbols (s : Bytes) : List Symbol := symbolsFrom 0 s

/-- Whether a byte string is valid UTF-8. -/
def isValid (s : Bytes) : Bool :=
  (symbols s).all fun
    | .char _ => true
    | .stray _ => false

/-- The UTF-8 bytes of a list of characters. -/
def encode (cs : List Char) : Bytes := cs.flatMap String.utf8EncodeChar

end Utf8

namespace Symbol

/-- The bytes a symbol was read from. -/
def bytes : Symbol → Bytes
  | .char c => String.utf8EncodeChar c
  | .stray b => [b]

def isStray : Symbol → Bool
  | .char _ => false
  | .stray _ => true

/-- The character of a symbol, with the replacement character for a stray byte. -/
def toChar : Symbol → Char
  | .char c => c
  | .stray _ => replacement

/-- Replaces each run of stray bytes by one replacement character; `mended` tells that the
run has already been replaced. -/
def mendRuns : (mended : Bool) → List Symbol → List Char
  | _, [] => []
  | _, .char c :: rest => c :: mendRuns false rest
  | true, .stray _ :: rest => mendRuns true rest
  | false, .stray _ :: rest => replacement :: mendRuns true rest

end Symbol

namespace Utf8

/-- The byte string with each maximal run of stray bytes replaced by one replacement
character. -/
def repair (s : Bytes) : Bytes := encode (Symbol.mendRuns false (symbols s))

/-- The characters of a byte string, with one replacement character for each stray byte. -/
def toChars (s : Bytes) : List Char := (symbols s).map Symbol.toChar

end Utf8
end CrossCompiler
