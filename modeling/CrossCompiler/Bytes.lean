/-!
# Byte strings

Sources, paths, arguments, tool output and messages are byte strings: none of them has
to be valid UTF-8.  A byte string is a list of bytes, so that appending, cutting and
comparing are the operations of lists.
-/

namespace CrossCompiler

/-- A byte string. -/
abbrev Bytes := List UInt8

/-- Comparing byte strings tells whether they are equal.  All searches for one share this
instance. -/
instance Bytes.instLawfulBEq : LawfulBEq Bytes := inferInstance

/-- The UTF-8 bytes of a text. -/
def text (s : String) : Bytes := s.toList.flatMap String.utf8EncodeChar

/-- The byte of an ASCII character. -/
def ascii (c : Char) : UInt8 := UInt8.ofNat c.toNat

namespace Bytes

/-- Puts the separator between neighbouring parts. -/
def join (separator : Bytes) : List Bytes → Bytes
  | [] => []
  | [part] => part
  | part :: parts => part ++ separator ++ join separator parts

/-- The decimal digits of a number, without leading zeros. -/
def digits (n : Nat) : Bytes :=
  if n < 10 then [UInt8.ofNat (48 + n)]
  else digits (n / 10) ++ [UInt8.ofNat (48 + n % 10)]

/-- The decimal text of an integer, with a minus sign in front of a negative one. -/
def decimal : Int → Bytes
  | .ofNat n => digits n
  | .negSucc n => ascii '-' :: digits (n + 1)

/-- One lower-case hexadecimal digit. -/
def hexDigit (n : Nat) : UInt8 :=
  if n < 10 then UInt8.ofNat (48 + n) else UInt8.ofNat (87 + n)

/-- The last `width` hexadecimal digits of a number. -/
def hex : (width : Nat) → Nat → Bytes
  | 0, _ => []
  | width + 1, n => hex width (n / 16) ++ [hexDigit (n % 16)]

/-- The part before the first separator and the part after it. -/
def cut? (separator : UInt8) : Bytes → Option (Bytes × Bytes)
  | [] => none
  | b :: rest =>
    if b = separator then some ([], rest)
    else (cut? separator rest).map fun (before, after) => (b :: before, after)

/-- The parts between separators; there is one more part than there are separators. -/
def split (separator : UInt8) : Bytes → List Bytes
  | [] => [[]]
  | b :: rest =>
    if b = separator then [] :: split separator rest
    else
      match split separator rest with
      | [] => [[b]]
      | part :: parts => (b :: part) :: parts

end Bytes
end CrossCompiler
