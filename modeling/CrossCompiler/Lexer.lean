import CrossCompiler.Text.Printable
import CrossCompiler.Token

/-!
# Lexical analysis

A source is cut into lexemes separated by white space.  The first symbol of a lexeme
decides its class, and the lexeme is the longest run of symbols of that class: stray bytes
together, words and numbers together, a bracket or semicolon alone, and anything else up
to the next symbol that is white space or could begin a token.  A lexeme is a token or an
error, and reading goes on behind it either way, so one pass reports every error.
-/

namespace CrossCompiler
namespace Lexer

/-- A letter of ASCII or the underscore. -/
def isWordStart (c : Char) : Bool :=
  c = '_' || ('a' ≤ c && c ≤ 'z') || ('A' ≤ c && c ≤ 'Z')

/-- A decimal digit of ASCII. -/
def isDigit (c : Char) : Bool := '0' ≤ c && c ≤ '9'

/-- A character of a word behind its first. -/
def isWordPart (c : Char) : Bool := isWordStart c || isDigit c

/-- The kind of a bracket or semicolon. -/
def punctuation? : Char → Option Kind
  | '(' => some .lparen
  | ')' => some .rparen
  | '\x7b' => some .lbrace
  | '\x7d' => some .rbrace
  | ';' => some .semicolon
  | _ => none

/-- Whether a token can begin with the character. -/
def startsToken (c : Char) : Bool := (punctuation? c).isSome || isWordPart c

/-- Whether a character continues a stretch of unrecognised input. -/
def isForeign (c : Char) : Bool := c ≠ replacement && !isSpace c && !startsToken c

/-- White space between lexemes. -/
def isBlank : Symbol → Bool
  | .char c => isSpace c
  | .stray _ => false

/-- Whether a symbol continues a lexeme that begins with `first`. -/
def continues (first : Symbol) (next : Symbol) : Bool :=
  match first, next with
  | .stray _, _ => next.isStray
  | .char _, .stray _ => false
  | .char f, .char c =>
    if (punctuation? f).isSome then false
    else if isWordPart f then isWordPart c
    else isForeign c

/-- What is wrong with a lexeme. -/
inductive Problem where
  | invalidUtf8
  | unrecognized
  | invalidConstant
  | outOfRange
  /-- A problem that another pass describes in its own words. -/
  | described (message : Bytes)
  deriving DecidableEq

/-- The wording of a problem. -/
def Problem.message : Problem → Bytes
  | .invalidUtf8 => text "invalid UTF-8"
  | .unrecognized => text "unrecognized input"
  | .invalidConstant => text "invalid constant"
  | .outOfRange => text "constant out of range"
  | .described message => message

/-- A lexeme that is no token. -/
structure Error where
  pos : Pos
  text : Bytes
  problem : Problem
  deriving DecidableEq

/-- `line:column: problem "text"`. -/
def Error.render (e : Error) : Bytes :=
  e.pos.render ++ CrossCompiler.text ": " ++ e.problem.message ++ CrossCompiler.text " " ++
    quote e.text

/-- The first error, with the number of the others. -/
def summary : List Error → Bytes
  | [] => text "no lexical errors"
  | [e] => e.render
  | e :: rest =>
    e.render ++ text " (and " ++ Bytes.digits rest.length ++ text " more lexical errors)"

/-- What a lexeme gives. -/
inductive Item where
  | token (t : Token)
  | error (e : Error)
  deriving DecidableEq

/-- The reserved words. -/
def keywords : List Bytes := [text "int", text "void", text "return"]

/-- The number a list of decimal digits stands for. -/
def decimalValue (digits : List Char) : Nat :=
  digits.foldl (fun value c => 10 * value + (c.toNat - 48)) 0

/-- The kind of a word: reserved words are keywords. -/
def wordKind (spelling : Bytes) : Kind :=
  if keywords.contains spelling then .keyword else .identifier

/-- The item of a lexeme that begins at `pos` with the symbol `first`. -/
def classify (pos : Pos) (first : Symbol) (rest : List Symbol) : Item :=
  let spelling := (first :: rest).flatMap Symbol.bytes
  match first with
  | .stray _ => .error ⟨pos, spelling, .invalidUtf8⟩
  | .char c =>
    match punctuation? c with
    | some kind => .token ⟨kind, [], 0, pos⟩
    | none =>
      if isWordStart c then .token ⟨wordKind spelling, spelling, 0, pos⟩
      else if isDigit c then
        let digits := (first :: rest).map Symbol.toChar
        if digits.all isDigit then
          if decimalValue digits < UInt32.size then
            .token ⟨.constant, [], UInt32.ofNat (decimalValue digits), pos⟩
          else .error ⟨pos, spelling, .outOfRange⟩
        else .error ⟨pos, spelling, .invalidConstant⟩
      else .error ⟨pos, spelling, .unrecognized⟩

/-- How far a source has been read: the place, and the symbols from there on. -/
structure Cursor where
  pos : Pos
  rest : List Symbol

namespace Cursor

/-- The front of a source. -/
def ofBytes (source : Bytes) : Cursor := ⟨.start, Utf8.symbols source⟩

/-- Passes over white space. -/
def skipBlanks (c : Cursor) : Cursor :=
  ⟨c.pos.advanceAll (c.rest.takeWhile isBlank), c.rest.dropWhile isBlank⟩

end Cursor

/-- The next item and the cursor behind its lexeme; nothing at the end of the source. -/
def next? (c : Cursor) : Option (Item × Cursor) :=
  match c.skipBlanks with
  | ⟨_, []⟩ => none
  | ⟨pos, first :: rest⟩ =>
    let tail := rest.takeWhile (continues first)
    some
      (classify pos first tail,
        ⟨pos.advanceAll (first :: tail), rest.dropWhile (continues first)⟩)

/-- Every item takes at least one symbol off the source. -/
theorem next?_shortens {c d : Cursor} {item : Item} (h : next? c = some (item, d)) :
    d.rest.length < c.rest.length := by
  unfold next? Cursor.skipBlanks at h
  have hle := (List.dropWhile_sublist (l := c.rest) isBlank).length_le
  split at h
  · simp at h
  · next pos first rest heq =>
    simp only [Cursor.mk.injEq] at heq
    simp only [Option.some.injEq, Prod.mk.injEq] at h
    rw [← h.2]
    have hrest := (List.dropWhile_sublist (l := rest) (continues first)).length_le
    rw [heq.2, List.length_cons] at hle
    exact Nat.lt_of_le_of_lt hrest hle

/-- The items from a cursor to the end of the source. -/
def items (c : Cursor) : List Item :=
  match _h : next? c with
  | none => []
  | some (item, d) => item :: items d
termination_by c.rest.length
decreasing_by exact next?_shortens _h

/-- The tokens among some items. -/
def tokensOf (found : List Item) : List Token :=
  found.filterMap fun
    | .token t => some t
    | .error _ => none

/-- The errors among some items. -/
def errorsOf (found : List Item) : List Error :=
  found.filterMap fun
    | .token _ => none
    | .error e => some e

/-- The tokens of a source, or all its lexical errors if there is one. -/
def tokenize (source : Bytes) : Except (List Error) (List Token) :=
  let found := items (.ofBytes source)
  match errorsOf found with
  | [] => .ok (tokensOf found)
  | errors => .error errors

/-- The answers to `count` requests for the next item, each behind the one before; the end
of the source is answered again and again. -/
def requests : (count : Nat) → Cursor → List (Option Item)
  | 0, _ => []
  | count + 1, c =>
    match next? c with
    | none => none :: requests count c
    | some (item, d) => some item :: requests count d

end Lexer
end CrossCompiler
