import CrossCompiler.Text.Quoted

/-!
# Tokens

A token has a kind, the place where it begins, and, for words and constants, what was
written there.  Two tokens are the same when they differ at most in their place.
-/

namespace CrossCompiler

/-- A place in a source: the bytes before it, its line and its column, both counted from
one.  A column is one symbol wide. -/
structure Pos where
  offset : Int
  line : Int
  column : Int
  deriving DecidableEq

namespace Pos

/-- The place where a source begins. -/
def start : Pos := ⟨0, 1, 1⟩

/-- The place behind one symbol.  Only a line feed begins a new line. -/
def advance (pos : Pos) (symbol : Symbol) : Pos :=
  if symbol = .char '\n' then ⟨pos.offset + symbol.bytes.length, pos.line + 1, 1⟩
  else ⟨pos.offset + symbol.bytes.length, pos.line, pos.column + 1⟩

/-- The place behind a list of symbols. -/
def advanceAll (pos : Pos) (symbols : List Symbol) : Pos := symbols.foldl advance pos

/-- `line:column`. -/
def render (pos : Pos) : Bytes :=
  Bytes.decimal pos.line ++ text ":" ++ Bytes.decimal pos.column

end Pos

/-- The kinds of tokens.  Kinds are numbered; a number without a kind of its own is kept, so
that it can be shown. -/
inductive Kind where
  | lparen
  | rparen
  | lbrace
  | rbrace
  | semicolon
  | keyword
  | identifier
  | constant
  | unnamed (code : Int)
  deriving DecidableEq

namespace Kind

/-- The name of a kind. -/
def name : Kind → Bytes
  | .lparen => text "LPAREN"
  | .rparen => text "RPAREN"
  | .lbrace => text "LBRACE"
  | .rbrace => text "RBRACE"
  | .semicolon => text "SEMICOLON"
  | .keyword => text "KEYWORD"
  | .identifier => text "IDENTIFIER"
  | .constant => text "CONSTANT"
  | .unnamed code => text "Kind(" ++ Bytes.decimal code ++ text ")"

end Kind

/-- A token.  `text` is the spelling of a keyword or identifier and `value` the value of a
constant; other tokens leave both empty. -/
structure Token where
  kind : Kind
  text : Bytes := []
  value : UInt32 := 0
  pos : Pos := ⟨0, 0, 0⟩
  deriving DecidableEq

namespace Token

/-- A keyword without a place. -/
def keyword (spelling : Bytes) : Token := ⟨.keyword, spelling, 0, ⟨0, 0, 0⟩⟩

/-- An identifier without a place. -/
def identifier (spelling : Bytes) : Token := ⟨.identifier, spelling, 0, ⟨0, 0, 0⟩⟩

/-- A constant without a place. -/
def constant (value : UInt32) : Token := ⟨.constant, [], value, ⟨0, 0, 0⟩⟩

/-- A token of a kind alone, without a place. -/
def punctuation (kind : Kind) : Token := ⟨kind, [], 0, ⟨0, 0, 0⟩⟩

/-- Whether two tokens are the same up to their places. -/
def same (a b : Token) : Bool :=
  a.kind = b.kind && a.text = b.text && a.value = b.value

/-- A token as it is shown in messages: words with their spelling, constants with their
value, all others by the name of their kind. -/
def render (t : Token) : Bytes :=
  match t.kind with
  | .keyword | .identifier =>
    t.kind.name ++ CrossCompiler.text "(" ++ quote t.text ++ CrossCompiler.text ")"
  | .constant =>
    t.kind.name ++ CrossCompiler.text "(" ++ Bytes.digits t.value.toNat ++
      CrossCompiler.text ")"
  | _ => t.kind.name

end Token
end CrossCompiler
