import CrossCompiler.Json.Quoted
import CrossCompiler.Log.Basic

/-!
# Logs on a console

An entry is shown as one line: the coloured level, the message as it is, and the fields
between braces.  Field names and texts are escaped so that they stay on the line; each
stray byte in them is shown as an escape, so a line is always valid UTF-8 if the message is.
-/

namespace CrossCompiler
namespace Log

/-- The colour and the label of a level. -/
def Level.label : Level → Bytes × Bytes
  | .debug => (CrossCompiler.text "35", CrossCompiler.text "DEBUG")
  | .info => (CrossCompiler.text "34", CrossCompiler.text "INFO")
  | .warn => (CrossCompiler.text "33", CrossCompiler.text "WARN")
  | .error => (CrossCompiler.text "31", CrossCompiler.text "ERROR")
  | .dpanic => (CrossCompiler.text "31", CrossCompiler.text "DPANIC")
  | .panic => (CrossCompiler.text "31", CrossCompiler.text "PANIC")
  | .fatal => (CrossCompiler.text "31", CrossCompiler.text "FATAL")

namespace Console

/-- A symbol inside a quoted text. -/
def escape : Symbol → Bytes
  | .stray _ => text "\\ufffd"
  | .char c =>
    match c.toNat with
    | 34 => text "\\\""
    | 92 => text "\\\\"
    | 10 => text "\\n"
    | 13 => text "\\r"
    | 9 => text "\\t"
    | n => if n < 0x20 then text "\\u" ++ Bytes.hex 4 n else String.utf8EncodeChar c

/-- A text between quotes. -/
def quoted (s : Bytes) : Bytes :=
  text "\"" ++ (Utf8.symbols s).flatMap escape ++ text "\""

/-- A value inside a record. -/
def renderScalar : Scalar → Bytes
  | .text s => Json.writeString .plain s
  | .number n => Bytes.decimal n
  | .flag true => text "true"
  | .flag false => text "false"

/-- A record as JSON without any white space. -/
def renderRecord (members : List (String × Scalar)) : Bytes :=
  text "\x7b" ++
    Bytes.join (text ",")
      (members.map fun (name, value) => quoted (text name) ++ text ":" ++ renderScalar value) ++
    text "\x7d"

def renderValue : Value → Bytes
  | .text s => quoted s
  | .number n => Bytes.decimal n
  | .record members => renderRecord members
  | .elapsed => quoted (text "_")

/-- The fields between braces, in the order in which they were given. -/
def renderFields (fields : List (Bytes × Value)) : Bytes :=
  text "\x7b" ++
    Bytes.join (text ", ")
      (fields.map fun (name, value) => quoted name ++ text ": " ++ renderValue value) ++
    text "\x7d"

/-- One line. -/
def renderEntry (e : Entry) : Bytes :=
  let (colour, label) := e.level.label
  text "\x1b[" ++ colour ++ text "m" ++ label ++ text "\x1b[0m\t" ++ e.message ++
    (if e.fields = [] then [] else text "\t" ++ renderFields e.fields) ++ text "\n"

/-- The lines of the entries that are shown. -/
def render (threshold : Level) (entries : List Entry) : Bytes :=
  (entries.filter fun e => threshold.isShown e.level).flatMap renderEntry

end Console
end Log
end CrossCompiler
