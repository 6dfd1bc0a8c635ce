import CrossCompiler.CommandLine.Flag

/-!
# Help texts

A command's help says what it does, how it is called and what its flags are.  Flags are
listed one to a line, their descriptions in one column.
-/

namespace CrossCompiler
namespace CommandLine

/-- Another command that can be named in the arguments. -/
structure Subcommand where
  name : String
  summary : String

/-- What is told about a command. -/
structure Manual where
  summary : String
  usages : List String
  subcommands : List Subcommand
  footer : Option String

/-- A text filled up with blanks. -/
def padTo (width : Nat) (s : Bytes) : Bytes :=
  s ++ List.replicate (width - s.length) (ascii ' ')

variable {ι : Type}

/-- A flag with what it takes. -/
def flagHead (f : Flag ι) : Bytes :=
  let names :=
    match f.short with
    | some c => text "  -" ++ [ascii c] ++ text ", --" ++ text f.name
    | none => text "      --" ++ text f.name
  match f.argument with
  | .switch => names
  | .text _ => names ++ text " string"
  | .platform => names ++ text " " ++ text Platform.argumentName

/-- What a flag does, with its value when it is not set. -/
def flagTail (f : Flag ι) : Bytes :=
  match f.argument with
  | .switch => text f.help
  | .text standard =>
    if standard = [] then text f.help
    else text f.help ++ text " (default " ++ quote standard ++ text ")"
  | .platform => text f.help ++ text " (default " ++ Platform.default.name ++ text ")"

/-- The lines about flags. -/
def flagLines (flags : List (Flag ι)) : Bytes :=
  let width := (flags.map fun f => (flagHead f).length).foldl max 0
  flags.flatMap fun f => padTo (width + 3) (flagHead f) ++ flagTail f ++ text "\n"

/-- The least width of the column of subcommands. -/
def subcommandWidth : Nat := 11

/-- The lines about subcommands. -/
def subcommandLines (subcommands : List Subcommand) : Bytes :=
  subcommands.flatMap fun c =>
    text "  " ++ padTo subcommandWidth (text c.name) ++ text " " ++ text c.summary ++ text "\n"

/-- The help of a command. -/
def help (m : Manual) (flags : List (Flag ι)) : Bytes :=
  text m.summary ++ text "\n\nUsage:\n" ++
    m.usages.flatMap (fun usage => text "  " ++ text usage ++ text "\n") ++
    (if m.subcommands.isEmpty then []
      else text "\nAvailable Commands:\n" ++ subcommandLines m.subcommands) ++
    text "\nFlags:\n" ++ flagLines flags ++
    match m.footer with
    | some footer => text "\n" ++ text footer ++ text "\n"
    | none => []

end CommandLine
end CrossCompiler
