import CrossCompiler.Platform
import CrossCompiler.Text.Quoted

/-!
# Flags

A command knows some flags; its arguments set them, in order, or are positional.  Long
flags are written `--name`, short ones `-n`, and short ones can be written together.  A
switch has a value only after an equals sign; any other flag takes what follows it, even
if that looks like a flag.  Reading stops at the first mistake, and what has been set
before it stays set.
-/

namespace CrossCompiler
namespace CommandLine

/-- What a flag is set to. -/
inductive Argument where
  | switch
  | text (standard : Bytes)
  | platform
  deriving DecidableEq

/-- A flag of a command; `ι` tells the flags of the command apart. -/
structure Flag (ι : Type) where
  id : ι
  name : String
  short : Option Char
  argument : Argument
  help : String

/-- The value a flag has been set to. -/
inductive Setting where
  | switch (on : Bool)
  | text (s : Bytes)
  | platform (p : Platform)
  deriving DecidableEq

/-- Why a value does not suit a flag. -/
inductive ValueFault where
  | notBoolean (value : Bytes)
  | notPlatform (value : Bytes)
  deriving DecidableEq

def ValueFault.message : ValueFault → Bytes
  | .notBoolean value =>
    text "strconv.ParseBool: parsing " ++ quote value ++ text ": invalid syntax"
  | .notPlatform value => Platform.unknownMessage value

/-- A mistake in the arguments. -/
inductive Mistake where
  | badSyntax (argument : Bytes)
  | unknownLong (name : Bytes)
  | unknownShort (letter : UInt8) (cluster : Bytes)
  | missingLong (argument : Bytes)
  | missingShort (letter : UInt8) (cluster : Bytes)
  | badValue (value : Bytes) (flag : Bytes) (cause : ValueFault)
  deriving DecidableEq

/-- A byte as a character between single quotes. -/
def quoteByte (b : UInt8) : Bytes := quoteChar (Char.ofNat b.toNat)

/-- The wording of a mistake. -/
def Mistake.message : Mistake → Bytes
  | .badSyntax argument => text "bad flag syntax: " ++ argument
  | .unknownLong name => text "unknown flag: --" ++ name
  | .unknownShort letter cluster =>
    text "unknown shorthand flag: " ++ quoteByte letter ++ text " in -" ++ cluster
  | .missingLong argument => text "flag needs an argument: " ++ argument
  | .missingShort letter cluster =>
    text "flag needs an argument: " ++ quoteByte letter ++ text " in -" ++ cluster
  | .badValue value flag cause =>
    text "invalid argument " ++ quote value ++ text " for " ++ quote flag ++ text " flag: " ++
      cause.message

/-- The spellings of the two truth values. -/
def boolean? (s : Bytes) : Option Bool :=
  if (["1", "t", "T", "TRUE", "true", "True"].map text).contains s then some true
  else if (["0", "f", "F", "FALSE", "false", "False"].map text).contains s then some false
  else none

namespace Flag

variable {ι : Type}

/-- A flag as messages name it. -/
def title (f : Flag ι) : Bytes :=
  match f.short with
  | some c => text "-" ++ [ascii c] ++ text ", --" ++ CrossCompiler.text f.name
  | none => text "--" ++ CrossCompiler.text f.name

def isSwitch (f : Flag ι) : Bool := f.argument = .switch

/-- What a value sets a flag to. -/
def accept (f : Flag ι) (value : Bytes) : Except ValueFault Setting :=
  match f.argument with
  | .switch =>
    match boolean? value with
    | some b => .ok (.switch b)
    | none => .error (.notBoolean value)
  | .text _ => .ok (.text value)
  | .platform =>
    match Platform.parse? value with
    | some p => .ok (.platform p)
    | none => .error (.notPlatform value)

/-- What a flag is left at by a value that does not suit it: a switch is turned off, and
any other flag stays as it is. -/
def spoilt (f : Flag ι) : List (ι × Setting) :=
  if f.isSwitch then [(f.id, .switch false)] else []

/-- Sets a flag, and says what is wrong with the value if it does not suit the flag. -/
def set (f : Flag ι) (value : Bytes) : List (ι × Setting) × Option Mistake :=
  match f.accept value with
  | .ok setting => ([(f.id, setting)], none)
  | .error cause => (f.spoilt, some (.badValue value f.title cause))

end Flag

variable {ι : Type}

/-- The flag of a long name. -/
def findLong (flags : List (Flag ι)) (name : Bytes) : Option (Flag ι) :=
  flags.find? fun f => text f.name = name

/-- The flag of a letter. -/
def findShort (flags : List (Flag ι)) (letter : UInt8) : Option (Flag ι) :=
  flags.find? fun f => f.short.map ascii = some letter

/-- How an argument ends: nothing is missing, it is mistaken, or its last flag takes the
next argument. -/
inductive Ending (ι : Type) where
  | complete
  | mistaken (m : Mistake)
  | takesNext (flag : Flag ι) (ifMissing : Mistake)

/-- The flags an argument sets, with their values, and how it ends. -/
structure Reading (ι : Type) where
  given : List (Flag ι × Bytes)
  ending : Ending ι

/-- The value of a switch that is given without one. -/
def switchedOn : Bytes := text "true"

/-- What the flags of a test runner begin with. -/
def testMark : Bytes := text "test."

/-- Reads short flags written together.  What a test runner has put there is passed over. -/
def readCluster (flags : List (Flag ι)) : Bytes → Reading ι
  | [] => ⟨[], .complete⟩
  | letter :: rest =>
    if testMark.isPrefixOf (letter :: rest) then ⟨[], .complete⟩
    else
      match findShort flags letter with
      | none => ⟨[], .mistaken (.unknownShort letter (letter :: rest))⟩
      | some flag =>
        if rest.head? = some (ascii '=') ∧ rest.tail ≠ [] then ⟨[(flag, rest.tail)], .complete⟩
        else if flag.isSwitch then
          let others := readCluster flags rest
          ⟨(flag, switchedOn) :: others.given, others.ending⟩
        else if rest = [] then ⟨[], .takesNext flag (.missingShort letter [letter])⟩
        else ⟨[(flag, rest)], .complete⟩

/-- Reads a long flag; `body` is what follows the two dashes. -/
def readLong (flags : List (Flag ι)) (argument body : Bytes) : Reading ι :=
  if body.head? = some (ascii '-') ∨ body.head? = some (ascii '=') then
    ⟨[], .mistaken (.badSyntax argument)⟩
  else
    let (name, value) :=
      match Bytes.cut? (ascii '=') body with
      | some (name, value) => (name, some value)
      | none => (body, none)
    match findLong flags name with
    | none => ⟨[], .mistaken (.unknownLong name)⟩
    | some flag =>
      match value with
      | some value => ⟨[(flag, value)], .complete⟩
      | none =>
        if flag.isSwitch then ⟨[(flag, switchedOn)], .complete⟩
        else ⟨[], .takesNext flag (.missingLong argument)⟩

/-- What the arguments of a command say. -/
structure Parsed (ι : Type) where
  settings : List (ι × Setting)
  positionals : List Bytes
  mistake : Option Mistake

namespace Parsed

/-- Puts settings in front. -/
def setting (settings : List (ι × Setting)) (p : Parsed ι) : Parsed ι :=
  ⟨settings ++ p.settings, p.positionals, p.mistake⟩

/-- Puts a positional argument in front. -/
def positional (argument : Bytes) (p : Parsed ι) : Parsed ι :=
  ⟨p.settings, argument :: p.positionals, p.mistake⟩

/-- Settings up to a mistake. -/
def stopping (settings : List (ι × Setting)) (m : Mistake) : Parsed ι := ⟨settings, [], some m⟩

end Parsed

/-- Sets flags in order, up to the first value that does not suit its flag. -/
def setAll : List (Flag ι × Bytes) → List (ι × Setting) × Option Mistake
  | [] => ([], none)
  | (flag, value) :: rest =>
    match flag.set value with
    | (settings, some m) => (settings, some m)
    | (settings, none) =>
      let (others, mistake) := setAll rest
      (settings ++ others, mistake)

/-- Whether an argument is positional: it does not begin with a dash, or is one. -/
def isPositional (argument : Bytes) : Bool :=
  argument.head? ≠ some (ascii '-') || argument = text "-"

/-- Reads a flag argument. -/
def readArgument (flags : List (Flag ι)) (argument : Bytes) : Reading ι :=
  match argument with
  | _ :: second :: body =>
    if second = ascii '-' then readLong flags argument body
    else readCluster flags (second :: body)
  | _ => ⟨[], .complete⟩

/-- Reads the arguments of a command. -/
def parse (flags : List (Flag ι)) : List Bytes → Parsed ι
  | [] => ⟨[], [], none⟩
  | argument :: rest =>
    if isPositional argument then (parse flags rest).positional argument
    else if argument = text "--" then ⟨[], rest, none⟩
    else
      let reading := readArgument flags argument
      match setAll reading.given with
      | (settings, some m) => .stopping settings m
      | (settings, none) =>
        match reading.ending with
        | .complete => (parse flags rest).setting settings
        | .mistaken m => .stopping settings m
        | .takesNext flag ifMissing =>
          match rest with
          | [] => .stopping settings ifMissing
          | value :: rest =>
            match flag.set value with
            | (last, some m) => .stopping (settings ++ last) m
            | (last, none) => (parse flags rest).setting (settings ++ last)

/-- Whether an argument, in the search for a subcommand, takes the next one as its value. -/
def takesValue (flags : List (Flag ι)) (argument : Bytes) : Bool :=
  ascii '=' ∉ argument &&
    match argument with
    | dash :: second :: rest =>
      dash = ascii '-' &&
        if second = ascii '-' then
          !((findLong flags rest).any Flag.isSwitch)
        else rest = [] && !((findShort flags second).any Flag.isSwitch)
    | _ => false

/-- The first argument that can name a subcommand, and all others.  The search ends without
one at a double dash and at a flag whose value would be the last argument. -/
def findCommand (flags : List (Flag ι)) : List Bytes → Option (Bytes × List Bytes)
  | [] => none
  | argument :: rest =>
    if argument = text "--" then none
    else if takesValue flags argument then
      match rest with
      | value :: next :: more =>
        (findCommand flags (next :: more)).map fun (name, others) =>
          (name, argument :: value :: others)
      | _ => none
    else if argument ≠ [] ∧ argument.head? ≠ some (ascii '-') then some (argument, rest)
    else (findCommand flags rest).map fun (name, others) => (name, argument :: others)

end CommandLine
end CrossCompiler
