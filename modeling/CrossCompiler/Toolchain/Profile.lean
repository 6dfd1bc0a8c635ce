import CrossCompiler.FileTree
import CrossCompiler.Json.Quoted
import CrossCompiler.Json.Reader
import CrossCompiler.Text.Case
import CrossCompiler.Text.Quoted
import CrossCompiler.Toolchain.Basic

/-!
# Toolchain profiles

A profile is a JSON text that gives the commands of a toolchain: an object with a member
for each tool, each an object with the member `cmd`, an array of strings.  Names are
matched in any case, every member may be missing or null, and any other name is an error.
Members are applied in the order of the text onto what was given before, so the last
command given for a tool wins; an array is written element by element over the one before
it, where a null element leaves what stands there.
-/

namespace CrossCompiler
namespace Profile

/-- The commands of one tool while a profile is read: the list, and the strings behind its
end that an earlier, longer list has left. -/
structure Slot where
  current : Option (List Bytes) := none
  leftover : List Bytes := []

/-- A profile while it is read. -/
structure Draft where
  preprocessor : Slot := {}
  compiler : Slot := {}
  assembler : Slot := {}

namespace Draft

def slot (d : Draft) : Tool → Slot
  | .preprocessor => d.preprocessor
  | .compiler => d.compiler
  | .assembler => d.assembler

def setSlot (d : Draft) (tool : Tool) (slot : Slot) : Draft :=
  match tool with
  | .preprocessor => ⟨slot, d.compiler, d.assembler⟩
  | .compiler => ⟨d.preprocessor, slot, d.assembler⟩
  | .assembler => ⟨d.preprocessor, d.compiler, slot⟩

/-- The toolchain that has been read. -/
def toolchain (d : Draft) : Toolchain := .ofTools fun tool => (d.slot tool).current

end Draft

/-- What is wrong with a value that is well-formed JSON. -/
inductive Mismatch where
  | wrongType
  | unknownMember (name : List Char)
  deriving DecidableEq

/-- Writes the elements of an array over the strings that stand there. -/
def overwrite : List Json.Value → List Bytes → Except Mismatch (List Bytes × List Bytes)
  | [], old => .ok ([], old)
  | element :: rest, old => do
    let first ←
      match element with
      | .string s => .ok (Utf8.encode s)
      | .null => .ok (old.headD [])
      | _ => .error .wrongType
    let (others, leftover) ← overwrite rest old.tail
    return (first :: others, leftover)

/-- Gives a command for a tool. -/
def setCommand (slot : Slot) : Json.Value → Except Mismatch Slot
  | .null => .ok {}
  | .array [] => .ok ⟨some [], []⟩
  | .array elements => do
    let (current, leftover) ← overwrite elements (slot.current.getD [] ++ slot.leftover)
    return ⟨some current, leftover⟩
  | _ => .error .wrongType

/-- Applies the members of a tool's object. -/
def applyTool (slot : Slot) : List (List Char × Json.Value) → Except Mismatch Slot
  | [] => .ok slot
  | (name, value) :: rest =>
    if Case.isName (text "cmd") (Utf8.encode name) then do
      let slot ← setCommand slot value
      applyTool slot rest
    else .error (.unknownMember name)

/-- Gives what a profile says about a tool. -/
def setTool (slot : Slot) : Json.Value → Except Mismatch Slot
  | .null => .ok slot
  | .object members => applyTool slot members
  | _ => .error .wrongType

/-- The tool of a given name, in any case. -/
def toolNamed? (name : List Char) : Option Tool :=
  Tool.all.find? fun tool => Case.isName tool.name (Utf8.encode name)

/-- Applies the members of a profile. -/
def applyMembers (draft : Draft) : List (List Char × Json.Value) → Except Mismatch Draft
  | [] => .ok draft
  | (name, value) :: rest =>
    match toolNamed? name with
    | none => .error (.unknownMember name)
    | some tool => do
      let slot ← setTool (draft.slot tool) value
      applyMembers (draft.setSlot tool slot) rest

/-- What a value says as a profile. -/
def interpret : Json.Value → Except Mismatch Toolchain
  | .null => .ok {}
  | .object members => (applyMembers {} members).map Draft.toolchain
  | _ => .error .wrongType

/-- Why the text of a profile cannot be used. -/
inductive Defect where
  | malformed (failure : Json.Failure)
  | mismatch (mismatch : Mismatch)
  deriving DecidableEq

/-- The toolchain that the text of a profile gives, with default commands where it gives
none. -/
def decode (content : Bytes) : Except Defect Toolchain :=
  match Json.readFirst content with
  | .error failure => .error (.malformed failure)
  | .ok value =>
    match interpret value with
    | .error mismatch => .error (.mismatch mismatch)
    | .ok toolchain => .ok toolchain.withDefaults

/-- A command as an array, indented below its tool. -/
def encodeCommand : Option (List Bytes) → Bytes
  | none => text "null"
  | some [] => text "[]"
  | some args =>
    text "[\n" ++
      Bytes.join (text ",\n")
        (args.map fun arg => text "      " ++ Json.writeString .escaped arg) ++
      text "\n    ]"

/-- A tool's member. -/
def encodeTool (t : Toolchain) (tool : Tool) : Bytes :=
  text "  \"" ++ tool.name ++ text "\": \x7b\n    \"cmd\": " ++ encodeCommand (t.given tool) ++
    text "\n  \x7d"

/-- The text of a profile. -/
def encode (t : Toolchain) : Bytes :=
  text "\x7b\n" ++ Bytes.join (text ",\n") (Tool.all.map (encodeTool t)) ++ text "\n\x7d\n"

/-- Why a profile cannot be loaded or saved. -/
inductive Fault where
  | cannotOpen (path : Bytes) (cause : FileTree.Fault)
  | cannotRead (path : Bytes) (cause : FileTree.Fault)
  | defective (path : Bytes) (defect : Defect)
  | cannotCreate (path : Bytes) (cause : FileTree.Fault)
  | cannotEncode (path : Bytes) (cause : FileTree.Fault)
  | cannotClose (cause : FileTree.Fault)
  deriving DecidableEq

/-- The wording of a mismatch. -/
def Mismatch.message : Mismatch → Bytes
  | .wrongType => text "json: value of the wrong type"
  | .unknownMember name => text "json: unknown field " ++ quote (Utf8.encode name)

def Defect.message : Defect → Bytes
  | .malformed failure => failure.message
  | .mismatch m => m.message

/-- What was attempted when a fault arose, and on which path.  Of a profile that could not be
closed only the cause is told. -/
def Fault.heading? : Fault → Option Bytes
  | .cannotOpen path _ => some (text "failed to open toolchain profile: " ++ inset path)
  | .cannotRead path _ | .defective path _ =>
    some (text "failed to decode toolchain profile: " ++ inset path)
  | .cannotCreate path _ => some (text "failed to create file: " ++ inset path)
  | .cannotEncode path _ => some (text "failed to encode toolchain profile: " ++ inset path)
  | .cannotClose _ => none

/-- What caused a fault. -/
def Fault.cause : Fault → Bytes
  | .cannotOpen _ cause | .cannotRead _ cause | .cannotCreate _ cause | .cannotEncode _ cause
  | .cannotClose cause => cause.message
  | .defective _ defect => defect.message

def Fault.message (f : Fault) : Bytes := chain (f.heading?.toList ++ [f.cause])

/-- The toolchain of the profile at a path. -/
def load (files : FileTree) (path : Bytes) : Except Fault Toolchain :=
  match files.read path with
  | .error fault =>
    if fault.attempt = .opening then .error (.cannotOpen path fault)
    else .error (.cannotRead path fault)
  | .ok content =>
    match decode content with
    | .error defect => .error (.defective path defect)
    | .ok toolchain => .ok toolchain

/-- The fault of a profile that could not be written: it is told by how far the writing came. -/
def unwritten (path : Bytes) (fault : FileTree.Fault) : Fault :=
  match fault.attempt with
  | .closing => .cannotClose fault
  | .writing => .cannotEncode path fault
  | _ => .cannotCreate path fault

/-- The files after a profile has been written to a path. -/
def save (files : FileTree) (path : Bytes) (t : Toolchain) : Except Fault FileTree :=
  match files.write path (encode t) with
  | .error fault => .error (unwritten path fault)
  | .ok files => .ok files

/-- The toolchain to use: the default one if no profile is named. -/
def resolve (files : FileTree) (path : Bytes) : Except Fault Toolchain :=
  if path = [] then .ok .standard else load files path

end Profile
end CrossCompiler
