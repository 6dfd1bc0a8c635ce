import CrossCompiler.Path

/-!
# Container configuration

A tool can be run inside a container that sees nothing but the directories it works on.
The directories keep their paths inside, so the arguments of a tool mean the same there.
-/

namespace CrossCompiler
namespace Container

/-- What a tool may use at most. -/
structure Limits where
  core : Int
  openFiles : Int
  processes : Int
  lockedMemory : Int
  cpuSeconds : Int
  memory : Int
  fileSize : Int
  deriving DecidableEq

/-- The limits when none are given. -/
def Limits.standard : Limits where
  core := 0
  openFiles := 512
  processes := 64
  lockedMemory := 1024
  cpuSeconds := 30
  memory := 512 * 1024 * 1024
  fileSize := 64 * 1024 * 1024

/-- How tools are run in containers. -/
structure Config where
  image : Bytes
  workDirectory : Bytes
  mounts : List Bytes
  user : Int
  group : Int
  limits : Limits

/-- A limit of a resource, for both the warning and the hard bound. -/
structure ResourceLimit where
  name : Bytes
  bound : Int

/-- A container as it is asked for. -/
structure Request where
  image : Bytes
  command : List Bytes
  workDirectory : Bytes
  user : Bytes
  attachStdout : Bool
  attachStderr : Bool
  attachStdin : Bool
  networkDisabled : Bool
  stopSignal : Bytes
  binds : List Bytes
  readonlyRoot : Bool
  privileged : Bool
  scratch : List (Bytes × Bytes)
  memory : Int
  limits : List ResourceLimit

/-- The list without repetitions: each value where it first occurs. -/
def distinct : (seen : List Bytes) → List Bytes → List Bytes
  | _, [] => []
  | seen, d :: rest =>
    if d ∈ seen then distinct seen rest else d :: distinct (d :: seen) rest

namespace Config

/-- The directories a container sees: the working directory and the mounts, each once. -/
def directories (c : Config) : List Bytes :=
  distinct [] ((c.workDirectory :: c.mounts).filter (· ≠ []))

/-- Each directory bound to the same path inside. -/
def binds (c : Config) : List Bytes := c.directories.map fun d => d ++ ascii ':' :: d

/-- The container for a command. -/
def request (c : Config) (command : List Bytes) : Request where
  image := c.image
  command := command
  workDirectory := c.workDirectory
  user := Bytes.decimal c.user ++ text ":" ++ Bytes.decimal c.group
  attachStdout := true
  attachStderr := true
  attachStdin := false
  networkDisabled := true
  stopSignal := text "SIGKILL"
  binds := c.binds
  readonlyRoot := true
  privileged := false
  scratch := [(text "/tmp", [])]
  memory := c.limits.memory
  limits :=
    [⟨text "core", c.limits.core⟩, ⟨text "nofile", c.limits.openFiles⟩,
      ⟨text "nproc", c.limits.processes⟩, ⟨text "memlock", c.limits.lockedMemory⟩,
      ⟨text "cpu", c.limits.cpuSeconds⟩, ⟨text "fsize", c.limits.fileSize⟩]

end Config
end Container
end CrossCompiler
