import ChannelPreset.Bytes

/-!
# What a Command Needs from its Surroundings

A command reads and writes files by path, and prints. A host offers these operations in the monad
that carries them out, so a command is written once for the files of a machine and for a file tree
that is a value.
-/

namespace ChannelPreset

/-- Why an operation on files failed, as the operating system reports it. -/
structure HostError where
  code : Nat
  description : String
  deriving DecidableEq, Repr

namespace HostError

def noSuchFile : HostError := ⟨2, "No such file or directory"⟩

def fileExists : HostError := ⟨17, "File exists"⟩

def notADirectory : HostError := ⟨20, "Not a directory"⟩

def isADirectory : HostError := ⟨21, "Is a directory"⟩

def nameTooLong : HostError := ⟨36, "File name too long"⟩

/-- The text of an error. -/
def message (e : HostError) : String :=
  s!"{e.description} (os error {e.code})"

end HostError

/-- What a path can name. -/
inductive NodeKind where
  | file
  | directory
  | other
  deriving DecidableEq, Repr

/-- The operations of a host. -/
structure Host (m : Type → Type) where
  /-- What a path names, if anything. -/
  kind : String → m (Option NodeKind)
  /-- The names in a directory, in ascending order. -/
  names : String → m (List String)
  /-- The path from the root, without dots, of what a path names. -/
  realPath : String → m (Except HostError String)
  /-- The content of a file. -/
  readFile : String → m (Except HostError Bytes)
  /-- Makes one directory whose parent exists. -/
  makeDirectory : String → m (Except HostError Unit)
  /-- Gives a file its whole content, and makes the file if there is none. -/
  writeFile : String → Bytes → m (Except HostError Unit)
  /-- Prints to the output. -/
  print : String → m Unit
  /-- Prints to the error output. -/
  report : String → m Unit

end ChannelPreset
