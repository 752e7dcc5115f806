import ChannelPreset.Command.Basic

/-!
# The Program

The command line on the files of the machine that runs the program.
-/

namespace ChannelPreset

namespace HostError

/-- The error of an operation on the machine's files. -/
def ofSystem : IO.Error → HostError
  | .alreadyExists _ code text | .invalidArgument _ code text | .permissionDenied _ code text
  | .resourceExhausted _ code text | .inappropriateType _ code text | .noSuchThing _ code text
  | .interrupted _ code text | .noFileOrDirectory _ code text => ⟨code.toNat, text⟩
  | .otherError code text | .resourceBusy code text | .resourceVanished code text
  | .unsupportedOperation code text | .hardwareFault code text
  | .unsatisfiedConstraints code text | .illegalOperation code text | .protocolError code text
  | .timeExpired code text => ⟨code.toNat, text⟩
  | .unexpectedEof => ⟨0, "unexpected end of file"⟩
  | .userError text => ⟨0, text⟩

end HostError

/-- An operation with its error as a value. -/
def tried {α : Type} (operation : IO α) : IO (Except HostError α) := do
  return (← operation.toBaseIO).mapError HostError.ofSystem

/-- What a path names on this machine. -/
def nodeKind (path : String) : IO NodeKind := do
  let real ← IO.FS.realPath path
  match (← real.metadata).type with
  | .file => return .file
  | .dir => return .directory
  | _ => return .other

/-- The machine that runs the program. -/
def thisMachine : Host IO where
  kind path := do return (← tried (nodeKind path)).toOption
  names path := do
    let entries ← tried (do (← IO.FS.realPath path).readDir)
    let names := (entries.toOption.getD #[]).toList.map (·.fileName)
    return names.mergeSort fun a b => decide (a ≤ b)
  realPath path := tried do return (← IO.FS.realPath path).toString
  readFile path := tried do return (← IO.FS.readBinFile path).toList
  makeDirectory path := tried (IO.FS.createDir path)
  writeFile path content := tried (IO.FS.writeBinFile path (ByteArray.mk content.toArray))
  print text := do (← IO.getStdout).putStr text
  report text := do (← IO.getStderr).putStr text

end ChannelPreset

def main (arguments : List String) : IO UInt32 := do
  return UInt32.ofNat (← ChannelPreset.runArguments ChannelPreset.thisMachine arguments)
