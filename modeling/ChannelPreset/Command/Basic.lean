import ChannelPreset.Command.Arguments
import ChannelPreset.Files.Pattern
import ChannelPreset.Preset.Dump
import ChannelPreset.Preset.Event
import ChannelPreset.Text.ControlSequence

/-!
# Commands

What each command does on a host: which file it reads, what it prints and writes, and with which
message it gives up. An input path with signs of a pattern must match one file. An output path is
compared with the input file before anything is read, and directories that it needs are made before
it is written.
-/

namespace ChannelPreset

/-- Why a command gave up. -/
structure Failure where
  message : String
  hint : Option String
  deriving DecidableEq, Repr

namespace Failure

/-- A failure of the host in a step of the command. -/
def ofHost (context : String) (e : HostError) : Failure :=
  { message := s!"{context}: {e.message}", hint := none }

/-- What is printed about a failure. -/
def text (f : Failure) : String :=
  s!"error: {f.message}\n" ++
    match f.hint with
    | some hint => s!"hint: {hint}\n"
    | none => ""

end Failure

namespace Level

/-- The verbosity from which on events of a level are told. -/
def threshold : Level → Nat
  | .info => 1
  | .debug => 2
  | .trace => 3

/-- The name of a level, set to five characters. -/
def label : Level → String
  | .info => "INFO "
  | .debug => "DEBUG"
  | .trace => "TRACE"

end Level

namespace Event

/-- A text whose lines behind the first are indented by four spaces. -/
def indented (text : String) : String :=
  String.ofList (text.toList.flatMap fun c => if c = '\n' then "\n    ".toList else [c])

/-- What is printed about an event: one record without control sequences. -/
def line (e : Event) : String :=
  ControlSequence.strip s!"[{e.level.label} {e.target}] {indented e.message}\n"

end Event

namespace Command

variable {m : Type → Type} [Monad m] (host : Host m)

/-- A step of a command, which may give up. -/
abbrev Step (m : Type → Type) (α : Type) := ExceptT Failure m α

/-- The result of an operation of the host, in a named step of the command. -/
def attempt {α : Type} (context : String) (operation : m (Except HostError α)) : Step m α :=
  ExceptT.mk do
    match ← operation with
    | .ok a => return .ok a
    | .error e => return .error (.ofHost context e)

/-- An operation of the host that cannot fail. -/
def always {α : Type} (operation : m α) : Step m α :=
  ExceptT.lift operation

/-- Tells events, as far as the verbosity asks for them. -/
def tell (verbosity : Nat) (events : List Event) : Step m Unit :=
  always
    ((events.filter fun e => decide (e.level.threshold ≤ verbosity)).forM fun e =>
      host.report e.line)

/-! ## Input -/

/-- At most this many matches are listed when a pattern matches several files. -/
def listedMatches : Nat := 3

/-- The path of the one file among the matches of a pattern. -/
def onlyMatch (pattern : String) : List String → Except Failure String
  | [] =>
    .error
      { message := s!"no files match pattern '{pattern}'"
        hint := some "check the path or quote the pattern" }
  | [path] => .ok path
  | paths =>
    let listed := String.intercalate ", " (paths.take listedMatches)
    let more := if listedMatches < paths.length then ", ..." else ""
    .error
      { message := s!"multiple files match pattern '{pattern}' ({paths.length} matches)"
          ++ s!"; matches: {listed}{more}"
        hint := some "pass a single preset file, or run once per file" }

/-- The input path that a text stands for: itself, or the only file that it matches as a pattern. -/
def resolveInput (text : String) : Step m String := do
  if !Pattern.isPattern text then return text
  match Pattern.parse text with
  | .error fault =>
    throw
      { message := s!"invalid input pattern '{text}'"
        hint := some s!"pattern error: {fault.message}" }
  | .ok pattern =>
    let paths ← always (pattern.paths host)
    let files ← always (paths.filterM fun path => do return (← host.kind path) == some .file)
    ExceptT.mk (pure (onlyMatch text files))

/-- What a user is asked for when the input is no file. -/
def inputHint : Option String := some "pass the path of an input channel preset"

/-- Gives up unless a path names a file. -/
def checkInput (input : String) : Step m Unit := do
  match ← always (host.kind input) with
  | some .file => return
  | some _ => throw { message := s!"input is not a file: {input}", hint := inputHint }
  | none => throw { message := s!"input file not found: {input}", hint := inputHint }

/-- The input path that a text stands for, which names a file. -/
def inputFile (text : String) : Step m String := do
  let input ← resolveInput host text
  checkInput host input
  return input

/-- The preset in a file. -/
def load (verbosity : Nat) (input : String) : Step m Preset := do
  let bs ← attempt s!"Failed to read input file: {input}" (host.readFile input)
  tell host verbosity (.fileRead bs.length input :: Preset.events bs)
  match Preset.decode bs with
  | .ok preset => return preset
  | .error e =>
    throw
      { message := s!"failed to decode {input}: {e.message}"
        hint := some "expected a D-Show Input Channel preset" }

/-! ## Output -/

/-- The directory that an output path lies in. -/
def outputDirectory (output : String) : String :=
  match Path.parent? output with
  | none | some "" => "."
  | some parent => parent

/-- Gives up when an output path names the input file. A directory that does not exist yet holds no
input. -/
def checkDistinct (input output : String) : Step m Unit := do
  let source ← attempt s!"Failed to resolve input path: {input}" (host.realPath input)
  match ← always (host.realPath (outputDirectory output)) with
  | .error _ => return
  | .ok directory =>
    match Path.fileName? output with
    | none => throw { message := s!"Invalid output path: {output}", hint := none }
    | some name =>
      if Path.join directory name = source then
        throw
          { message := s!"output path must differ from input: {output}"
            hint := some "choose a different output path" }

/-- The directory at a path and the missing ones above it, where `depth` bounds their number. One
that is already there is left as it is. -/
def makeDirectories : Nat → String → m (Except HostError Unit)
  | 0, _ => return .error .noSuchFile
  | depth + 1, path => do
    match ← host.makeDirectory path with
    | .ok () => return .ok ()
    | .error e =>
      if e = .noSuchFile then
        match Path.parent? path with
        | none => return .error e
        | some parent =>
          match ← (if parent = "" then pure (.ok ()) else makeDirectories depth parent) with
          | .error e => return .error e
          | .ok () => settle path (← host.makeDirectory path)
      else settle path (.error e)
where
  /-- A failure to make a directory is none when there is one. -/
  settle (path : String) : Except HostError Unit → m (Except HostError Unit)
    | .ok () => return .ok ()
    | .error e => do
      if (← host.kind path) == some .directory then return .ok () else return .error e

/-- Writes a file, with the directories that it needs. -/
def store (verbosity : Nat) (output : String) (content : Bytes) : Step m Unit := do
  match Path.parent? output with
  | none | some "" => pure ()
  | some parent =>
    attempt s!"Failed to create output directory: {parent}"
      (makeDirectories host (parent.length + 1) parent)
  attempt s!"Failed to write output: {output}" (host.writeFile output content)
  tell host verbosity [.fileWritten content.length output]

/-- Tells that a command is done, unless it shall be quiet. -/
def confirm (quiet : Bool) (text : String) : Step m Unit := do
  if !quiet then always (host.report s!"{text}\n")

/-! ## The commands -/

/-- The text of the dump of a preset. -/
def dumpText (pretty : Bool) (preset : Preset) : String :=
  preset.dump.toJson.render (if pretty then .pretty else .compact)

/-- A new preset with header texts, where they are given. -/
def newPreset (fileType comment : Option String) : Preset :=
  let header := Header.initial
  { Preset.initial with
    header := { header with
      fileType := fileType.getD header.fileType
      userComment := comment.getD header.userComment } }

/-- How many sections a preset was read without. -/
def addedSections (preset : Preset) : Nat :=
  (Kind.all.filter fun k => !preset.body.wasDecoded k).length

/-- What a command does. -/
def steps (verbosity : Nat) : Command → Step m Unit
  | .dump text destination pretty quiet => do
    let input ← inputFile host text
    match destination with
    | .output =>
      let preset ← load host verbosity input
      always (host.print (dumpText pretty preset))
    | .file report =>
      checkDistinct host input report
      let preset ← load host verbosity input
      store host verbosity report (Utf8.encode (dumpText pretty preset))
      confirm host quiet s!"OK: dump written -> {report}"
  | .describe text => do
    let input ← inputFile host text
    let preset ← load host verbosity input
    always (host.print preset.describe)
  | .reencode text output quiet => do
    let input ← inputFile host text
    checkDistinct host input output
    let preset ← load host verbosity input
    store host verbosity output preset.encode
    if addedSections preset ≠ 0 then
      confirm host quiet s!"note: added {addedSections preset} section(s) absent from the input"
    confirm host quiet s!"OK: preset written -> {output}"
  | .new output fileType comment quiet => do
    store host verbosity output (newPreset fileType comment).encode
    confirm host quiet s!"OK: preset written -> {output}"

end Command

/-! ## Command lines -/

/-- The exit code of a command that did its work. -/
def successCode : Nat := 0

/-- The exit code of a command that gave up, or of arguments that ask for none. -/
def failureCode : Nat := 2

/-- The name and the version of the program. -/
def versionText : String := "dshow 0.1.0\n"

/-- How the program is called. -/
def usageText : String :=
  "Usage: dshow [-v]... preset dump <INPUT> (-o <REPORT> | --stdout) [--pretty | --compact]"
    ++ " [--quiet]\n"
    ++ "       dshow [-v]... preset describe <INPUT>\n"
    ++ "       dshow [-v]... preset rewrite <INPUT> -o <OUTPUT> [--quiet]\n"
    ++ "       dshow [-v]... preset new -o <OUTPUT> [--file-type <TEXT>] [--comment <TEXT>]"
    ++ " [--quiet]\n"

variable {m : Type → Type} [Monad m] (host : Host m)

/-- Carries out an invocation and gives its exit code. -/
def Invocation.run (invocation : Invocation) : m Nat := do
  match ← (Command.steps host invocation.verbosity invocation.command).run with
  | .ok () => return successCode
  | .error failure =>
    host.report failure.text
    return failureCode

/-- Carries out a command line and gives its exit code. -/
def runArguments (arguments : List String) : m Nat := do
  match Arguments.parse arguments with
  | .ok invocation => invocation.run host
  | .error .version =>
    host.print versionText
    return successCode
  | .error .help =>
    host.print usageText
    return successCode
  | .error .usage =>
    host.report usageText
    return failureCode

end ChannelPreset
