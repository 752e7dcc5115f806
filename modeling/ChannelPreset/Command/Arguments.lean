import ChannelPreset.Json

/-!
# Command Lines

The grammar of the command line: options of the program, a group, a verb of the group, and the
options and operands of the verb. Arguments are taken from left to right, and the first one that is
out of place, or that asks for help or for the version, ends the reading. What a verb cannot do
without, and what it cannot take together, is checked when all arguments have been taken.
-/

namespace ChannelPreset

/-- Where a dump goes. -/
inductive Destination where
  | output
  | file (path : String)
  deriving DecidableEq, Repr

/-- What the command line asks for. -/
inductive Command where
  /-- Dump a preset as JSON. -/
  | dump (input : String) (destination : Destination) (pretty quiet : Bool)
  /-- Describe a preset. -/
  | describe (input : String)
  /-- Read a preset and write it again. -/
  | reencode (input output : String) (quiet : Bool)
  /-- Write a new preset. -/
  | new (output : String) (fileType comment : Option String) (quiet : Bool)
  deriving DecidableEq, Repr

/-- A command and how much it shall tell about its work. -/
structure Invocation where
  verbosity : Nat
  command : Command
  deriving DecidableEq, Repr

/-- Why a command line asks for no command. -/
inductive Stop where
  | help
  | version
  /-- The arguments are not in the grammar. -/
  | usage
  deriving DecidableEq, Repr

namespace Arguments

/-! ## Verbs and options -/

/-- The verbs. -/
inductive Verb where
  | dump
  | describe
  | reencode
  | new
  deriving DecidableEq, Repr

/-- The verb with a name. -/
def Verb.ofName? : String → Option Verb
  | "dump" => some .dump
  | "describe" => some .describe
  | "rewrite" => some .reencode
  | "new" => some .new
  | _ => none

/-- The options that only verbs have. -/
inductive Key where
  | report
  | stdout
  | pretty
  | compact
  | quiet
  | output
  | fileType
  | comment
  deriving DecidableEq, Repr

/-- The value of an option: none, any text, or a path, which is not empty. -/
inductive Operand where
  | nothing
  | text
  | path
  deriving DecidableEq, Repr

/-- The operand of an option. -/
def Key.operand : Key → Operand
  | .stdout | .pretty | .compact | .quiet => .nothing
  | .fileType | .comment => .text
  | .report | .output => .path

/-- The long name of an option. -/
def Key.long : Key → String
  | .report => "report"
  | .stdout => "stdout"
  | .pretty => "pretty"
  | .compact => "compact"
  | .quiet => "quiet"
  | .output => "output"
  | .fileType => "file-type"
  | .comment => "comment"

/-- The letter of an option. -/
def Key.letter? : Key → Option Char
  | .report | .output => some 'o'
  | _ => none

/-- The options of a verb. -/
def Verb.keys : Verb → List Key
  | .dump => [.report, .stdout, .pretty, .compact, .quiet]
  | .describe => []
  | .reencode => [.output, .quiet]
  | .new => [.output, .fileType, .comment, .quiet]

/-- Whether a verb takes an input file. -/
def Verb.takesInput : Verb → Bool
  | .new => false
  | _ => true

/-! ## Shapes of arguments -/

/-- An argument by its shape. -/
inductive Shape where
  /-- Two minuses: only operands follow. -/
  | dashes
  /-- A long option, with a value behind an equals sign if there is one. -/
  | long (name : String) (attached : Option String)
  /-- Letters behind one minus. -/
  | letters (text : List Char)
  /-- Anything else. -/
  | operand (text : String)
  deriving DecidableEq, Repr

/-- The text in front of the first equals sign, and the text behind it if there is one. -/
def splitEquals : List Char → List Char × Option (List Char)
  | [] => ([], none)
  | '=' :: cs => ([], some cs)
  | c :: cs => let (name, value) := splitEquals cs; (c :: name, value)

/-- The shape of an argument; a single minus is an operand. -/
def shape (argument : String) : Shape :=
  match argument.toList with
  | ['-', '-'] => .dashes
  | '-' :: '-' :: cs =>
    let (name, value) := splitEquals cs
    .long (String.ofList name) (value.map String.ofList)
  | '-' :: c :: cs => .letters (c :: cs)
  | _ => .operand argument

/-! ## Arguments of a verb -/

/-- What has been taken for a verb. -/
structure Taken where
  verb : Verb
  /-- The verbosity asked for in front of the verb. -/
  outer : Nat
  /-- How often more verbosity was asked for behind the verb. -/
  verbose : Nat
  input : Option String
  /-- The options, each at most once, with their values. -/
  options : List (Key × String)
  deriving DecidableEq, Repr

namespace Taken

/-- Nothing has been taken. -/
def start (verb : Verb) (outer : Nat) : Taken :=
  { verb, outer, verbose := 0, input := none, options := [] }

/-- Whether an option has been taken. -/
def has (t : Taken) (key : Key) : Bool :=
  t.options.any (·.1 == key)

/-- The value of an option. -/
def value? (t : Taken) (key : Key) : Option String :=
  t.options.lookup key

/-- One more option; none is taken twice, and a path is not empty. -/
def add (t : Taken) (key : Key) (value : String) : Except Stop Taken :=
  if t.has key || (key.operand == .path && value == "") then .error .usage
  else .ok { t with options := t.options ++ [(key, value)] }

/-- One more operand. -/
def addOperand (t : Taken) (text : String) : Except Stop Taken :=
  if t.verb.takesInput && t.input.isNone && text != "" then .ok { t with input := some text }
  else .error .usage

/-- One more step of verbosity. -/
def addVerbose (t : Taken) : Taken :=
  { t with verbose := t.verbose + 1 }

/-- The options taken after a long option, and the option that still waits for its value. -/
def long (t : Taken) (name : String) (attached : Option String) :
    Except Stop (Taken × Option Key) :=
  match t.verb.keys.find? (·.long == name) with
  | some key =>
    match key.operand, attached with
    | .nothing, none => (t.add key "").map (·, none)
    | .nothing, some _ => .error .usage
    | _, some value => (t.add key value).map (·, none)
    | _, none => .ok (t, some key)
  | none =>
    if attached.isSome then .error .usage
    else if name = "verbose" then .ok (t.addVerbose, none)
    else if name = "help" then .error .help
    else .error .usage

/-- The text of a value behind a letter, which may begin with an equals sign. -/
def attachedValue : List Char → String
  | '=' :: cs => String.ofList cs
  | cs => String.ofList cs

/-- The options taken after letters, and the option that still waits for its value. -/
def letters (t : Taken) : List Char → Except Stop (Taken × Option Key)
  | [] => .ok (t, none)
  | c :: cs =>
    match t.verb.keys.find? (·.letter? == some c) with
    | some key =>
      if cs.isEmpty then .ok (t, some key) else (t.add key (attachedValue cs)).map (·, none)
    | none =>
      if c = 'v' then t.addVerbose.letters cs
      else if c = 'h' then .error .help
      else .error .usage

/-- The arguments taken, where `pending` is an option that still waits for its value. -/
def take (t : Taken) (pending : Option Key) : List String → Except Stop Taken
  | [] => if pending.isSome then .error .usage else .ok t
  | argument :: rest =>
    match pending, shape argument with
    | some key, .operand text =>
      match t.add key text with
      | .ok t => t.take none rest
      | .error e => .error e
    | some _, _ => .error .usage
    | none, .dashes => rest.foldlM addOperand t
    | none, .long name attached =>
      match t.long name attached with
      | .ok (t, pending) => t.take pending rest
      | .error e => .error e
    | none, .letters cs =>
      match t.letters cs with
      | .ok (t, pending) => t.take pending rest
      | .error e => .error e
    | none, .operand text =>
      match t.addOperand text with
      | .ok t => t.take none rest
      | .error e => .error e

/-- The verbosity: what was asked for behind the verb counts before what was in front of it. -/
def verbosity (t : Taken) : Nat :=
  if t.verbose = 0 then t.outer else t.verbose

/-- The command that has been taken, if nothing is missing and nothing contradicts. -/
def command? (t : Taken) : Option Command :=
  match t.verb, t.input with
  | .dump, some input =>
    if t.has .pretty && t.has .compact then none
    else
      match t.value? .report, t.has .stdout with
      | none, true => some (.dump input .output (t.has .pretty) (t.has .quiet))
      | some path, false => some (.dump input (.file path) (t.has .pretty) (t.has .quiet))
      | _, _ => none
  | .describe, some input => some (.describe input)
  | .reencode, some input =>
    (t.value? .output).map fun output => .reencode input output (t.has .quiet)
  | .new, none =>
    (t.value? .output).map fun output =>
      .new output (t.value? .fileType) (t.value? .comment) (t.has .quiet)
  | _, _ => none

/-- The invocation that has been taken. -/
def finish (t : Taken) : Except Stop Invocation :=
  match t.command? with
  | some command => .ok { verbosity := t.verbosity, command }
  | none => .error .usage

end Taken

/-! ## Arguments in front of a verb -/

/-- The two places in front of a verb. -/
inductive Group where
  /-- In front of the group. -/
  | program
  /-- Between the group and its verb. -/
  | preset
  deriving DecidableEq, Repr

/-- Whether names lead to something that help can be asked for. -/
def isTopic : Group → List String → Bool
  | _, [] => true
  | .program, "preset" :: names => isTopic .preset names
  | _, ["help"] => true
  | .preset, [name] => (Verb.ofName? name).isSome
  | _, _ => false

/-- How often letters ask for more verbosity. -/
def groupLetters (group : Group) (count : Nat) : List Char → Except Stop Nat
  | [] => .ok count
  | c :: cs =>
    if c = 'v' then groupLetters group (count + 1) cs
    else if c = 'h' then .error .help
    else if c = 'V' ∧ group = .program then .error .version
    else .error .usage

/-- How often an option asks for more verbosity. -/
def groupLong (group : Group) (count : Nat) (name : String) : Option String → Except Stop Nat
  | some _ => .error .usage
  | none =>
    if name = "verbose" then .ok (count + 1)
    else if name = "help" then .error .help
    else if name = "version" ∧ group = .program then .error .version
    else .error .usage

/-- The invocation that the arguments behind a place ask for, where `outer` is the verbosity asked
for in front of the place and `count` how often more was asked for in it. -/
def group (place : Group) (outer count : Nat) : List String → Except Stop Invocation
  | [] => .error .usage
  | argument :: rest =>
    let inner := if count = 0 then outer else count
    match shape argument with
    | .dashes => .error .usage
    | .long name attached =>
      match groupLong place count name attached with
      | .ok count => group place outer count rest
      | .error e => .error e
    | .letters cs =>
      match groupLetters place count cs with
      | .ok count => group place outer count rest
      | .error e => .error e
    | .operand name =>
      if name = "help" then
        if isTopic place rest then .error .help else .error .usage
      else
        match place with
        | .program => if name = "preset" then group .preset inner 0 rest else .error .usage
        | .preset =>
          match Verb.ofName? name with
          | some verb => ((Taken.start verb inner).take none rest).bind Taken.finish
          | none => .error .usage

/-- The invocation that a command line asks for. -/
def parse (arguments : List String) : Except Stop Invocation :=
  group .program 0 0 arguments

end Arguments

end ChannelPreset
