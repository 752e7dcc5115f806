import ChannelPreset.Preset.Basic

/-!
# Events of Decoding

What can be told about a decoding while it runs, in the order in which it happens. The events are
read off the same steps that decode, up to the step that fails.
-/

namespace ChannelPreset

/-- How much a reader of events wants to know: each level includes the ones in front of it. -/
inductive Level where
  | info
  | debug
  | trace
  deriving DecidableEq, Repr

/-- Something that happened while a preset was read or written. -/
inductive Event where
  /-- A file was read. -/
  | fileRead (length : Nat) (path : String)
  /-- A file was written. -/
  | fileWritten (length : Nat) (path : String)
  /-- A name of the header was read at an offset. -/
  | headerName (text : String) (offset : Nat)
  /-- The header is complete. -/
  | headerDecoded (version : Int32) (pairs length : Nat)
  /-- A section is about to be read from a blob. -/
  | sectionFound (kind : Kind) (length : Nat)
  /-- A field of a section could not be read. -/
  | fieldFailed (error : FieldError)
  /-- The body is complete. -/
  | bodyDecoded (sections length : Nat)
  /-- Bytes follow the preset. -/
  | trailing (length : Nat)
  deriving DecidableEq

namespace Event

/-- The level that an event belongs to. -/
def level : Event → Level
  | .fileRead .. | .fileWritten .. => .info
  | .headerDecoded .. | .bodyDecoded .. | .trailing .. => .debug
  | .headerName .. | .sectionFound .. | .fieldFailed .. => .trace

/-- The part of the program that an event comes from. -/
def target : Event → String
  | .fileRead .. | .fileWritten .. => "dshow"
  | .headerName .. | .headerDecoded .. => "dshow_core::container::header"
  | .sectionFound .. | .bodyDecoded .. => "dshow_core::container::body"
  | .fieldFailed .. => "dshow_core::field::reader"
  | .trailing .. => "dshow_core::container::channel"

/-- The message of an event. -/
def message : Event → String
  | .fileRead length path => s!"read {length} bytes from {path}"
  | .fileWritten length path => s!"wrote {length} bytes to {path}"
  | .headerName text offset => s!"header token {Quoted.encode text} at offset {offset}"
  | .headerDecoded version pairs length =>
    s!"decoded header: version {version.toInt}, {pairs} tokens, {length} bytes"
  | .sectionFound kind length => s!"dispatching {length}-byte blob to {kind.name}"
  | .fieldFailed error => s!"field read failed: {error.message}"
  | .bodyDecoded sections length => s!"decoded body: {sections} sections, {length} bytes"
  | .trailing length => s!"ignoring {length} trailing bytes"

end Event

/-! ## The events of each part -/

/-- The events of one token of a header. -/
def Header.Move.events (offset : Nat) : Header.Move → List Event
  | .name text => [.headerName text offset]
  | _ => []

/-- The events of the rest of a header. -/
def Header.Progress.events (p : Header.Progress) (c : Cursor) : List Event :=
  if p.tally.finished then [.headerDecoded p.header.version p.tally.complete c.position]
  else
    match _h : p.next c with
    | .error _ => []
    | .ok (move, c') => move.events c.position ++ (p.apply move).events c'
termination_by c.remaining
decreasing_by exact remaining_lt_of_next _h

/-- The events of reading a header. -/
def Header.events (h : Header) (bs : Bytes) : List Event :=
  (Progress.start h).events (.start bs)

/-- The events of reading a section. -/
def Section.events {k : Kind} (s : Section k) (blob : Bytes) : List Event :=
  .sectionFound k blob.length ::
    match s.decode blob with
    | .ok _ => []
    | .error e => [.fieldFailed e]

/-- The events of one token of a body. -/
def Body.Move.events (b : Body) : Body.Move → List Event
  | .blob k bs => (b.sections k).events bs
  | _ => []

/-- The events of the rest of a body. -/
def Body.Progress.events (p : Body.Progress) (c : Cursor) : List Event :=
  if p.tally.finished then [.bodyDecoded p.tally.complete c.position]
  else
    match _h : p.next c with
    | .error _ => []
    | .ok (move, c') =>
      move.events p.body ++
        match p.apply move with
        | .error _ => []
        | .ok p' => p'.events c'
termination_by c.remaining
decreasing_by exact remaining_lt_of_next _h

/-- The events of reading a body. -/
def Body.events (b : Body) (bs : Bytes) : List Event :=
  (Progress.start b).events (.start bs)

/-- The events of reading a preset. -/
def Preset.events (bs : Bytes) : List Event :=
  match opening bs with
  | .error _ => []
  | .ok c =>
    Header.initial.events c.rest ++
      match Header.initial.decode c.rest with
      | .error _ => []
      | .ok (_, n) =>
        Body.initial.events (c.rest.drop n) ++
          match decodeFront bs with
          | .ok (_, b :: bs) => [.trailing (b :: bs).length]
          | _ => []

end ChannelPreset
