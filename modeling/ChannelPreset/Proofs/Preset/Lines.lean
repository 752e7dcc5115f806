import ChannelPreset.Preset.Basic
import ChannelPreset.Proofs.Field.Printing
import ChannelPreset.Proofs.Field.Reordering
import ChannelPreset.Proofs.Section.Layout

/-!
# The Lines of a Description

The description of a preset has four lines for the header, and for each section of the catalog a
title and a line for each of its fields, by rising offsets (`Preset.splitOn_describe_and_printed`).
That is all that its line breaks tell: whatever texts and numbers the preset holds, none of them ends
a line or begins a new one, since every line is printed.
-/

namespace ChannelPreset

/-- A text of ended lines is cut at its line breaks into these lines, with nothing behind the last
one. -/
theorem splitOn_join_lines {lines : List String}
    (h : ∀ line ∈ lines, '\n' ∉ line.toList) :
    (String.join (lines.map (· ++ "\n"))).toList.splitOn '\n' = lines.map String.toList ++ [[]] := by
  induction lines with
  | nil => rfl
  | cons line lines ih =>
    have hline : (String.join ((line :: lines).map (· ++ "\n"))).toList
        = line.toList ++ '\n' :: (String.join (lines.map (· ++ "\n"))).toList := by
      simp [String.toList_join]
    rw [hline, List.splitOn_append_cons_self, List.splitOn_eq_singleton (h line List.mem_cons_self),
      ih fun other hother => h other (List.mem_cons_of_mem line hother)]
    rfl

/-- The lines of a header. -/
def Header.lines (h : Header) : List String :=
  ["[File Header]",
    s!"  Version: {h.version.toInt}",
    s!"  File Type: {Quoted.encode h.fileType}",
    s!"  User Comment: {Quoted.encode h.userComment}"]

/-- The line of a field, told by its name, its offset and its value. -/
def Entry.line (e : Entry) : String :=
  s!"  {Hex.offset e.offset} {e.name}: {e.value}"

/-- The lines of a section: its title, and its fields by rising offsets. -/
def Section.lines {k : Kind} (s : Section k) : List String :=
  s!"[{k.name}] {s.length} bytes" :: s.entries.map Entry.line

/-- The lines of a preset. -/
def Preset.lines (p : Preset) : List String :=
  p.header.lines ++ Kind.all.flatMap fun k => (p.body.sections k).lines

/-! ## Joining the lines -/

theorem join_append (lines lines' : List String) :
    String.join (lines ++ lines') = String.join lines ++ String.join lines' := by
  rw [← String.toList_inj]
  simp [String.toList_join]

theorem Header.describe_eq_join_lines (h : Header) :
    h.describe = String.join (h.lines.map (· ++ "\n")) := by
  have htitle : "[File Header]\n" = "[File Header]" ++ "\n" := rfl
  -- the equation of `describe` is slow to make: it computes with the texts
  delta describe lines
  rw [htitle]
  simp only [List.map_cons, List.map_nil, String.join_cons, String.join_nil, String.append_empty,
    String.append_assoc]
  rfl

theorem Section.describe_eq_join_lines {k : Kind} (s : Section k) :
    s.describe = String.join (s.lines.map (· ++ "\n")) := by
  have htitle : ∀ front : String, front ++ " bytes\n" = front ++ " bytes" ++ "\n" := by
    intro front
    rw [String.append_assoc]
    rfl
  have hentries : s.entries.map describe.line = (s.entries.map Entry.line).map (· ++ "\n") := by
    rw [List.map_map]
    rfl
  rw [describe, lines, List.map_cons, hentries]
  exact congrArg (fun title => String.join (title :: _)) (htitle _)

theorem Preset.describe_eq_join_lines (p : Preset) :
    p.describe = String.join (p.lines.map (· ++ "\n")) := by
  have hbody : ∀ kinds : List Kind, String.join (kinds.map fun k => (p.body.sections k).describe)
      = String.join ((kinds.flatMap fun k => (p.body.sections k).lines).map (· ++ "\n")) := by
    intro kinds
    induction kinds with
    | nil => rfl
    | cons k kinds ih =>
      rw [List.map_cons, String.join_cons, ih, Section.describe_eq_join_lines, List.flatMap_cons,
        List.map_append, join_append]
  rw [describe, Body.describe, hbody, Header.describe_eq_join_lines, lines, List.map_append,
    join_append]

/-! ## Printed lines -/

theorem Header.printed_lines (h : Header) : ∀ line ∈ h.lines, Printed line := by
  have hlead : ∀ lead ∈ ["[File Header]", "  Version: ", "  File Type: ", "  User Comment: "],
      Printed lead := fun lead hlead => printed_of_all (by revert lead; decide +kernel)
  simp only [List.forall_mem_cons] at hlead
  obtain ⟨htitle, hversion, hfileType, hcomment, -⟩ := hlead
  simp only [lines, List.forall_mem_cons]
  exact ⟨htitle, printed_append.2 ⟨hversion, printed_toString_int _⟩,
    printed_append.2 ⟨hfileType, printed_quoted _⟩,
    printed_append.2 ⟨hcomment, printed_quoted _⟩, nofun⟩

/-- The names of the catalog are printed. -/
theorem Kind.printed_names (k : Kind) :
    Printed k.name ∧ ∀ d ∈ k.layout, Printed d.name := by
  have hnames : ∀ name ∈ k.name :: k.layout.map Descriptor.name,
      name.toList.all (IsPlain ·) = true := by
    cases k <;> decide +kernel
  have hfields := List.forall_mem_map.1 (List.forall_mem_cons.1 hnames).2
  exact ⟨printed_of_all (List.forall_mem_cons.1 hnames).1,
    fun d hd => printed_of_all (hfields d hd)⟩

theorem Entry.printed_line {e : Entry} (hname : Printed e.name) (hvalue : Printed e.value) :
    Printed e.line := by
  have hmarks : ∀ mark ∈ ["  ", " ", ": "], Printed mark := fun mark hmark =>
    printed_of_all (by revert mark; decide +kernel)
  simp only [List.forall_mem_cons] at hmarks
  obtain ⟨hindent, hspace, hcolon, -⟩ := hmarks
  have hplace := printed_append.2 ⟨printed_append.2 ⟨hindent, printed_hex_offset e.offset⟩, hspace⟩
  exact printed_append.2 ⟨printed_append.2 ⟨printed_append.2 ⟨hplace, hname⟩, hcolon⟩, hvalue⟩

theorem Section.printed_entry {k : Kind} (s : Section k) {e : Entry} (he : e ∈ s.entries) :
    Printed e.name ∧ Printed e.value := by
  obtain ⟨f, hf, rfl⟩ := List.mem_map.1 ((Record.perm_describe s.fields).mem_iff.1 he)
  exact ⟨k.printed_names.2 _ (s.mem_layout hf), f.encoding.printed_render f.value⟩

theorem Section.printed_lines {k : Kind} (s : Section k) : ∀ line ∈ s.lines, Printed line := by
  have hmarks : ∀ mark ∈ ["[", "] ", " bytes"], Printed mark := fun mark hmark =>
    printed_of_all (by revert mark; decide +kernel)
  simp only [List.forall_mem_cons] at hmarks
  obtain ⟨hopen, hclose, hunit, -⟩ := hmarks
  have hname := printed_append.2 ⟨printed_append.2 ⟨hopen, k.printed_names.1⟩, hclose⟩
  have htitle := printed_append.2 ⟨printed_append.2 ⟨hname, printed_toString_nat s.length⟩, hunit⟩
  rw [lines, List.forall_mem_cons, List.forall_mem_map]
  exact ⟨htitle, fun e he => Entry.printed_line (s.printed_entry he).1 (s.printed_entry he).2⟩

theorem Preset.printed_lines (p : Preset) : ∀ line ∈ p.lines, Printed line := by
  intro line hline
  rcases List.mem_append.1 hline with hheader | hbody
  · exact p.header.printed_lines line hheader
  · obtain ⟨k, -, hsection⟩ := List.mem_flatMap.1 hbody
    exact (p.body.sections k).printed_lines line hsection

/-! ## Counting the lines -/

/-- A section has one line for each descriptor of its layout, besides its title. -/
theorem Section.length_lines {k : Kind} (s : Section k) : s.lines.length = 1 + k.layout.length := by
  rw [lines, List.length_cons, List.length_map, entries, (Record.perm_describe s.fields).length_eq,
    List.length_map, ← s.layout, List.length_map, Nat.add_comm]

theorem Preset.length_lines (p : Preset) :
    p.lines.length = 4 + Kind.all.length + (Kind.all.flatMap Kind.layout).length := by
  have hbody : ∀ kinds : List Kind, (kinds.flatMap fun k => (p.body.sections k).lines).length
      = kinds.length + (kinds.flatMap Kind.layout).length := by
    intro kinds
    induction kinds with
    | nil => rfl
    | cons k kinds ih =>
      simp only [List.flatMap_cons, List.length_append, List.length_cons, Section.length_lines, ih]
      omega
  rw [lines, List.length_append, hbody, Nat.add_assoc]
  rfl

/-- The entries of a section are those of its layout, by rising offsets. -/
theorem Section.entries_of_layout {k : Kind} (s : Section k) :
    (s.entries.map fun e => (e.name, e.offset)).Perm
        (k.layout.map fun d => (d.name, d.offset)) ∧
      s.entries.Pairwise fun a b => a.offset < b.offset := by
  refine ⟨?_, Record.pairwise_lt_describe s.pairwise_apart_fields⟩
  rw [← s.layout, List.map_map]
  have hperm := (Record.perm_describe s.fields).map fun e => (e.name, e.offset)
  rwa [List.map_map] at hperm

/-- The description of a preset, whatever its texts and its numbers are, is cut at its line breaks
into four lines for the header, and for each section in the order of the catalog a title and one line
for each descriptor of its layout, by rising offsets; a line break stands behind the last line. Every
line is printed, so that nothing in it could be taken for the end of a line. -/
theorem Preset.splitOn_describe_and_printed (p : Preset) :
    p.describe.toList.splitOn '\n' = p.lines.map String.toList ++ [[]] ∧
      p.lines.length = 4 + Kind.all.length + (Kind.all.flatMap Kind.layout).length ∧
      (∀ line ∈ p.lines, Printed line) ∧
      ∀ k, ((p.body.sections k).entries.map fun e => (e.name, e.offset)).Perm
          (k.layout.map fun d => (d.name, d.offset)) ∧
        (p.body.sections k).entries.Pairwise fun a b => a.offset < b.offset := by
  refine ⟨?_, p.length_lines, p.printed_lines, fun k => (p.body.sections k).entries_of_layout⟩
  rw [p.describe_eq_join_lines]
  exact splitOn_join_lines fun line hline => (p.printed_lines line hline).newline_notMem

end ChannelPreset
