import ChannelPreset.Preset.Dump
import ChannelPreset.Proofs.Body.Redecoding
import ChannelPreset.Proofs.Body.Rewriting

/-!
# Room for the Fields

A section has room for its fields when it is at least as long as its layout (`Section.Roomy`). New
sections have room, and reading and assigning leave room, so every section of a body that comes
about from a new one has it (`Body.roomy_of_reachable`). Writing such a section drops no field, and
its size is the same wherever it is told (`Body.whole_and_tells_of_reachable`).
-/

namespace ChannelPreset

namespace Section

variable {k : Kind}

/-- The stored form is at least as long as the layout of the section. -/
def Roomy (s : Section k) : Prop := k.reach ≤ s.length

/-- The length that the section of remembered length keeps. -/
def remembered (s : Section .micLineStrips) : Nat := s.memory

/-- Writing drops no field: every field lies inside the stored form, and its bytes are found there.
-/
def Whole (s : Section k) : Prop :=
  ∀ f ∈ s.fields, f.offset + f.width ≤ s.length ∧
    s.encode.slice? f.offset f.width = some f.bytes

theorem Roomy.whole {s : Section k} (h : s.Roomy) : s.Whole := by
  intro f hf
  have hfits := fits_of_reach_le h
  rw [← f.length_bytes]
  exact ⟨hfits f hf, slice?_encode hfits hf⟩

theorem roomy_initial (k : Kind) : (initial k).Roomy := by
  by_cases hk : k = .micLineStrips
  · subst hk
    show Kind.reach .micLineStrips ≤ 0x65
    rw [reach_micLineStrips]
    decide
  · exact reach_le_length _ hk

/-- A section keeps its room when a field is assigned. -/
theorem roomy_assign {s : Section k} (h : s.Roomy) (name : String)
    (value : (e : Encoding) → Option e.Value) : (s.assign name value).Roomy := by
  by_cases hk : k = .micLineStrips
  · subst hk
    -- assigning changes no length that is kept
    exact h
  · exact reach_le_length _ hk

end Section

namespace Body

/-- The bodies that come about from a new one by reading bodies and single sections, by assigning
values to fields, and by taking over a section of another body. What fails changes nothing. -/
inductive Reachable : Body → Prop
  | initial : Reachable initial
  | decode {b b' : Body} {bs : Bytes} {n : Nat} :
      Reachable b → b.decode bs = .ok (b', n) → Reachable b'
  | decodeSection {b : Body} {k : Kind} {s : Section k} {blob : Bytes} :
      Reachable b → (b.sections k).decode blob = .ok s → Reachable (b.update s)
  | assign {b : Body} (k : Kind) (name : String) (value : (e : Encoding) → Option e.Value) :
      Reachable b → Reachable (b.update ((b.sections k).assign name value))
  | assignCount {b : Body} (count : Int32) :
      Reachable b → Reachable { b with tokenCount := count }
  | assignSection {b c : Body} (k : Kind) :
      Reachable b → Reachable c → Reachable (b.update (c.sections k))

variable {b : Body}

/-- Every section of a body that comes about from a new one has room for its fields. -/
theorem roomy_of_reachable (h : b.Reachable) : ∀ k, (b.sections k).Roomy := by
  induction h with
  | initial => exact Section.roomy_initial
  | decode _ hdecode ih =>
    exact forall_sections_of_decode (motive := fun _ s => s.Roomy)
      (fun _ hs _ => Section.reach_le_length_self_of_decode hs) hdecode ih
  | decodeSection _ hs ih =>
    exact forall_sections_found ih (Section.reach_le_length_self_of_decode hs)
  | assign k name value _ ih =>
    exact forall_sections_found ih (Section.roomy_assign (ih k) name value)
  | assignCount count _ ih => exact ih
  | assignSection k _ _ ih ih' => exact forall_sections_found ih (ih' k)

/-! ## Where a size is told -/

/-- The tokens of a section. -/
def pair (b : Body) (k : Kind) : List Token :=
  [.string k.name, .bytes (b.sections k).encode]

/-- The size of a section is told as this number. -/
structure Tells (b : Body) (k : Kind) (size : Nat) : Prop where
  /-- By the section. -/
  length_eq : (b.sections k).length = size
  /-- By the title of its description. -/
  describe_eq : (b.sections k).describe
    = s!"[{k.name}] {size} bytes\n"
      ++ String.join ((b.sections k).entries.map Section.describe.line)
  /-- By the dump of every preset with the body. -/
  dump_eq (header : Header) :
    ((Preset.dump ⟨header, b⟩).sections.find? (·.name == k.name)).map (·.size) = some size
  /-- By the word between the tag and the blob of the section in the written body. -/
  encode_eq : ∃ before behind declared, Kind.all = before ++ k :: behind ∧
    b.encode = Token.encodeAll (.tokenCount catalogCount :: before.flatMap b.pair)
      ++ (Token.string k.name).encode
      ++ Tag.bytes.toByte :: (Bytes.ofWord declared ++ (b.sections k).encode)
      ++ Token.encodeAll (behind.flatMap b.pair) ∧
    declared.toInt = size

/-- A section in the catalog is written behind the count and the ones in front of it. -/
theorem encode_eq_of_all_eq (b : Body) {k : Kind} {before behind : List Kind}
    (h : Kind.all = before ++ k :: behind) :
    b.encode = Token.encodeAll (.tokenCount catalogCount :: before.flatMap b.pair)
      ++ (Token.string k.name).encode ++ (Token.bytes (b.sections k).encode).encode
      ++ Token.encodeAll (behind.flatMap b.pair) := by
  have htokens : b.tokens = .tokenCount catalogCount :: Kind.all.flatMap b.pair := rfl
  rw [encode, htokens, h]
  simp [Token.encodeAll, pair]

theorem tells_of_lt {k : Kind} (h : (b.sections k).encode.length < 2 ^ 31) :
    b.Tells k (b.sections k).encode.length where
  length_eq := (Section.length_encode _).symm
  describe_eq := by
    rw [Section.length_encode, Section.describe, String.join_cons]
  dump_eq header := by
    have hfind : Kind.all.find? (·.name == k.name) = some k := Kind.ofName?_name k
    rw [Section.length_encode, Preset.dump, List.find?_map]
    show ((Kind.all.find? (·.name == k.name)).map _).map _ = _
    rw [hfind]
    rfl
  encode_eq := by
    -- every section is in the catalog, and its pair is written at its place there
    obtain ⟨before, behind, hall⟩ := List.append_of_mem k.mem_all
    exact ⟨before, behind, Token.lengthWord (b.sections k).encode, hall,
      b.encode_eq_of_all_eq hall, Token.toInt_lengthWord h⟩

/-- Writing a body that comes about from a new one drops no field of any section, the length that is
remembered is at least the one that its section needs, and the size of a section is the same
wherever it is told, as long as a word can hold it. -/
theorem whole_and_tells_of_reachable (h : b.Reachable) (k : Kind) :
    (b.sections k).Whole ∧ 0x14 ≤ (b.sections .micLineStrips).remembered ∧
      ((b.sections k).encode.length < 2 ^ 31 → b.Tells k (b.sections k).encode.length) := by
  have hroomy := roomy_of_reachable h
  refine ⟨(hroomy k).whole, ?_, tells_of_lt⟩
  rw [← Section.reach_micLineStrips]
  exact hroomy .micLineStrips

/-- The body with another name of the channel, longer than the one it has. -/
def renamed (b : Body) : Body :=
  b.update ((b.sections .strip).assign "Channel Name" fun
    | .text => some "Lead Vocals, left"
    | _ => none)

/-- A short blob of the section of remembered length. -/
def shortPairs : List (Kind × Bytes) :=
  [(.micLineStrips, List.replicate 0x14 0)]

theorem whole_and_tells_of_reachable_renamed :
    ∃ b n, initial.decode (bytesOf shortPairs) = .ok (b, n) ∧
      (b.renamed.sections .strip).Whole ∧ b.renamed.Tells .strip 0x1e ∧
      0x14 ≤ (b.renamed.sections .micLineStrips).remembered ∧
      b.renamed.Tells .micLineStrips 0x14 := by
  obtain ⟨⟨b, n⟩, hdecode, hlengths⟩ := exists_eq_ok_of_map_toOption (b := (0x1e, 0x14))
    (f := fun y => ((y.1.renamed.sections .strip).encode.length,
      (y.1.renamed.sections .micLineStrips).encode.length))
    (x := initial.decode (bytesOf shortPairs)) (by decide +kernel)
  obtain ⟨hstrip, hmicLine⟩ := Prod.mk.inj hlengths
  have hreachable : b.renamed.Reachable := .assign _ _ _ (.decode .initial hdecode)
  obtain ⟨hwhole, hremembered, hstripTells⟩ := whole_and_tells_of_reachable hreachable .strip
  obtain ⟨-, -, hmicLineTells⟩ := whole_and_tells_of_reachable hreachable .micLineStrips
  rw [hstrip] at hstripTells
  rw [hmicLine] at hmicLineTells
  exact ⟨b, n, hdecode, hwhole, hstripTells (by decide), hremembered, hmicLineTells (by decide)⟩

end Body

end ChannelPreset
