import ChannelPreset.Proofs.Field.Finding

/-!
# Batches up to their First Failure

Values are asked for at a list of places, and the batch is looked at once at the end. Up to the first
place whose value is not found in the record, every read gives what it would give as the only read of
a batch. From that place on every read gives the zero value of its encoding, whether its own value
could be found or not, and the batch comes to the failure of that place
(`Batch.readList_start_cases`).
-/

namespace ChannelPreset.Batch

instance : (e : Encoding) → DecidableEq e.Value
  | .bool => inferInstanceAs (DecidableEq Bool)
  | .int32 => inferInstanceAs (DecidableEq Int32)
  | .scaled _ => inferInstanceAs (DecidableEq Single)
  | .delay => inferInstanceAs (DecidableEq Single)
  | .eqType => inferInstanceAs (DecidableEq EqType)
  | .eqDyn => inferInstanceAs (DecidableEq EqDyn)
  | .text => inferInstanceAs (DecidableEq String)

/-- What is asked for: an encoding and an offset. -/
abbrev Place := Encoding × Nat

/-- A value together with its encoding. -/
abbrev Reading := (e : Encoding) × e.Value

/-- What a batch gives for its only read, and the batch behind it. -/
def only (record : Bytes) (place : Place) : Reading × Batch :=
  let (value, b) := (start record).read place.1 place.2
  (⟨place.1, value⟩, b)

/-- The zero value for a place. -/
def zeroFor (place : Place) : Reading :=
  ⟨place.1, place.1.zero⟩

variable {record : Bytes} {place : Place} {places before : List Place} {error : FieldError}

theorem finish_eq_error_iff {b : Batch} : b.finish = .error error ↔ b.failure = some error := by
  unfold finish
  cases b.failure <;> simp

/-! ## One read -/

theorem failure_only : (only record place).2.failure = place.1.failure? record place.2 :=
  failure_read (start record) place.1 place.2

theorem finish_only_eq_ok_iff :
    (only record place).2.finish = .ok () ↔ place.1.Found record place.2 := by
  rw [finish_eq_ok_iff, failure_only, Encoding.failure?_eq_none_iff]

theorem finish_only_eq_error_iff :
    (only record place).2.finish = .error error ↔ place.1.Lacks record place.2 error := by
  rw [finish_eq_error_iff, failure_only, Encoding.failure?_eq_some_iff]

theorem read_of_found (h : place.1.Found record place.2) :
    (start record).read place.1 place.2 = ((only record place).1.2, start record) := by
  obtain ⟨v, hv⟩ := exists_read_start h
  simp only [only, hv]

/-- A value that is not found leaves its failure in the batch. -/
theorem read_of_lacks (h : place.1.Lacks record place.2 error) :
    (start record).read place.1 place.2 = (place.1.zero, ⟨record, some error⟩) := by
  simp only [read, start, h.read_eq]

/-! ## Reads one after the other -/

theorem readList_cons (b : Batch) (place : Place) (places : List Place) :
    b.readList (place :: places) =
      (⟨place.1, (b.read place.1 place.2).1⟩
          :: ((b.read place.1 place.2).2.readList places).1,
        ((b.read place.1 place.2).2.readList places).2) :=
  rfl

theorem readList_append (b : Batch) (front back : List Place) :
    b.readList (front ++ back) =
      ((b.readList front).1 ++ ((b.readList front).2.readList back).1,
        ((b.readList front).2.readList back).2) := by
  induction front generalizing b with
  | nil => rfl
  | cons place front ih => rw [List.cons_append, readList_cons, ih, readList_cons, List.cons_append]

theorem readList_of_found (h : ∀ place ∈ places, place.1.Found record place.2) :
    (start record).readList places = (places.map fun place => (only record place).1,
      start record) := by
  induction places with
  | nil => rfl
  | cons place places ih =>
    rw [readList_cons, read_of_found (h place List.mem_cons_self),
      ih fun other hother => h other (List.mem_cons_of_mem place hother)]
    rfl

/-- A batch that has failed gives zero values and keeps its failure. -/
theorem readList_of_failure (record : Bytes) (error : FieldError) (places : List Place) :
    (⟨record, some error⟩ : Batch).readList places
      = (places.map zeroFor, ⟨record, some error⟩) := by
  induction places with
  | nil => rfl
  | cons place places ih =>
    have hread : (⟨record, some error⟩ : Batch).read place.1 place.2
        = (place.1.zero, ⟨record, some error⟩) := rfl
    rw [readList_cons, hread, ih]
    rfl

theorem readList_of_lacks (hbefore : ∀ place ∈ before, place.1.Found record place.2)
    (h : place.1.Lacks record place.2 error) (after : List Place) :
    (start record).readList (before ++ place :: after)
      = (before.map (fun place => (only record place).1) ++ (place :: after).map zeroFor,
          ⟨record, some error⟩) := by
  rw [readList_append, readList_of_found hbefore, readList_cons, read_of_lacks h,
    readList_of_failure]
  rfl

/-- A read that is the only one of its batch fails for what the record lacks. If no read of a list
would fail so, each of them gives what it would give as the only one, and the batch comes to no
failure. Otherwise this holds of the reads in front of the first one that would fail; that one and
all behind it give zero values, and the batch comes to its failure. -/
theorem readList_start_cases (record : Bytes) (places : List Place) :
    (∀ place error, (only record place).2.finish = .error error ↔
        place.1.Lacks record place.2 error) ∧
      ((∀ place ∈ places, (only record place).2.finish = .ok ()) →
        ((start record).readList places).1 = places.map (fun place => (only record place).1) ∧
        ((start record).readList places).2.finish = .ok ()) ∧
      ∀ before place after error, places = before ++ place :: after →
        (∀ earlier ∈ before, (only record earlier).2.finish = .ok ()) →
        (only record place).2.finish = .error error →
          ((start record).readList places).1
            = before.map (fun earlier => (only record earlier).1) ++ (place :: after).map zeroFor ∧
          ((start record).readList places).2.finish = .error error := by
  refine ⟨fun _ _ => finish_only_eq_error_iff, fun h => ?_, ?_⟩
  · rw [readList_of_found fun place hplace => finish_only_eq_ok_iff.1 (h place hplace)]
    exact ⟨rfl, rfl⟩
  · rintro before place after error rfl hbefore hplace
    rw [readList_of_lacks
      (fun earlier hearlier => finish_only_eq_ok_iff.1 (hbefore earlier hearlier))
      (finish_only_eq_error_iff.1 hplace)]
    exact ⟨rfl, rfl⟩

/-- A word, a text, a number that begins two bytes in front of the end of the address space, a text
without a terminator, and a switch that could be found. -/
def strays : List Place :=
  [(.int32, 0), (.text, 4), (.scaled (-10), 18446744073709551613), (.text, 6), (.bool, 0)]

/-- The number is the first of two that fail. What is read for it is the zero over a negative
divisor, and the switch behind it is off although its byte is not zero. -/
theorem readList_start_cases_strays :
    (only [5, 0, 0, 0, 0x4b, 0] (.text, 6)).2.finish = .error (.unterminatedString 6) ∧
      (only [5, 0, 0, 0, 0x4b, 0] (.bool, 0)).1 = ⟨.bool, true⟩ ∧
      ((start [5, 0, 0, 0, 0x4b, 0]).readList strays).1
        = [⟨.int32, 5⟩, ⟨.text, "K"⟩, ⟨.scaled (-10), .finite true ⟨0, by decide⟩⟩, ⟨.text, ""⟩,
            ⟨.bool, false⟩] ∧
      ((start [5, 0, 0, 0, 0x4b, 0]).readList strays).2.finish
        = .error (.outOfRange 18446744073709551613 4 6) := by
  obtain ⟨hfails, -, hfirst⟩ := readList_start_cases [5, 0, 0, 0, 0x4b, 0] strays
  have hbefore : ∀ earlier ∈ [((.int32, 0) : Place), (.text, 4)],
      (only [5, 0, 0, 0, 0x4b, 0] earlier).2.failure = none := by decide +kernel
  have houtside := (hfails (.scaled (-10), 18446744073709551613) _).2 (.bytes (by decide) nofun)
  obtain ⟨hvalues, hfinish⟩ := hfirst [(.int32, 0), (.text, 4)] _ [(.text, 6), (.bool, 0)] _ rfl
    (fun earlier hearlier => finish_eq_ok_iff.2 (hbefore earlier hearlier)) houtside
  exact ⟨finish_eq_error_iff.2 (by decide +kernel), by decide +kernel,
    hvalues.trans (by decide +kernel), hfinish⟩

end ChannelPreset.Batch
