import ChannelPreset.Preset.Error

/-!
# Tallies

The header and the body declare, somewhere among their entries, how many entries they have. A tally
holds what has been declared so far and how many entries are complete; a part ends as soon as the
two agree. A count that is negative, or that has been passed already, is never met.
-/

namespace ChannelPreset

/-- How many entries a part of a preset declares, and how many of them are complete. -/
structure Tally where
  /-- The count, once it has been read. -/
  declared : Option Int32
  complete : Nat
  deriving DecidableEq

namespace Tally

/-- Nothing has been declared, and no entry is complete. -/
def start : Tally := ⟨none, 0⟩

/-- The tally with a count. -/
def declare (t : Tally) (count : Int32) : Tally :=
  { t with declared := some count }

/-- The tally with one more entry. -/
def add (t : Tally) : Tally :=
  { t with complete := t.complete + 1 }

/-- Whether as many entries are complete as the count says. -/
def finished (t : Tally) : Bool :=
  match t.declared with
  | some count => count.toInt == t.complete
  | none => false

/-- Why a part that ends before its tally is finished is refused. -/
def shortfall (t : Tally) : DecodeError :=
  match t.declared with
  | some expected => .countMismatch expected t.complete
  | none => .missingTokenCount

theorem finished_iff {t : Tally} :
    t.finished ↔ ∃ count, t.declared = some count ∧ count.toInt = t.complete := by
  unfold finished
  split <;> simp_all

end Tally

end ChannelPreset
