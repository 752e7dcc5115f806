import ChannelPreset.Proofs.Field.Settling

/-!
# Values That Drift

A value drifts when its stored form is not kept by storing it once more (`Encoding.Drifts`). Numbers
in tenths never do. A number in hundredths does when its word is one of those that are written as the
next one (`Magnitude.Drifts`), and a delay does when its samples have no word. All other values are
settled (`Encoding.settled_iff_not_drifts`).
-/

namespace ChannelPreset

namespace Encoding

/-- The stored form of the value is not kept when it is read and stored. -/
def Drifts : (e : Encoding) → e.Value → Prop
  | .scaled divisor, x =>
    Magnitude.Drifts divisor.toInt.natAbs (x.toScaledWord divisor).toInt.natAbs
  | .delay, x => x.samples < -2 ^ 31 ∨ 2 ^ 31 ≤ x.samples
  | _, _ => False

instance : (e : Encoding) → (v : e.Value) → Decidable (e.Drifts v)
  | .scaled _, _ => inferInstanceAs (Decidable (Magnitude.Drifts _ _))
  | .delay, _ => inferInstanceAs (Decidable (_ ∨ _))
  | .bool, _ | .int32, _ | .eqType, _ | .eqDyn, _ | .text, _ => inferInstanceAs (Decidable False)

/-- A value is settled exactly when it does not drift. -/
theorem settled_iff_not_drifts {e : Encoding} (he : e.Regular) (v : e.Value) :
    e.Settled v ↔ ¬ e.Drifts v := by
  -- only numbers and delays are stored as words that need not come back
  cases e with
  | bool | int32 | eqType | eqDyn => exact iff_of_true rfl id
  | scaled divisor =>
    refine Bytes.ofWord_inj.trans ?_
    rcases he with rfl | rfl
    · exact Single.toScaledWord_kept_iff (Or.inl ⟨rfl, rfl⟩) rfl v
    · exact Single.toScaledWord_kept_iff (Or.inr ⟨rfl, rfl⟩) rfl v
  | delay =>
    refine (Bytes.ofWord_inj.trans (Single.restoredDelay_toDelayWord_eq_iff v)).trans ?_
    unfold Drifts
    omega
  | text => exact iff_of_true (settled_text v) id

end Encoding

/-- The stored form of the field is not kept when it is read and stored. -/
def Field.Drifts (f : Field) : Prop :=
  f.encoding.Drifts f.value

instance (f : Field) : Decidable f.Drifts := by
  unfold Field.Drifts
  infer_instance

end ChannelPreset
