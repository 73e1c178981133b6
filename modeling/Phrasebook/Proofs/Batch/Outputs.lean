import Phrasebook.Batch.Output

/-!
# Outputs read back

An output is encoded with a null both when there is no value and when the value is null, and the reader
takes a null for none (`Output.asRead`). Nothing else is lost: `outputs_read_back` says what a list of outputs
becomes when it is encoded and read, and `output_null_read_back` shows the one output that changes.
-/

namespace Phrasebook

namespace Output

/-- The output that is read where an output was written: a null is taken for no value. -/
def asRead : Output → Output
  | .value (some .null) => .value none
  | output => output

theorem fromValue_toValue (output : Output) : fromValue output.toValue = .ok output.asRead := by
  cases output with
  | value given =>
    rcases given with _ | _ | _ | _ | _ | _ | _ | _ <;> rfl
  | failure message => rfl

/-- What is lost is lost in writing. -/
theorem toValue_asRead (output : Output) : output.asRead.toValue = output.toValue := by
  unfold asRead
  split <;> rfl

theorem asRead_eq_self_iff {output : Output} :
    output.asRead = output ↔ output ≠ .value (some .null) := by
  unfold asRead
  split
  · simp
  · next isNull => simpa using isNull

/-- Outputs are written alike only if they are read alike. -/
theorem toValue_eq_iff {output other : Output} :
    output.toValue = other.toValue ↔ output.asRead = other.asRead := by
  constructor
  · intro alike
    have read := other.fromValue_toValue
    rw [← alike, output.fromValue_toValue] at read
    exact Except.ok.inj read
  · intro alike
    rw [← output.toValue_asRead, alike, other.toValue_asRead]

end Output

/-- **Outputs are read back**, but for null values, which are taken for none. So a list of outputs comes back
as it was exactly if none of its values is null, and of the values that a handler can return only null is
written like the output of a command without a handler. -/
theorem outputs_read_back (outputs : List Output) :
    fromValue (.array (outputs.map Output.toValue)) = .ok (outputs.map Output.asRead) ∧
      (fromValue (.array (outputs.map Output.toValue)) = .ok outputs ↔
        .value (some .null) ∉ outputs) ∧
      ∀ given : Value, (Output.value (some given)).toValue = (Output.value none).toValue ↔
        given = .null := by
  have read := fromValue_map Output.fromValue_toValue outputs
  refine ⟨read, ?_, fun given => ?_⟩
  · have unchanged : outputs.map Output.asRead = outputs ↔
        ∀ output ∈ outputs, output ≠ .value (some .null) := by
      conv => lhs; rhs; rw [← List.map_id outputs]
      rw [List.map_inj_left]
      exact forall₂_congr fun output _ => Output.asRead_eq_self_iff
    rw [read, Except.ok.injEq, unchanged]
    exact ⟨fun h member => h _ member rfl, fun h output member isNull => h (isNull ▸ member)⟩
  · rw [Output.toValue_eq_iff]
    constructor
    · refine fun alike => Classical.byContradiction fun isValue => ?_
      have kept : (Output.value (some given)).asRead = .value (some given) :=
        Output.asRead_eq_self_iff.2 (by simpa using isValue)
      rw [kept] at alike
      cases alike
    · rintro rfl
      rfl

/-- A null value is read back as none. -/
theorem output_null_read_back :
    fromValue (.array ([Output.value (some .null)].map Output.toValue)) = .ok [Output.value none] ∧
      fromValue (.array ([Output.value (some .null)].map Output.toValue)) ≠
        .ok [Output.value (some .null)] := by
  have read := fromValue_map Output.fromValue_toValue [.value (some .null)]
  refine ⟨read, ?_⟩
  rw [read]
  simp [Output.asRead]

end Phrasebook
