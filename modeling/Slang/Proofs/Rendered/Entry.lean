import Slang.Report
import Mathlib.Data.List.Basic

/-!
# What the entry of a row says

JSON and YAML show a row as an entry of named fields. Here is what the fields are, without looking at how
they are written (`Row.Entry`), and that the record of a row is such an entry (`Row.entry_record`).
-/

namespace Slang.Report

/-- **What a row says under the name of a field.** A value is mentioned only if it is known. -/
inductive Row.Tells (r : Row) : Text → Scalar → Prop where
  | scope : r.Tells "scope" (.text r.scope)
  | scopeId : r.Tells "scope_id" (.int r.scopeId)
  | depth : r.Tells "depth" (.int r.depth)
  | name : r.Tells "name" (.text r.name)
  | augmented : r.Tells "augmented_name" (.text r.augmented)
  | type : r.Tells "type" (.text r.type)
  | line : r.Tells "line" (.int r.line)
  | value (h : r.value ≠ []) : r.Tells "value" (.text r.value)
  | calculated : r.Tells "calculated" (.bool r.calculated)
  | signature : r.Tells "signature" (.text r.signature)
  | descriptor : r.Tells "descriptor" (.text r.descriptor)
  | inferred : r.Tells "inferred" (.bool r.inferred)

/-- The names of all fields, in the order of an entry. -/
def fieldNames : List Text :=
  ["scope", "scope_id", "depth", "name", "augmented_name", "type", "line", "value", "calculated",
    "signature", "descriptor", "inferred"]

/-- **The entry of a row**: all that the row says and nothing else, each field once and in order. -/
structure Row.Entry (r : Row) (fs : Record) : Prop where
  tells : ∀ k v, (k, v) ∈ fs ↔ r.Tells k v
  order : (fs.map Prod.fst).Sublist fieldNames

/-- The record of a row holds what the row says. -/
theorem Row.mem_record_iff (r : Row) (k : Text) (v : Scalar) : (k, v) ∈ r.record ↔ r.Tells k v := by
  -- the value is the only field that may be missing
  have hvalue : (k, v) ∈ (if r.value.isEmpty then [] else [("value", .text r.value)] : Record) ↔
      r.value ≠ [] ∧ k = "value" ∧ v = .text r.value := by
    by_cases hempty : r.value = []
    · rw [if_pos (List.isEmpty_iff.mpr hempty)]
      exact iff_of_false List.not_mem_nil fun h => h.1 hempty
    · rw [if_neg fun h => hempty (List.isEmpty_iff.mp h), List.mem_singleton, Prod.mk.injEq]
      exact (and_iff_right hempty).symm
  unfold Row.record
  dsimp only
  rw [List.mem_append, List.mem_append, hvalue]
  simp only [List.mem_cons, Prod.mk.injEq, List.not_mem_nil, or_false]
  constructor
  · rintro (((⟨rfl, rfl⟩ | ⟨rfl, rfl⟩ | ⟨rfl, rfl⟩ | ⟨rfl, rfl⟩ | ⟨rfl, rfl⟩ | ⟨rfl, rfl⟩ | ⟨rfl, rfl⟩) |
      ⟨hne, rfl, rfl⟩) | ⟨rfl, rfl⟩ | ⟨rfl, rfl⟩ | ⟨rfl, rfl⟩ | ⟨rfl, rfl⟩)
    · exact .scope
    · exact .scopeId
    · exact .depth
    · exact .name
    · exact .augmented
    · exact .type
    · exact .line
    · exact .value hne
    · exact .calculated
    · exact .signature
    · exact .descriptor
    · exact .inferred
  · intro h
    cases h with
    | value hne => exact .inl (.inr ⟨hne, rfl, rfl⟩)
    | _ => simp only [and_self, true_or, or_true]

/-- **The record of a row is its entry.** -/
theorem Row.entry_record (r : Row) : r.Entry r.record where
  tells := r.mem_record_iff
  order := by
    unfold Row.record fieldNames
    cases r.value.isEmpty with
    | true => exact List.eraseIdx_sublist fieldNames 7
    | false => exact List.Sublist.refl _

/-- An entry is never empty. -/
theorem Row.Entry.ne_nil {r : Row} {fs : Record} (h : r.Entry fs) : fs ≠ [] :=
  List.ne_nil_of_mem ((h.tells _ _).mpr .name)

end Slang.Report
