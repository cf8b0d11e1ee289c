import Mathlib.Tactic.Lemma
import RecordStore.Value.Equality

/-!
# Induction on values

A property holds of every value if it holds of the values without parts and passes from the items to
a list or a tuple, and from the keys and values of its entries to a mapping.
-/

namespace RecordStore.Value

/-- A key of a mapping is smaller than the mapping. -/
lemma sizeOf_key_lt {entries : List (Value × Value)} {entry : Value × Value}
    (h : entry ∈ entries) : sizeOf entry.1 < sizeOf (Value.map entries) := by
  have hentry := List.sizeOf_lt_of_mem h
  obtain ⟨key, v⟩ := entry
  simp only [Prod.mk.sizeOf_spec, Value.map.sizeOf_spec] at hentry ⊢
  omega

/-- A value of a mapping is smaller than the mapping. -/
lemma sizeOf_value_lt {entries : List (Value × Value)} {entry : Value × Value}
    (h : entry ∈ entries) : sizeOf entry.2 < sizeOf (Value.map entries) := by
  have hentry := List.sizeOf_lt_of_mem h
  obtain ⟨key, v⟩ := entry
  simp only [Prod.mk.sizeOf_spec, Value.map.sizeOf_spec] at hentry ⊢
  omega

/-- Induction on the parts of a value. -/
@[elab_as_elim]
theorem inductionOn {P : Value → Prop} (v : Value)
    (scalar : ∀ v : Value, v.identity?.isSome = true → P v)
    (list : ∀ items, (∀ v ∈ items, P v) → P (.list items))
    (tuple : ∀ items, (∀ v ∈ items, P v) → P (.tuple items))
    (map : ∀ entries, (∀ entry ∈ entries, P entry.1 ∧ P entry.2) → P (.map entries)) : P v := by
  cases v with
  | list items => exact list items fun v hv => inductionOn v scalar list tuple map
  | tuple items => exact tuple items fun v hv => inductionOn v scalar list tuple map
  | map entries =>
    exact map entries fun entry hentry =>
      ⟨inductionOn entry.1 scalar list tuple map, inductionOn entry.2 scalar list tuple map⟩
  | _ => exact scalar _ rfl
termination_by sizeOf v
decreasing_by
  · have hless := List.sizeOf_lt_of_mem hv
    simp only [Value.list.sizeOf_spec]
    omega
  · have hless := List.sizeOf_lt_of_mem hv
    simp only [Value.tuple.sizeOf_spec]
    omega
  · exact sizeOf_key_lt hentry
  · exact sizeOf_value_lt hentry

end RecordStore.Value
