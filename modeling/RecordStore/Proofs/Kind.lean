import RecordStore.Kind.Conversion
import RecordStore.Proofs.Outcome
import RecordStore.Proofs.Value.Sameness

/-!
# Canonical forms

The form in which each kind stores its values.  Whatever a kind accepts it brings into this form,
and a value in this form is left as it is.  The canonical values of a kind that can be indexed are
plain: they can be keys, and they equal what they are the same as.
-/

namespace RecordStore.Kind

/-- Whether a value is in the form in which a kind stores it. -/
def isCanonical (kind : Kind) (v : Value) : Bool :=
  match kind, v with
  | .string, .text _ => true
  | .number, .int _ => true
  | .number, .float x => x.isFinite
  | .boolean, .bool _ => true
  | .date, .date _ => true
  | .date, .timestamp _ => true
  | .object, .map _ => true
  | .array, .list _ => true
  | _, _ => false

/-- What is a date it brings into the form of one. -/
lemma isCanonical_coerce_date {v : Value} (h : v.toDate.toOption.isSome = true) :
    date.isCanonical (date.coerce v) = true := by
  cases v with
  | date d => rfl
  | timestamp t => rfl
  | text s =>
    rw [Value.toDate] at h
    cases hs : Moment.parse? s with
    | none => simp [hs, Except.toOption] at h
    | some moment =>
      rw [coerce, hs]
      cases moment <;> rfl
  | _ => simp [Value.toDate, Except.toOption] at h

/-- What a kind accepts it brings into canonical form. -/
theorem isCanonical_coerce {kind : Kind} {v : Value} (h : kind.accepts v = .ok true) :
    kind.isCanonical (kind.coerce v) = true := by
  cases kind with
  | date => exact isCanonical_coerce_date (by simpa [accepts] using h)
  | number =>
    cases v with
    | float x => simpa [accepts, coerce, isCanonical] using h
    | int i => rfl
    | _ => simp [accepts] at h
  | _ => cases v <;> first | rfl | simp [accepts] at h

/-- A value in canonical form is left as it is. -/
theorem coerce_eq_self {kind : Kind} {v : Value} (h : kind.isCanonical v = true) :
    kind.coerce v = v := by
  cases kind <;> cases v <;> first | rfl | simp [isCanonical] at h

/-- An absent value is left as it is. -/
lemma coerce_of_isNull {kind : Kind} {v : Value} (h : v.isNull = true) : kind.coerce v = v := by
  cases v with
  | null => cases kind <;> rfl
  | _ => cases h

/-- No value in canonical form is absent. -/
theorem isNull_of_isCanonical {kind : Kind} {v : Value} (h : kind.isCanonical v = true) :
    v.isNull = false := by
  cases v with
  | null => cases kind <;> cases h
  | _ => rfl

/-- The canonical values of a kind that can be indexed are plain. -/
theorem isPlain_of_isCanonical {kind : Kind} {v : Value} (hkind : kind.isIndexable = true)
    (h : kind.isCanonical v = true) : v.isPlain = true := by
  cases kind with
  | object => cases hkind
  | array => cases hkind
  | number =>
    cases v with
    | float x => cases x <;> first | rfl | simp [isCanonical, Binary64.isFinite] at h
    | int i => rfl
    | _ => simp [isCanonical] at h
  | _ => cases v <;> first | rfl | simp [isCanonical] at h

/-- A default is in canonical form. -/
theorem isCanonical_of_coerceDefault {kind : Kind} {v w : Value}
    (h : kind.coerceDefault v = .ok w) : kind.isCanonical w = true := by
  obtain ⟨u, -, h⟩ := Outcome.seq_eq_ok.mp h
  obtain ⟨accepted, haccepts, h⟩ := Outcome.seq_eq_ok.mp h
  cases accepted with
  | false => simp [throw, throwThe, MonadExceptOf.throw] at h
  | true =>
    obtain rfl := Outcome.pure_eq_ok.mp h
    exact isCanonical_coerce haccepts

end RecordStore.Kind
