import RecordStore.Proofs.Escaping

/-!
# The rule for a description

The rule by which the description of a column is read, stated apart from the way in which it is read.  Of
the kind, the size, the default, uniqueness and numbering, in this order, the first that is not in order is
objected to; a description with which all is in order says a column.  The rule says exactly one thing of
every description, and descriptions are read as it says unless the reading breaks off: at a kind or a
wrong size that has no text to be reported by, or at a default that is an integer out of the range of
floating-point numbers.
-/

namespace RecordStore

/-! ## Defaults -/

namespace Kind

/-- The default that a column of a kind has if a description gives a value for it. -/
def declaredDefault (kind : Kind) (v : Value) : Except Fault (Option Value) :=
  if v.isNull then .ok none else (kind.coerceDefault v).map some

/-- The reason for which a default is refused is the wording of the fault. -/
lemma reason_eq_message {fault : Fault} {reason : String} (h : Column.refusal? fault = some reason) :
    reason = fault.message := by
  cases fault <;> first | exact (Option.some.inj h).symm | cases h

/-- A default that is not taken is refused by its fault, unless it is an integer out of range. -/
lemma refusal?_of_coerceDefault {kind : Kind} {v : Value} {fault : Fault}
    (h : kind.coerceDefault v = .error fault) (hfinite : ¬kind.DefaultOverflows v) :
    Column.refusal? fault = some fault.message := by
  have htold : ∀ {reason}, Column.refusal? fault = some reason →
      Column.refusal? fault = some fault.message := fun hreason => by
    rw [hreason, reason_eq_message hreason]
  rcases kind.convertDefault_cases v with ⟨w, hw⟩ | ⟨raised, reason, hraised, hreason⟩
  · rw [coerceDefault, hw] at h
    rcases accepts_cases kind w with ⟨-, hover⟩ | ⟨⟨accepted, haccepts⟩, -⟩
    · exact absurd ⟨w, hw, hover⟩ hfinite
    · simp only [bind, Except.bind, haccepts] at h
      cases accepted with
      | true => cases h
      | false =>
        obtain rfl := Except.error.inj h
        rfl
  · rw [coerceDefault, hraised] at h
    obtain rfl := Except.error.inj h
    exact htold hreason

end Kind

/-! ## Columns -/

namespace Column

/-- A value is a size: none, a positive integer, or the truth value that counts as one. -/
def IsSize (v : Value) : Prop :=
  v = .null ∨ v = .bool true ∨ ∃ i : Int, 1 ≤ i ∧ v = .int i

/-- The value by which a description names the kind of its column: that of text if it gives none. -/
def kindNamed (entries : Record) : Value :=
  (Value.lookup? "type" entries).getD (.text "string")

/-- Whether a description sets a flag. -/
def isSet (flag : String) (entries : Record) : Bool :=
  (Value.entry flag entries).isTruthy

/-- Whether a description asks for distinct values; a key does. -/
def asksDistinct (entries : Record) : Bool :=
  isSet "unique" entries || isSet "primaryKey" entries

/-- The column of a description that has a kind and a default. -/
def declared (name : String) (entries : Record) (kind : Kind) (defaultValue : Option Value) : Column :=
  make (.text name) kind (.bool (isSet "required" entries)) (.bool (isSet "primaryKey" entries))
    (.bool (isSet "unique" entries)) (.bool (isSet "autoIncrement" entries)) defaultValue
    (if (Value.entry "foreignKey" entries).isTruthy then Value.entry "foreignKey" entries else .null)
    (Value.entry "size" entries)

/-- What the rule says of the description of a column: the first objection to it, or the column. -/
inductive Ruled (name : String) (entries : Record) : Except Violation Column → Prop
  | unknownKind (hnone : ∀ kind, Kind.ofName (kindNamed entries) ≠ .ok kind) :
      Ruled name entries (.error (.unknownKind (kindNamed entries).label))
  | badSize {kind : Kind} (hkind : Kind.ofName (kindNamed entries) = .ok kind)
      (hsize : ¬IsSize (Value.entry "size" entries)) :
      Ruled name entries (.error (.badSize name (Value.entry "size" entries).label))
  | badDefault {kind : Kind} {fault : Fault} (hkind : Kind.ofName (kindNamed entries) = .ok kind)
      (hsize : IsSize (Value.entry "size" entries))
      (hdefault : kind.declaredDefault (Value.entry "defaultValue" entries) = .error fault) :
      Ruled name entries (.error (.badDefault name fault.message))
  | neverUnique {kind : Kind} {d : Option Value}
      (hkind : Kind.ofName (kindNamed entries) = .ok kind)
      (hsize : IsSize (Value.entry "size" entries))
      (hdefault : kind.declaredDefault (Value.entry "defaultValue" entries) = .ok d)
      (hunique : asksDistinct entries = true) (hindexable : kind.isIndexable = false) :
      Ruled name entries (.error (.neverUnique name kind))
  | autoNotNumber {kind : Kind} {d : Option Value}
      (hkind : Kind.ofName (kindNamed entries) = .ok kind)
      (hsize : IsSize (Value.entry "size" entries))
      (hdefault : kind.declaredDefault (Value.entry "defaultValue" entries) = .ok d)
      (hunique : asksDistinct entries = true → kind.isIndexable = true)
      (hnumbered : isSet "autoIncrement" entries = true) (hother : kind ≠ .number) :
      Ruled name entries (.error (.autoNotNumber name))
  | column {kind : Kind} {d : Option Value}
      (hkind : Kind.ofName (kindNamed entries) = .ok kind)
      (hsize : IsSize (Value.entry "size" entries))
      (hdefault : kind.declaredDefault (Value.entry "defaultValue" entries) = .ok d)
      (hunique : asksDistinct entries = true → kind.isIndexable = true)
      (hnumbered : isSet "autoIncrement" entries = true → kind = .number) :
      Ruled name entries (.ok (declared name entries kind d))

/-- The reading of a description breaks off: what is to be reported has no text, or the default is an
integer out of range. -/
inductive BreaksOff (entries : Record) : Prop
  | untoldKind (huntold : ¬(kindNamed entries).IsTold)
  | untoldSize {kind : Kind} (hkind : Kind.ofName (kindNamed entries) = .ok kind)
      (hsize : ¬IsSize (Value.entry "size" entries))
      (huntold : ¬(Value.entry "size" entries).IsTold)
  | overflow {kind : Kind} (hkind : Kind.ofName (kindNamed entries) = .ok kind)
      (hsize : IsSize (Value.entry "size" entries))
      (hover : kind.DefaultOverflows (Value.entry "defaultValue" entries))

variable {name : String} {entries : Record}

/-- A size is taken as it is. -/
lemma sizeOf_of_isSize {v : Value} (h : IsSize v) (name : String) : sizeOf name v = .ok v := by
  rcases h with rfl | rfl | ⟨i, hi, rfl⟩
  · rfl
  · rfl
  · rw [sizeOf, if_pos hi]

/-- What is no size is refused by its text. -/
lemma sizeOf_of_not_isSize {v : Value} (h : ¬IsSize v) (name : String) :
    sizeOf name v =
      v.display.bind fun shown => .error (.violation (.badSize name shown)) := by
  unfold sizeOf
  split
  · exact absurd (Or.inl rfl) h
  · exact absurd (Or.inr (Or.inl rfl)) h
  · split
    · rename_i i hi
      exact absurd (Or.inr (Or.inr ⟨i, hi, rfl⟩)) h
    · rfl
  · rfl

/-- The default of a column is read as it is declared, or refused. -/
lemma defaultOf_eq {kind : Kind} {v : Value} (hfinite : ¬kind.DefaultOverflows v) (name : String) :
    defaultOf name kind v = (kind.declaredDefault v).mapError fun fault =>
      .violation (.badDefault name fault.message) := by
  rw [defaultOf, Kind.declaredDefault]
  split
  · rfl
  · cases hcoerce : kind.coerceDefault v with
    | ok w => rfl
    | error fault =>
      simp only [Kind.refusal?_of_coerceDefault hcoerce hfinite]
      rfl

/-- The column of a description is unique if the description asks for distinct values. -/
lemma isUnique_declared (name : String) (entries : Record) (kind : Kind) (d : Option Value) :
    (declared name entries kind d).isUnique = asksDistinct entries := by
  rw [isUnique, declared, make, asksDistinct]
  cases isSet "unique" entries <;> cases isSet "primaryKey" entries <;> rfl

/-- The column of a description with a kind, a size and a default is checked last of all. -/
lemma ofEntries_of_default {kind : Kind} {d : Option Value}
    (hkind : Kind.ofName (kindNamed entries) = .ok kind)
    (hsize : IsSize (Value.entry "size" entries))
    (hdefault : defaultOf name kind (Value.entry "defaultValue" entries) = .ok d) :
    ofEntries (.text name) entries =
      if asksDistinct entries && !kind.isIndexable then
        .error (.violation (.neverUnique name kind))
      else if isSet "autoIncrement" entries && kind ≠ .number then
        .error (.violation (.autoNotNumber name))
      else .ok (declared name entries kind d) := by
  have hlabel : (Value.text name).label = name := rfl
  rw [← isUnique_declared name entries kind d, ofEntries, ← kindNamed, hkind, hlabel]
  simp only [bind, Except.bind, sizeOf_of_isSize hsize, hdefault, throw, throwThe,
    MonadExceptOf.throw]
  change (if (declared name entries kind d).isUnique && !kind.isIndexable then _ else _) = _
  cases (declared name entries kind d).isUnique && !kind.isIndexable with
  | true => rfl
  | false =>
    change (if isSet "autoIncrement" entries && _ then _ else _) = _
    cases isSet "autoIncrement" entries && decide (kind ≠ .number) <;> rfl

/-- A description is read as the rule says it is, unless the reading breaks off. -/
theorem Ruled.ofEntries_eq {outcome : Except Violation Column} (h : Ruled name entries outcome)
    (hdone : ¬BreaksOff entries) :
    ofEntries (.text name) entries = outcome.mapError Fault.violation := by
  have hlabel : (Value.text name).label = name := rfl
  have hdefaultOf : ∀ {kind}, Kind.ofName (kindNamed entries) = .ok kind →
      IsSize (Value.entry "size" entries) →
        defaultOf name kind (Value.entry "defaultValue" entries) =
          (kind.declaredDefault (Value.entry "defaultValue" entries)).mapError fun fault =>
            .violation (.badDefault name fault.message) :=
    fun hkind hsize => defaultOf_eq (fun hover => hdone (.overflow hkind hsize hover)) name
  cases h with
  | unknownKind hnone =>
    have htold : (kindNamed entries).IsTold := by_contra fun h => hdone (.untoldKind h)
    obtain ⟨shown, hshown⟩ := Option.isSome_iff_exists.mp htold
    have hunknown : Kind.ofName (kindNamed entries) =
        .error (.violation (.unknownKind (kindNamed entries).label)) := by
      rw [Kind.ofName, Value.display, Value.label, hshown]
      simp only [bind, Except.bind]
      split
      · rename_i kind hkind
        refine absurd ?_ (hnone kind)
        rw [Kind.ofName, Value.display, hshown]
        simp only [bind, Except.bind, hkind]
        rfl
      · rfl
    rw [ofEntries, ← kindNamed, hunknown]
    rfl
  | badSize hkind hsize =>
    have htold : (Value.entry "size" entries).IsTold :=
      by_contra fun h => hdone (.untoldSize hkind hsize h)
    obtain ⟨shown, hshown⟩ := Option.isSome_iff_exists.mp htold
    rw [ofEntries, ← kindNamed, hkind, hlabel, sizeOf_of_not_isSize hsize, Value.display,
      Value.label, hshown]
    rfl
  | badDefault hkind hsize hdefault =>
    have hrefused := hdefaultOf hkind hsize
    rw [hdefault] at hrefused
    rw [ofEntries, ← kindNamed, hkind, hlabel]
    simp only [bind, Except.bind, sizeOf_of_isSize hsize, hrefused]
    rfl
  | neverUnique hkind hsize hdefault hunique hindexable =>
    have htaken := hdefaultOf hkind hsize
    rw [hdefault] at htaken
    rw [ofEntries_of_default hkind hsize htaken, hunique, hindexable]
    rfl
  | autoNotNumber hkind hsize hdefault hunique hnumbered hother =>
    have htaken := hdefaultOf hkind hsize
    rw [hdefault] at htaken
    rw [ofEntries_of_default hkind hsize htaken, if_neg (by simpa using hunique),
      if_pos (by simp [hnumbered, hother])]
    rfl
  | column hkind hsize hdefault hunique hnumbered =>
    have htaken := hdefaultOf hkind hsize
    rw [hdefault] at htaken
    rw [ofEntries_of_default hkind hsize htaken, if_neg (by simpa using hunique),
      if_neg (by simpa using hnumbered)]
    rfl

/-- If the reading of a description breaks off, it ends with a fault that is no refusal. -/
lemma BreaksOff.ofEntries_eq (h : BreaksOff entries) (name : String) :
    ∃ fault, ofEntries (.text name) entries = .error fault ∧ fault.isRefusal = false := by
  have hlabel : (Value.text name).label = name := rfl
  have huntold : ∀ {v : Value}, ¬v.IsTold → v.display = .error .longInteger := fun hv => by
    rw [Value.display, Option.not_isSome_iff_eq_none.mp hv]
  cases h with
  | untoldKind huntoldKind =>
    refine ⟨.longInteger, ?_, rfl⟩
    rw [ofEntries, ← kindNamed, Kind.ofName, huntold huntoldKind]
    rfl
  | untoldSize hkind hsize huntoldSize =>
    refine ⟨.longInteger, ?_, rfl⟩
    rw [ofEntries, ← kindNamed, hkind, hlabel, sizeOf_of_not_isSize hsize, huntold huntoldSize]
    rfl
  | overflow hkind hsize hover =>
    refine ⟨.overflow, ?_, rfl⟩
    have hoverflow := ((defaultOf_cases name _ _).resolve_right fun hok => hok.2 hover).1
    rw [ofEntries, ← kindNamed, hkind, hlabel]
    simp only [bind, Except.bind, sizeOf_of_isSize hsize, hoverflow]

/-- The rule says something of every description. -/
lemma exists_ruled (name : String) (entries : Record) : ∃ outcome, Ruled name entries outcome := by
  by_cases hkind : ∃ kind, Kind.ofName (kindNamed entries) = .ok kind
  · obtain ⟨kind, hkind⟩ := hkind
    by_cases hsize : IsSize (Value.entry "size" entries)
    · cases hdefault : kind.declaredDefault (Value.entry "defaultValue" entries) with
      | error fault => exact ⟨_, .badDefault hkind hsize hdefault⟩
      | ok d =>
        by_cases hunique : asksDistinct entries = true → kind.isIndexable = true
        · by_cases hnumbered : isSet "autoIncrement" entries = true → kind = .number
          · exact ⟨_, .column hkind hsize hdefault hunique hnumbered⟩
          · obtain ⟨hset, hother⟩ := Classical.not_imp.mp hnumbered
            exact ⟨_, .autoNotNumber hkind hsize hdefault hunique hset hother⟩
        · obtain ⟨hset, hindexable⟩ := Classical.not_imp.mp hunique
          exact ⟨_, .neverUnique hkind hsize hdefault hset (Bool.eq_false_iff.mpr hindexable)⟩
    · exact ⟨_, .badSize hkind hsize⟩
  · exact ⟨_, .unknownKind (not_exists.mp hkind)⟩

/-- The rule says exactly one thing of every description. -/
theorem existsUnique_ruled (name : String) (entries : Record) : ∃! outcome, Ruled name entries outcome := by
  obtain ⟨outcome, houtcome⟩ := exists_ruled name entries
  refine ⟨outcome, houtcome, fun other hother => ?_⟩
  cases houtcome <;> cases hother <;> simp_all

end Column

end RecordStore
