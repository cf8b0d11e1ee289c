import RecordStore.Proofs.Snapshot.Dates
import RecordStore.Proofs.World

/-!
# Values that snapshots keep

What a snapshot keeps as it is.  A value is portable if it is built, through lists and mappings with
texts as keys, from what the written form has room for: integers of at most as many digits as can be
written, finite numbers, and dates and timestamps by a year of four digits, without a fraction of a
second and without an offset.  A portable value can be written wherever a file can be put, and what
is read from the file is the value itself: each item of the same type at the same place, a whole
number no floating-point number, a zero of its sign, and the keys in their order.
-/

namespace RecordStore

namespace Snapshot

/-- A value is built from parts that the written form has room for. -/
inductive IsPortable : Value → Prop
  | null : IsPortable .null
  | bool (b : Bool) : IsPortable (.bool b)
  | int (i : Int) (h : i.natAbs < 10 ^ Number.digitLimit) : IsPortable (.int i)
  | float (negative : Bool) (significand : Nat) (exponent : Int)
      (canonical : Binary64.Canonical significand exponent) :
      IsPortable (.float (.finite negative significand exponent canonical))
  | text (s : String) : IsPortable (.text s)
  | date (d : Date) (h : 1000 ≤ d.year) : IsPortable (.date d)
  | timestamp (t : Timestamp) (hyear : 1000 ≤ t.date.year) (hsecond : t.microsecond = 0)
      (hnaive : t.offset = none) : IsPortable (.timestamp t)
  | list (items : List Value) (h : ∀ v ∈ items, IsPortable v) : IsPortable (.list items)
  | map (entries : List (Value × Value)) (hkeys : ObjectKeys entries)
      (h : ∀ entry ∈ entries, IsPortable entry.2) : IsPortable (.map entries)

/-- An integer of few enough digits lasts. -/
lemma lasts_int {i : Int} (h : i.natAbs < 10 ^ Number.digitLimit) : Lasts (.int i) := by
  have htext := Number.integerText?_eq_some.mpr ⟨h, rfl⟩
  refine ⟨?_, rfl⟩
  rw [draft, write, integerText?, htext]
  rfl

/-- A portable value lasts. -/
theorem lasts_of_isPortable {v : Value} (h : IsPortable v) : Lasts v := by
  induction h with
  | null => exact ⟨rfl, rfl⟩
  | bool b => exact ⟨rfl, rfl⟩
  | int i hi => exact lasts_int hi
  | float negative significand exponent canonical => exact ⟨rfl, rfl⟩
  | text s => exact ⟨rfl, rfl⟩
  | date d hyear =>
    refine (lasts_date_iff rfl).mpr ⟨fun e he => ?_, trivial⟩
    obtain rfl := Option.some.inj he
    exact hyear
  | timestamp t hyear hsecond hnaive =>
    refine (lasts_date_iff rfl).mpr ⟨fun e he => ?_, hsecond, hnaive⟩
    obtain rfl := Option.some.inj he
    exact hyear
  | list items _ ih => exact lasts_list.mpr ih
  | map entries hkeys _ ih => exact (lasts_map hkeys).mpr ih

end Snapshot

open Snapshot (IsPortable dateMark timestampMark)

/-- A file can be written wherever a path leads to a place that is no directory. -/
lemma Disk.exists_write {disk : Disk} {path : String} {place : Path}
    (hplace : disk.place? path = some place) (hfree : disk.isDirectory place = false)
    (content : Content) : ∃ disk', disk.write path content = .ok disk' := by
  have hresolve : disk.resolve path = .ok place := by
    rw [Disk.place?] at hplace
    cases h : disk.resolve path with
    | error fault =>
      rw [h] at hplace
      cases hplace
    | ok other =>
      rw [h] at hplace
      rw [Option.some.inj hplace]
  refine ⟨disk.put place (.file content), ?_⟩
  rw [Disk.write, hresolve]
  simp only [bind, Except.bind, hfree, Bool.false_eq_true, if_false]
  rfl

/-- A portable value can be saved wherever a path leads to a place that is no directory, and what is
then read from the file is the value. -/
theorem World.readSnapshot_saveSnapshot {v : Value} (hv : IsPortable v) {disk : Disk}
    {path : String} {place : Path} (hplace : disk.place? path = some place)
    (hfree : disk.isDirectory place = false) :
    ∃ disk', World.saveSnapshot disk path v = (disk', true) ∧ disk'.readSnapshot path = .ok v := by
  obtain ⟨hcomplete, hrestored⟩ := Snapshot.lasts_of_isPortable hv
  obtain ⟨disk', hwrite⟩ :=
    Disk.exists_write hplace hfree (.text (String.ofList (Snapshot.draft v).chars))
  have hstores : disk'.Stores path v := ⟨hcomplete, Disk.find?_write hwrite⟩
  refine ⟨disk', ?_, ?_⟩
  · rw [World.saveSnapshot, hwrite, hcomplete]
  · rw [hstores.readSnapshot, hrestored]

/-- A tree with a zero of either kind, quotes and other marks in its texts, a character beyond the
first plane, dates and empty containers is kept as it is, in the order of its keys. -/
theorem World.readSnapshot_saveSnapshot_tree :
    let v : Value := .map [
      (.text "b\"\\", .list [.int 0, .float (Binary64.zero false), .float (Binary64.zero true),
        .bool true, .null]),
      (.text "", .text "\x00\n/é𝄞"),
      (.text "a", .map [(.text "on", .date ⟨2024, 2, 29, by decide⟩),
        (.text "at", .timestamp ⟨⟨1000, 1, 1, by decide⟩, 23, 59, 58, 0, none, by decide⟩)]),
      (.text "empty", .list [.list [], .map []])]
    IsPortable v ∧ Disk.empty.place? "f.json" = some ["f.json"] ∧
      Disk.empty.isDirectory ["f.json"] = false ∧
      ∃ disk', World.saveSnapshot .empty "f.json" v = (disk', true) ∧
        disk'.readSnapshot "f.json" = .ok v := by
  intro v
  have hnumbers : IsPortable (.list [.int 0, .float (Binary64.zero false),
      .float (Binary64.zero true), .bool true, .null]) := by
    refine .list _ fun u hu => ?_
    simp only [List.mem_cons, List.not_mem_nil, or_false] at hu
    rcases hu with rfl | rfl | rfl | rfl | rfl
    · exact .int 0 (Nat.pow_pos (by decide))
    · exact .float _ _ _ _
    · exact .float _ _ _ _
    · exact .bool true
    · exact .null
  have hdates : IsPortable (.map [(.text "on", .date ⟨2024, 2, 29, by decide⟩),
      (.text "at", .timestamp ⟨⟨1000, 1, 1, by decide⟩, 23, 59, 58, 0, none, by decide⟩)]) := by
    refine .map _ ⟨by simp, (by decide +kernel : List.Pairwise _ _),
      by simp [timestampMark, dateMark]⟩ ?_
    simp only [List.forall_mem_cons]
    exact ⟨.date _ (by decide), .timestamp _ (by decide) rfl rfl, List.forall_mem_nil _⟩
  have hempty : IsPortable (.list [.list [], .map []]) := by
    refine .list _ ?_
    simp only [List.forall_mem_cons]
    have hnothing : Snapshot.ObjectKeys [] := ⟨List.forall_mem_nil _, .nil, List.forall_mem_nil _⟩
    exact ⟨.list _ (List.forall_mem_nil _), .map _ hnothing (List.forall_mem_nil _),
      List.forall_mem_nil _⟩
  have hv : IsPortable v := by
    refine .map _ ⟨by simp, (by decide +kernel : List.Pairwise _ _),
      by simp [timestampMark, dateMark]⟩ ?_
    simp only [List.forall_mem_cons]
    exact ⟨hnumbers, .text _, hdates, hempty, List.forall_mem_nil _⟩
  have hplace : Disk.empty.place? "f.json" = some ["f.json"] := by decide +kernel
  have hfree : Disk.empty.isDirectory ["f.json"] = false := by decide +kernel
  exact ⟨hv, hplace, hfree, World.readSnapshot_saveSnapshot hv hplace hfree⟩

end RecordStore
