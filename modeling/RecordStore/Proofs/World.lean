import RecordStore.Proofs.Disk
import RecordStore.Proofs.Snapshot.Restored

/-!
# Effects on the world

Effects change the disk at the places of the snapshots that are saved, and add notices.  If no notice
tells of a failure, every snapshot has been written as a whole, and what is read from its file is what
the value becomes when it is restored.
-/

namespace RecordStore

open Snapshot (draft)

variable {world : World} {effects : List Effect} {path : String} {v : Value}

/-! ## Snapshots on the disk -/

/-- A file holds the complete snapshot of a value. -/
structure Disk.Stores (disk : Disk) (path : String) (v : Value) : Prop where
  complete : (draft v).complete = true
  file : disk.find? path = some (.file (.text (String.ofList (draft v).chars)))

/-- What is read from the snapshot of a value is what the value becomes. -/
theorem Disk.Stores.readSnapshot {disk : Disk} (h : disk.Stores path v) :
    disk.readSnapshot path =
      match Snapshot.restored v with
      | .ok w => .ok w
      | .error .malformed => .error (.unreadable path)
      | .error (.fault fault) => .error fault := by
  rw [Disk.readSnapshot, h.file]
  dsimp only
  rewrite [String.toList_ofList, Snapshot.read_draft h.complete]
  rfl

/-- A snapshot that is read holds a value that comes back as what is read. -/
lemma Disk.Stores.restored_eq_ok {disk : Disk} {w : Value} (h : disk.Stores path v)
    (hread : disk.readSnapshot path = .ok w) : Snapshot.restored v = .ok w := by
  rw [h.readSnapshot] at hread
  split at hread
  · rename_i u hu
    rw [hu, Except.ok.inj hread]
  · cases hread
  · cases hread

/-- A snapshot stays if the file does. -/
lemma Disk.Stores.congr {disk disk' : Disk} (h : disk.Stores path v)
    (hfind : disk'.find? path = disk.find? path) : disk'.Stores path v :=
  ⟨h.complete, hfind.trans h.file⟩

/-- What is read from a file only depends on what is found under its path. -/
lemma Disk.readSnapshot_congr {disk disk' : Disk} (hfind : disk'.find? path = disk.find? path) :
    disk'.readSnapshot path = disk.readSnapshot path := by
  rw [Disk.readSnapshot, Disk.readSnapshot, hfind]

namespace World

/-! ## Saving -/

/-- No snapshot has failed to be written. -/
def AllSaved (world : World) : Prop :=
  ∀ path, Notice.saveFailed path ∉ world.notices

instance (world : World) : Decidable world.AllSaved :=
  let isSuccess : Notice → Bool
    | .saveFailed _ => false
    | _ => true
  decidable_of_iff (world.notices.all isSuccess = true) <| by
    rw [List.all_eq_true]
    constructor
    · intro h path hmem
      exact absurd (h _ hmem) Bool.false_ne_true
    · intro h notice hmem
      cases notice <;> first | rfl | exact absurd hmem (h _)

/-- If nothing fails in a longer history, nothing has failed before. -/
lemma AllSaved.of_prefix {world' : World} (h : world'.AllSaved)
    (hnotices : world.notices <+: world'.notices) : world.AllSaved :=
  fun path hmem => h path (hnotices.subset hmem)

/-- Saving a snapshot writes its file, or leaves the disk and reports a failure. -/
lemma save_cases (world : World) (path : String) (v : Value) :
    (∃ disk, world.disk.write path (.text (String.ofList (draft v).chars)) = .ok disk ∧
        world.save path v = ⟨disk, world.notices ++
          [if (draft v).complete = true then .saved path else .saveFailed path]⟩) ∨
      world.save path v = ⟨world.disk, world.notices ++ [.saveFailed path]⟩ := by
  rw [save, saveSnapshot]
  cases hwrite : world.disk.write path (.text (String.ofList (draft v).chars)) with
  | error fault => exact Or.inr rfl
  | ok disk => exact Or.inl ⟨disk, rfl, rfl⟩

/-- Saving a snapshot adds a notice. -/
lemma notices_save (world : World) (path : String) (v : Value) :
    ∃ notice, (world.save path v).notices = world.notices ++ [notice] := by
  rcases save_cases world path v with ⟨disk, -, heq⟩ | heq
  · exact ⟨_, congrArg World.notices heq⟩
  · exact ⟨_, congrArg World.notices heq⟩

/-- Saving a snapshot changes the disk at the place of its file. -/
lemma differsWithin_save (world : World) (path : String) (v : Value) :
    world.disk.DiffersWithin (world.save path v).disk [Path.ofText path] := by
  rcases save_cases world path v with ⟨disk, hwrite, heq⟩ | heq
  · rw [heq]
    exact Disk.differsWithin_write hwrite
  · rw [heq]
    exact Disk.differsWithin_refl _ _

/-- If no failure is reported the file has been written and holds the snapshot. -/
theorem stores_save (h : (world.save path v).AllSaved) :
    (world.save path v).disk.Stores path v ∧
      world.disk.write path (.text (String.ofList (draft v).chars)) =
        .ok (world.save path v).disk := by
  rcases save_cases world path v with ⟨disk, hwrite, heq⟩ | heq
  · rw [heq] at h ⊢
    have hcomplete : (draft v).complete = true := by
      by_contra hpart
      rw [if_neg hpart] at h
      exact h path (by simp)
    exact ⟨⟨hcomplete, Disk.find?_write hwrite⟩, hwrite⟩
  · rw [heq] at h
    exact absurd (by simp) (h path)

/-! ## Effects one after the other -/

/-- The paths of the snapshots that effects save. -/
def savedPaths (effects : List Effect) : List String :=
  effects.filterMap fun
    | .save path _ => some path
    | .note _ => none

/-- The first effect comes before the others. -/
lemma performAll_cons (world : World) (effect : Effect) (effects : List Effect) :
    world.performAll (effect :: effects) = (world.perform effect).performAll effects := rfl

/-- Effects add notices. -/
lemma notices_prefix_performAll (world : World) (effects : List Effect) :
    world.notices <+: (world.performAll effects).notices := by
  induction effects generalizing world with
  | nil => exact List.prefix_refl _
  | cons effect effects ih =>
    refine List.IsPrefix.trans ?_ (ih (world.perform effect))
    cases effect with
    | save path v =>
      obtain ⟨notice, hnotice⟩ := notices_save world path v
      exact ⟨[notice], hnotice.symm⟩
    | note notice => exact ⟨[notice], rfl⟩

/-- Effects change the disk at the places of the files that they save. -/
theorem differsWithin_performAll (world : World) {effects : List Effect} {places : List Path}
    (h : ∀ path ∈ savedPaths effects, Path.ofText path ∈ places) :
    world.disk.DiffersWithin (world.performAll effects).disk places := by
  induction effects generalizing world with
  | nil => exact Disk.differsWithin_refl _ _
  | cons effect effects ih =>
    rw [performAll_cons]
    cases effect with
    | save path v =>
      have hpath : Path.ofText path ∈ places := h path (by simp [savedPaths])
      have hsub : [Path.ofText path] ⊆ places := fun other hother =>
        List.mem_singleton.mp hother ▸ hpath
      have hfirst := (differsWithin_save world path v).mono hsub
      exact hfirst.trans (ih (world.save path v) fun other hother =>
        h other (by simpa [savedPaths] using Or.inr hother))
    | note notice =>
      exact ih (world.note notice) fun other hother => h other (by simpa [savedPaths] using hother)

/-- Effects change the disk at the places of the files that they save, and nowhere else. -/
lemma differsWithin_savedPaths (world : World) (effects : List Effect) :
    world.disk.DiffersWithin (world.performAll effects).disk
      ((savedPaths effects).map Path.ofText) :=
  differsWithin_performAll world fun _ hpath => List.mem_map_of_mem hpath

/-- If no failure is reported and no file is written twice, every file holds its snapshot after all
effects. -/
theorem stores_performAll {effects : List Effect} (hsaved : (world.performAll effects).AllSaved)
    (hapart : ((savedPaths effects).map Path.ofText).Nodup) (h : .save path v ∈ effects) :
    (world.performAll effects).disk.Stores path v := by
  induction effects generalizing world with
  | nil => cases h
  | cons effect effects ih =>
    rw [performAll_cons] at hsaved ⊢
    cases effect with
    | note notice =>
      rcases List.mem_cons.mp h with heq | hlater
      · cases heq
      · exact ih hsaved hapart hlater
    | save first w =>
      obtain ⟨hfirst, hrest⟩ := List.nodup_cons.mp hapart
      rcases List.mem_cons.mp h with heq | hlater
      · obtain ⟨rfl, rfl⟩ := Effect.save.inj heq
        have hnow : (world.save path v).AllSaved :=
          hsaved.of_prefix (notices_prefix_performAll _ effects)
        have hlater := differsWithin_savedPaths (world.save path v) effects
        exact (stores_save hnow).1.congr (hlater.find? hfirst)
      · exact ih hsaved hrest hlater

/-- After effects that save complete snapshots, a file is as it was or holds one that has been saved in it,
also if some of them could not be written, as long as the other ones have places of their own. -/
theorem node?_performAll {effects : List Effect}
    (hcomplete : ∀ other v, .save other v ∈ effects → (draft v).complete = true)
    (hplaces : ∀ other v, .save other v ∈ effects →
      other = path ∨ Path.ofText path ≠ Path.ofText other) :
    (world.performAll effects).disk.node? (Path.ofText path) =
        world.disk.node? (Path.ofText path) ∨
      ∃ v, .save path v ∈ effects ∧ (world.performAll effects).disk.Stores path v := by
  induction effects generalizing world with
  | nil => exact Or.inl rfl
  | cons effect effects ih =>
    have hlater := @ih (world.perform effect)
      (fun other v h => hcomplete other v (List.mem_cons_of_mem _ h))
      (fun other v h => hplaces other v (List.mem_cons_of_mem _ h))
    rw [performAll_cons]
    rcases hlater with hsame | ⟨v, hv, hstores⟩
    · cases effect with
      | note notice => exact Or.inl hsame
      | save other v =>
        rcases hplaces other v List.mem_cons_self with rfl | hother
        · rcases save_cases world other v with ⟨disk, hwrite, heq⟩ | heq
          · have hdiffers := differsWithin_savedPaths (world.perform (.save other v)) effects
            have hdisk : (world.perform (.save other v)).disk = disk := by rw [perform, heq]
            have hfound := Disk.SameDirectories.find? hdiffers.directories hsame
            rw [hdisk] at hfound
            exact Or.inr ⟨v, List.mem_cons_self, hcomplete other v List.mem_cons_self,
              hfound.trans (Disk.find?_write hwrite)⟩
          · have hkept : (world.perform (.save other v)).disk = world.disk := by rw [perform, heq]
            rw [hkept] at hsame
            exact Or.inl hsame
        · have hkept := (differsWithin_save world other v).others _ (mt List.mem_singleton.mp hother)
          exact Or.inl (hsame.trans hkept)
    · exact Or.inr ⟨v, List.mem_cons_of_mem _ hv, hstores⟩

/-! ## Removing files -/

/-- Removing a file erases it, or leaves the disk and reports a failure. -/
lemma removeFile_cases (world : World) (path : String) :
    (∃ disk, world.disk.removeFile? path = some disk ∧
        world.removeFile path = (⟨disk, world.notices⟩, true)) ∨
      world.disk.removeFile? path = none ∧
        world.removeFile path = (⟨world.disk, world.notices ++ [.removalFailed path]⟩, false) := by
  rw [removeFile]
  cases world.disk.removeFile? path with
  | none => exact Or.inr ⟨rfl, rfl⟩
  | some disk => exact Or.inl ⟨disk, rfl, rfl⟩

/-- Removing a file changes the disk at its place. -/
lemma differsWithin_removeFile (world : World) (path : String) :
    world.disk.DiffersWithin (world.removeFile path).1.disk [Path.ofText path] := by
  rcases removeFile_cases world path with ⟨disk, hremove, heq⟩ | ⟨-, heq⟩
  · rw [heq]
    exact Disk.differsWithin_removeFile? hremove
  · rw [heq]
    exact Disk.differsWithin_refl _ _

/-- When a file is removed, what is found under any path stays or is no longer there. -/
lemma find?_removeFile_or (world : World) (path other : String) :
    (world.removeFile path).1.disk.find? other = world.disk.find? other ∨
      (world.removeFile path).1.disk.find? other = none := by
  rcases removeFile_cases world path with ⟨disk, hremove, heq⟩ | ⟨-, heq⟩
  · rw [heq]
    by_cases hsame : Path.ofText other = Path.ofText path
    · have hdirectories := (Disk.differsWithin_removeFile? hremove).directories
      have hfind := Disk.find?_removeFile? hremove
      dsimp only
      rw [Disk.find?_eq_bind, Disk.find?_eq_bind, hdirectories.place?]
      cases hplace : world.disk.place? other with
      | none => exact Or.inl rfl
      | some place =>
        rcases Disk.removeFile?_eq_some hremove with ⟨-, rfl⟩ | ⟨erased, herased, hfree, rfl⟩
        · exact Or.inl rfl
        · right
          rw [Disk.eq_ofText_of_place? hplace, hsame, ← Disk.eq_ofText_of_place? herased]
          exact Disk.node?_erase_self hfree
    · left
      exact (Disk.differsWithin_removeFile? hremove).find? (mt List.mem_singleton.mp hsame)
  · rw [heq]
    exact Or.inl rfl

/-- A file that is removed is no longer there, unless it is a directory. -/
lemma find?_removeFile {path : String} (h : world.disk.find? path ≠ some .directory) :
    (world.removeFile path).1.disk.find? path = none := by
  obtain ⟨disk, hremove⟩ := Disk.exists_removeFile? h
  rw [removeFile, hremove]
  exact Disk.find?_removeFile? hremove

/-- Removing a file adds notices. -/
lemma notices_prefix_removeFile (world : World) (path : String) :
    world.notices <+: (world.removeFile path).1.notices := by
  rcases removeFile_cases world path with ⟨disk, -, heq⟩ | ⟨-, heq⟩
  · rw [heq]
  · rw [heq]
    exact List.prefix_append _ _

end World

end RecordStore
