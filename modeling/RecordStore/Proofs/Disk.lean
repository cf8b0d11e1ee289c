import RecordStore.Proofs.Entries
import RecordStore.Proofs.Outcome
import RecordStore.Proofs.Path
import RecordStore.World

/-!
# Files on the disk

Where a path as text leads to only depends on the directories of the disk.  Writing a file and
removing one leave the directories as they are and change what stands under one path, so that what
is found under every other path stays.
-/

namespace RecordStore.Disk

variable {disk disk' : Disk} {text other : String}

/-! ## Places -/

/-- The place that a path as text leads to, if it leads anywhere. -/
def place? (disk : Disk) (text : String) : Option Path :=
  (disk.resolve text).toOption

/-- The same paths are directories of two disks. -/
def SameDirectories (disk disk' : Disk) : Prop :=
  ∀ path, disk'.isDirectory path = disk.isDirectory path

/-- What is found under a path as text stands at the place it leads to. -/
lemma find?_eq_bind (disk : Disk) (text : String) :
    disk.find? text = (disk.place? text).bind disk.node? := rfl

/-- Going through names ends where the names lead to. -/
lemma follow_eq_ok {path place : Path} {names : List String}
    (h : disk.follow text path names = .ok place) : place = names.foldl Path.step path := by
  induction names generalizing path with
  | nil => exact (Except.ok.inj h).symm
  | cons name names ih =>
    rw [follow] at h
    split at h
    · split at h
      · exact ih h
      · cases h
    · cases h
    · cases h

/-- A path as text leads to the place it denotes, if anywhere. -/
lemma eq_ofText_of_place? {place : Path} (h : disk.place? text = some place) :
    place = Path.ofText text := by
  rw [place?, resolve] at h
  split at h
  · cases h
  · split at h
    · cases h
    · split at h
      · dsimp only at h
        cases hfollow : disk.follow text (Path.split text).1 (Path.split text).2 with
        | error fault =>
          rw [hfollow] at h
          cases h
        | ok found =>
          rw [hfollow] at h
          obtain rfl := Option.some.inj h
          exact follow_eq_ok hfollow
      · cases h

/-- Whether a node is a directory. -/
lemma isDirectory_eq_true_iff {path : Path} :
    disk.isDirectory path = true ↔ disk.node? path = some .directory := by
  rw [isDirectory, decide_eq_true_eq]

/-- Going through names only depends on the directories, faults apart. -/
lemma SameDirectories.toOption_follow (h : SameDirectories disk disk') (path : Path)
    (names : List String) :
    (disk'.follow text path names).toOption = (disk.follow text path names).toOption := by
  induction names generalizing path with
  | nil => rfl
  | cons name names ih =>
    have hstuck : ∀ disk : Disk, disk.isDirectory path = false →
        (disk.follow text path (name :: names)).toOption = none := by
      intro disk hdisk
      have hnode : disk.node? path ≠ some .directory :=
        mt isDirectory_eq_true_iff.mpr (Bool.eq_false_iff.mp hdisk)
      rw [follow]
      split
      · contradiction
      · rfl
      · rfl
    cases hdirectory : disk.isDirectory path with
    | false => rw [hstuck disk hdirectory, hstuck disk' ((h path).trans hdirectory)]
    | true =>
      have hnode := isDirectory_eq_true_iff.mp hdirectory
      have hnode' := isDirectory_eq_true_iff.mp ((h path).trans hdirectory)
      rw [follow, follow, hnode, hnode']
      dsimp only
      split
      · exact ih _
      · rfl

/-- The places of paths only depend on the directories. -/
lemma SameDirectories.place? (h : SameDirectories disk disk') (text : String) :
    disk'.place? text = disk.place? text := by
  rw [Disk.place?, Disk.place?, resolve, resolve]
  split
  · rfl
  · split
    · rfl
    · split
      · exact h.toOption_follow _ _
      · rfl

/-- What leaves the directories twice leaves them. -/
lemma SameDirectories.trans {disk'' : Disk} (h : SameDirectories disk disk')
    (h' : SameDirectories disk' disk'') : SameDirectories disk disk'' :=
  fun path => (h' path).trans (h path)

/-- A path is a directory of both disks or of none. -/
lemma SameDirectories.hasDirectory (h : SameDirectories disk disk') (text : String) :
    disk'.hasDirectory text = disk.hasDirectory text := by
  have heq : ∀ disk : Disk, disk.hasDirectory text = (disk.place? text).any disk.isDirectory := by
    intro disk
    rw [Disk.hasDirectory, find?_eq_bind]
    cases disk.place? text <;> simp [isDirectory]
  rw [heq, heq, h.place?]
  cases disk.place? text with
  | none => rfl
  | some path => exact h path

/-! ## Files put and erased -/

/-- A place that is no directory lies in the tree. -/
lemma isOutside_of_isDirectory {path : Path} (h : disk.isDirectory path = false) :
    path.isOutside = false := by
  rw [Bool.eq_false_iff] at h ⊢
  intro hout
  exact h (isDirectory_eq_true_iff.mpr (by rw [node?, if_pos hout]))

/-- What has been put under a path stands there. -/
lemma node?_put_self {path : Path} (h : disk.isDirectory path = false) (node : Node) :
    (disk.put path node).node? path = some node := by
  rw [node?, isOutside_of_isDirectory h, if_neg Bool.false_ne_true]
  exact Entries.lookup_put_self _ _ _

/-- Other paths stay when something is put under one. -/
lemma node?_put_of_ne {path other : Path} (h : other ≠ path) (node : Node) :
    (disk.put path node).node? other = disk.node? other := by
  rw [node?, node?]
  split
  · rfl
  · exact Entries.lookup_put_of_ne h _ _

/-- Nothing stands under a path after it has been erased. -/
lemma node?_erase_self {path : Path} (h : disk.isDirectory path = false) :
    (disk.erase path).node? path = none := by
  rw [node?, isOutside_of_isDirectory h, if_neg Bool.false_ne_true]
  exact Entries.lookup_drop_self _ _

/-- Other paths stay when one is erased. -/
lemma node?_erase_of_ne {path other : Path} (h : other ≠ path) :
    (disk.erase path).node? other = disk.node? other := by
  rw [node?, node?]
  split
  · rfl
  · exact Entries.lookup_drop_of_ne h _

/-! ## Writing and removing -/

/-- A file is written at the place of its path, which is no directory. -/
lemma write_eq_ok {content : Content} (h : disk.write text content = .ok disk') :
    ∃ place, disk.place? text = some place ∧ disk.isDirectory place = false ∧
      disk' = disk.put place (.file content) := by
  obtain ⟨place, hplace, h⟩ := Outcome.seq_eq_ok.mp h
  obtain ⟨hfree, h⟩ := Outcome.unless_eq_ok.mp h
  refine ⟨place, ?_, Bool.eq_false_iff.mpr hfree, (Outcome.pure_eq_ok.mp h).symm⟩
  rw [place?, hplace]
  rfl

/-- A removal leaves the disk if the path leads nowhere, and otherwise erases its place, which is no
directory. -/
lemma removeFile?_eq_some (h : disk.removeFile? text = some disk') :
    disk.place? text = none ∧ disk' = disk ∨
      ∃ place, disk.place? text = some place ∧ disk.isDirectory place = false ∧
        disk' = disk.erase place := by
  rw [place?]
  rw [removeFile?] at h
  cases hplace : disk.resolve text with
  | error fault =>
    rw [hplace] at h
    exact Or.inl ⟨rfl, (Option.some.inj h).symm⟩
  | ok place =>
    rw [hplace] at h
    dsimp only at h
    split at h
    · cases h
    · rename_i hfree
      exact Or.inr ⟨place, rfl, Bool.eq_false_iff.mpr hfree, (Option.some.inj h).symm⟩

/-- A disk differs from another one at most in what stands under some paths, and in no directory. -/
structure DiffersWithin (disk disk' : Disk) (paths : List Path) : Prop where
  directories : SameDirectories disk disk'
  others : ∀ other ∉ paths, disk'.node? other = disk.node? other

/-- A disk does not differ from itself. -/
lemma differsWithin_refl (disk : Disk) (paths : List Path) : DiffersWithin disk disk paths :=
  ⟨fun _ => rfl, fun _ _ => rfl⟩

/-- Two changes under some paths are one. -/
lemma DiffersWithin.trans {disk'' : Disk} {paths : List Path} (h : DiffersWithin disk disk' paths)
    (h' : DiffersWithin disk' disk'' paths) : DiffersWithin disk disk'' paths :=
  ⟨h.directories.trans h'.directories,
    fun other hother => (h'.others other hother).trans (h.others other hother)⟩

/-- A change under some paths is a change under more of them. -/
lemma DiffersWithin.mono {paths paths' : List Path} (h : DiffersWithin disk disk' paths)
    (hsub : paths ⊆ paths') : DiffersWithin disk disk' paths' :=
  ⟨h.directories, fun other hother => h.others other (mt (@hsub other) hother)⟩

/-- What is found under a path stays if what stands at its place does. -/
lemma SameDirectories.find? (h : SameDirectories disk disk')
    (hnode : disk'.node? (Path.ofText text) = disk.node? (Path.ofText text)) :
    disk'.find? text = disk.find? text := by
  rw [find?_eq_bind, find?_eq_bind, h.place?]
  cases hplace : disk.place? text with
  | none => rfl
  | some place =>
    obtain rfl := eq_ofText_of_place? hplace
    exact hnode

/-- What is found under a path that leads elsewhere stays. -/
lemma DiffersWithin.find? {paths : List Path} (h : DiffersWithin disk disk' paths)
    (hother : Path.ofText other ∉ paths) : disk'.find? other = disk.find? other :=
  h.directories.find? (h.others _ hother)

/-- Nothing is found under a path if nothing stands at its place. -/
lemma find?_eq_none (h : disk.node? (Path.ofText text) = none) : disk.find? text = none := by
  rw [find?_eq_bind]
  cases hplace : disk.place? text with
  | none => rfl
  | some place =>
    obtain rfl := eq_ofText_of_place? hplace
    exact h

/-- A change at one place that is no directory before and after leaves the directories. -/
lemma differsWithin_of_eq_off {path : Path} (h : disk.isDirectory path = false)
    (h' : disk'.isDirectory path = false)
    (hothers : ∀ other, other ≠ path → disk'.node? other = disk.node? other) :
    DiffersWithin disk disk' [path] := by
  have hothers' : ∀ other ∉ [path], disk'.node? other = disk.node? other :=
    fun other hother => hothers other (mt List.mem_singleton.mpr hother)
  refine ⟨fun other => ?_, hothers'⟩
  by_cases heq : other = path
  · rw [heq, h, h']
  · rw [isDirectory, isDirectory, hothers other heq]

/-- Writing a file changes what stands under its path. -/
theorem differsWithin_write {content : Content} (h : disk.write text content = .ok disk') :
    DiffersWithin disk disk' [Path.ofText text] := by
  obtain ⟨place, hplace, hfree, rfl⟩ := write_eq_ok h
  obtain rfl := eq_ofText_of_place? hplace
  refine differsWithin_of_eq_off hfree ?_ fun other hne => node?_put_of_ne hne _
  rw [isDirectory, node?_put_self hfree]
  rfl

/-- A file that has been written is found. -/
theorem find?_write {content : Content} (h : disk.write text content = .ok disk') :
    disk'.find? text = some (.file content) := by
  have hsame := (differsWithin_write h).directories
  obtain ⟨place, hplace, hfree, rfl⟩ := write_eq_ok h
  rw [find?_eq_bind, hsame.place?, hplace]
  exact node?_put_self hfree _

/-- Removing a file changes what stands under its path. -/
theorem differsWithin_removeFile? (h : disk.removeFile? text = some disk') :
    DiffersWithin disk disk' [Path.ofText text] := by
  rcases removeFile?_eq_some h with ⟨-, rfl⟩ | ⟨place, hplace, hfree, rfl⟩
  · exact differsWithin_refl _ _
  · obtain rfl := eq_ofText_of_place? hplace
    refine differsWithin_of_eq_off hfree ?_ fun other hne => node?_erase_of_ne hne
    rw [isDirectory, node?_erase_self hfree]
    rfl

/-- A file that has been removed is not found. -/
theorem find?_removeFile? (h : disk.removeFile? text = some disk') : disk'.find? text = none := by
  have hsame := (differsWithin_removeFile? h).directories
  rw [find?_eq_bind, hsame.place?]
  rcases removeFile?_eq_some h with ⟨hplace, rfl⟩ | ⟨place, hplace, hfree, rfl⟩
  · rw [hplace]
    rfl
  · rw [hplace]
    exact node?_erase_self hfree

/-- A path under which a file or nothing is found can be removed. -/
lemma exists_removeFile? (h : disk.find? text ≠ some .directory) :
    ∃ disk', disk.removeFile? text = some disk' := by
  rw [find?_eq_bind, place?] at h
  rw [removeFile?]
  cases hplace : disk.resolve text with
  | error fault => exact ⟨disk, rfl⟩
  | ok place =>
    rw [hplace] at h
    have hfree : ¬disk.isDirectory place = true := mt isDirectory_eq_true_iff.mp h
    exact ⟨disk.erase place, if_neg hfree⟩

/-! ## The entries of a directory -/

/-- The names in a directory are the last names of the paths that lead from it one name further. -/
lemma mem_namesIn {directory : Path} {name : String} :
    name ∈ disk.namesIn directory ↔ directory ++ [name] ∈ Entries.keys disk.nodes := by
  rw [namesIn, List.mem_mergeSort, List.mem_filterMap, Entries.keys, List.mem_map]
  refine exists_congr fun entry => and_congr_right fun _ => ?_
  obtain ⟨path, node⟩ := entry
  dsimp only
  constructor
  · intro h
    cases hlast : path.getLast? with
    | none =>
      rw [hlast] at h
      cases h
    | some last =>
      rw [hlast] at h
      dsimp only at h
      split at h
      · rename_i hinit
        obtain rfl := Option.some.inj h
        obtain ⟨init, rfl⟩ := List.getLast?_eq_some_iff.mp hlast
        rw [← hinit, List.dropLast_concat]
      · cases h
  · intro h
    rw [h, List.getLast?_concat, List.dropLast_concat]
    exact if_pos rfl

/-- The entry of a directory under a name of its own is there if something stands at its place. -/
lemma mem_namesIn_iff_node? {directory : Path} {name : String}
    (hname : name ≠ ".." ∧ name ≠ Path.rootName) :
    name ∈ disk.namesIn directory ↔ disk.node? (directory ++ [name]) ≠ none := by
  have hinside : Path.isOutside (directory ++ [name]) = false := by
    rw [Path.isOutside, List.all_append, List.all_cons]
    simp [hname]
  rw [mem_namesIn, node?, hinside, if_neg Bool.false_ne_true, Ne, List.lookup_eq_none_iff]
  simp [Entries.keys]

/-! ## Directories that are there -/

/-- Going through the first names of a path leads to a directory if there are others. -/
lemma isDirectory_of_follow {path place : Path} {names rest : List String} {next : String}
    (h : disk.follow text path (names ++ next :: rest) = .ok place) (other : String) :
    ∃ between, disk.follow other path names = .ok between ∧ disk.isDirectory between = true := by
  induction names generalizing path with
  | nil =>
    rw [List.nil_append, follow] at h
    split at h
    · rename_i hnode
      exact ⟨path, rfl, isDirectory_eq_true_iff.mpr hnode⟩
    · cases h
    · cases h
  | cons name names ih =>
    rw [List.cons_append, follow] at h
    rw [follow]
    split at h
    · split at h
      · rename_i hshort
        rw [if_pos hshort]
        exact ih h
      · cases h
    · cases h
    · cases h

/-- What a path with names leads to, all conditions spelled out. -/
lemma place?_eq_some_iff {place : Path} :
    disk.place? text = some place ↔
      '\x00' ∉ text.toList ∧ text ≠ "" ∧ text.utf8ByteSize < Path.textLimit ∧
        disk.follow text (Path.split text).1 (Path.names text) = .ok place := by
  have htoOption : ∀ x : Except Fault Path, x.toOption = some place ↔ x = .ok place := by
    intro x
    cases x <;> simp [Except.toOption]
  rw [place?, htoOption, resolve]
  constructor
  · intro h
    split at h
    · cases h
    · rename_i hzero
      split at h
      · cases h
      · rename_i hempty
        split at h
        · rename_i hshort
          exact ⟨hzero, mt String.isEmpty_iff.mpr hempty, hshort, h⟩
        · cases h
  · rintro ⟨hzero, hempty, hshort, h⟩
    rw [if_neg hzero, if_neg (mt String.isEmpty_iff.mp hempty), if_pos hshort]
    exact h

/-- The directory above one that is there is there. -/
lemma find?_parent {parts rest : List String} {next last : String}
    (hplace : (disk.place? text).isSome = true)
    (hnames : Path.names text = parts ++ last :: next :: rest) (hlast : last ≠ "") :
    disk.find? ("/".intercalate (parts ++ [last])) = some .directory := by
  obtain ⟨place, hplace⟩ := Option.isSome_iff_exists.mp hplace
  obtain ⟨hzero, -, hshort, hfollow⟩ := place?_eq_some_iff.mp hplace
  obtain ⟨parent, hparent⟩ : ∃ parent, parent = "/".intercalate (parts ++ [last]) := ⟨_, rfl⟩
  have hparentne : parts ++ [last] ≠ [] := by simp
  have hwhole : text = parent ++ ("/" ++ "/".intercalate (next :: rest)) := by
    rw [← Path.intercalate_names text, hnames, hparent, ← Path.intercalate_append hparentne
      (List.cons_ne_nil _ _), List.append_assoc]
    rfl
  have hmem : ∀ part ∈ parts ++ [last], part ∈ Path.names text := by
    intro part hpart
    rw [hnames]
    simp only [List.mem_append, List.mem_cons] at hpart ⊢
    tauto
  have hparts : Path.names parent = parts ++ [last] := by
    rw [hparent]
    exact Path.names_intercalate hparentne hmem
  have hne : parent ≠ "" := by
    intro hempty
    rw [hempty] at hparts
    have hsingle : ([] : List String) ++ [""] = parts ++ [last] := hparts
    exact hlast (List.singleton_inj.mp (List.append_inj_right' hsingle rfl)).symm
  have hstart : (Path.split parent).1 = (Path.split text).1 := by
    rw [Path.split, Path.split, hwhole, Path.startsWith_slash_append hne]
  rw [hnames, ← List.singleton_append, ← List.append_assoc] at hfollow
  obtain ⟨between, hbetween, hdirectory⟩ := isDirectory_of_follow hfollow parent
  have hplaceparent : disk.place? parent = some between := by
    refine place?_eq_some_iff.mpr ⟨?_, hne, ?_, ?_⟩
    · rw [hwhole, String.toList_append, List.mem_append, not_or] at hzero
      exact hzero.1
    · rw [hwhole, String.utf8ByteSize_append] at hshort
      omega
    · rw [hstart, hparts]
      exact hbetween
  rw [← hparent, find?_eq_bind, hplaceparent]
  exact isDirectory_eq_true_iff.mp hdirectory

/-- A directory is there if something is found in it. -/
lemma hasDirectory_of_find?_join {directory name : String} (hdirectory : Path.EndsInName directory)
    (hname : Path.IsEntryName name) {node : Node}
    (h : disk.find? (Path.join directory name) = some node) : disk.hasDirectory directory = true := by
  obtain ⟨place, hplace, -⟩ := Option.bind_eq_some_iff.mp (find?_eq_bind disk _ ▸ h)
  obtain ⟨front, last, hnames, hlast⟩ := hdirectory.names_eq_concat
  have hjoin : Path.names (Path.join directory name) = front ++ last :: name :: [] := by
    have hsplit := congrArg Prod.snd (Path.split_join hdirectory hname)
    rw [hnames, List.append_assoc] at hsplit
    exact hsplit
  have hparent := find?_parent (Option.isSome_iff_exists.mpr ⟨place, hplace⟩) hjoin hlast
  rw [← hnames, Path.intercalate_names] at hparent
  rw [hasDirectory, hparent]
  exact decide_eq_true rfl

/-- Making a directory that is there changes nothing. -/
theorem makeDirectories_of_hasDirectory (hname : Path.EndsInName text)
    (h : disk.hasDirectory text = true) : disk.makeDirectories text = (.ok (), disk) := by
  have hfind : disk.find? text = some .directory := by
    rwa [hasDirectory, decide_eq_true_eq] at h
  obtain ⟨place, hplace, hnode⟩ := Option.bind_eq_some_iff.mp hfind
  have hmake : disk.withDirectory text = (.ok (), disk) := by
    have hresolve : disk.resolve text = .ok place := by
      cases hresolve : disk.resolve text with
      | error fault =>
        rw [hresolve] at hplace
        cases hplace
      | ok found =>
        rw [hresolve] at hplace
        exact congrArg Except.ok (Option.some.inj hplace)
    have heq : disk.makeDirectory text = .ok disk := by
      refine Outcome.seq_eq_ok.mpr ⟨place, hresolve, ?_⟩
      rw [hnode]
      rfl
    rw [withDirectory, heq]
  obtain ⟨above, hstages, habove⟩ := Path.stages_eq_cons hname
  rw [makeDirectories, if_neg (mt String.isEmpty_iff.mp hname.ne_empty), hstages, makeFrom, if_neg,
    hmake]
  -- the directory above leads to this one
  intro hmissing
  cases hparent : above.head? with
  | none =>
    rw [hparent] at hmissing
    cases hmissing
  | some parent =>
    obtain ⟨parts, last, next, rest, hnames, hlast, rfl⟩ := habove parent hparent
    rw [hparent, Option.any_some,
      find?_parent (Option.isSome_iff_exists.mpr ⟨place, hplace⟩) hnames hlast] at hmissing
    cases hmissing

/-- Where a path leads to it also leads if there are more directories. -/
lemma follow_of_isDirectory (hmore : ∀ path, disk.isDirectory path = true →
      disk'.isDirectory path = true) {path place : Path} {names : List String}
    (h : disk.follow text path names = .ok place) : disk'.follow text path names = .ok place := by
  induction names generalizing path with
  | nil => exact h
  | cons name names ih =>
    rw [follow] at h
    split at h
    · rename_i hnode
      split at h
      · rename_i hshort
        have hnode' := isDirectory_eq_true_iff.mp (hmore path (isDirectory_eq_true_iff.mpr hnode))
        rw [follow, hnode']
        dsimp only
        rw [if_pos hshort]
        exact ih h
      · cases h
    · cases h
    · cases h

/-- A directory that has been made is there. -/
lemma hasDirectory_of_makeDirectory (h : disk.makeDirectory text = .ok disk') :
    disk'.hasDirectory text = true := by
  obtain ⟨place, hplace, h⟩ := Outcome.seq_eq_ok.mp h
  have hplace' : disk.place? text = some place := by
    rw [place?, hplace]
    rfl
  rw [hasDirectory, decide_eq_true_eq, find?_eq_bind]
  split at h
  · rename_i hnode
    obtain rfl := Outcome.pure_eq_ok.mp h
    rw [hplace']
    exact hnode
  · cases h
  · rename_i hnone
    obtain rfl := Outcome.pure_eq_ok.mp h
    have hfree : disk.isDirectory place = false := by
      rw [isDirectory, hnone]
      rfl
    have hnew := node?_put_self hfree .directory
    have hmore : ∀ path, disk.isDirectory path = true →
        (disk.put place .directory).isDirectory path = true := by
      intro path hpath
      by_cases heq : path = place
      · rw [heq]
        exact isDirectory_eq_true_iff.mpr hnew
      · rw [isDirectory, node?_put_of_ne heq]
        exact hpath
    obtain ⟨hzero, hempty, hshort, hfollow⟩ := place?_eq_some_iff.mp hplace'
    rw [place?_eq_some_iff.mpr ⟨hzero, hempty, hshort, follow_of_isDirectory hmore hfollow⟩]
    exact hnew

/-- A directory that has been made with those above it is there. -/
theorem hasDirectory_of_makeDirectories (hname : Path.EndsInName text)
    (hpoint : Path.endsInPoint text = false) (h : disk.makeDirectories text = (.ok (), disk')) :
    disk'.hasDirectory text = true := by
  have hmade : ∀ disk : Disk, disk.withDirectory text = (.ok (), disk') →
      disk'.hasDirectory text = true := by
    intro disk h
    rw [withDirectory] at h
    split at h
    · rename_i hmake
      obtain ⟨-, rfl⟩ := Prod.mk.inj h
      exact hasDirectory_of_makeDirectory hmake
    · cases h
  have hunder : ∀ disk : Disk, disk.makeUnder text = (.ok (), disk') →
      disk'.hasDirectory text = true := by
    intro disk h
    rw [makeUnder, if_neg (Bool.eq_false_iff.mp hpoint)] at h
    exact hmade disk h
  obtain ⟨above, hstages, -⟩ := Path.stages_eq_cons hname
  rw [makeDirectories, if_neg (mt String.isEmpty_iff.mp hname.ne_empty), hstages, makeFrom] at h
  split at h
  · split at h
    · exact hunder _ h
    · exact hunder _ h
    · cases h
  · exact hmade _ h

end RecordStore.Disk
