import RecordStore.Proofs.Disk

/-!
# Directories that are made

Making a directory makes those above it, too, as far as they are not there.  So nothing that is there
changes, and what is new are directories at the places that the path leads through.
-/

namespace RecordStore

namespace Path

variable {root name : String}

/-! ## An entry of any directory -/

/-- The path of an entry of a directory, which may be empty or end with a slash, has the names of the
directory without an empty one at the end, and its own. -/
lemma exists_split_join (root : String) (hname : IsEntryName name) :
    ∃ front, split (join root name) = ((split root).1, front ++ [name]) ∧
      (names root = front ∨ names root = front ++ [""]) := by
  have hstart : name.startsWith "/" = false := by
    rw [Bool.eq_false_iff]
    intro hstart
    exact hname.slash (List.mem_of_mem_head? (startsWith_slash_iff.mp hstart))
  have hjoin : join root name =
      if root.isEmpty || root.endsWith "/" then root ++ name else root ++ "/" ++ name := by
    rw [join, hstart, if_neg Bool.false_ne_true]
  by_cases hempty : root = ""
  · subst hempty
    refine ⟨[], ?_, Or.inr rfl⟩
    have hempty : ("".isEmpty || "".endsWith "/") = true := rfl
    rw [hjoin, if_pos hempty, String.empty_append, split, hstart, names,
      pieces_eq_singleton hname.slash, List.map_singleton, String.ofList_toList]
    rfl
  by_cases hslash : root.endsWith "/" = true
  · obtain ⟨cs, hcs⟩ := endsWith_slash_iff.mp hslash
    refine ⟨(pieces cs).map String.ofList, ?_, Or.inr ?_⟩
    · rw [hjoin, if_pos (by rw [hslash, Bool.or_true]), split, startsWith_slash_append hempty, names,
        String.toList_append, hcs, List.append_assoc, List.singleton_append, pieces_append,
        pieces_eq_singleton hname.slash, List.map_append, List.map_singleton, String.ofList_toList]
      rfl
    · rw [names, hcs, pieces_append, List.map_append]
      rfl
  · have hends : EndsInName root := by
      have hne : root.toList ≠ [] := mt String.toList_eq_nil_iff.mp hempty
      refine ⟨_, _, (List.dropLast_concat_getLast hne).symm, fun hlast => hslash ?_⟩
      refine endsWith_slash_iff.mpr ⟨root.toList.dropLast, ?_⟩
      rw [← hlast, List.dropLast_concat_getLast hne]
    exact ⟨names root, split_join hends hname, Or.inl rfl⟩

/-- An entry is one name further than its directory, which may be empty or end with a slash. -/
theorem ofText_join_of_isEntryName (root : String) (hname : IsEntryName name) :
    ofText (join root name) = ofText root ++ [name] := by
  obtain ⟨front, hsplit, hnames⟩ := exists_split_join root hname
  have hempty : name.isEmpty = false := by
    rw [Bool.eq_false_iff, Ne, String.isEmpty_iff]
    exact hname.empty
  have hroot : ofText root = front.foldl step (split root).1 := by
    change (names root).foldl step (split root).1 = _
    rcases hnames with hnames | hnames
    · rw [hnames]
    · rw [hnames, List.foldl_append]
      rfl
  rw [ofText, hsplit, hroot]
  dsimp only
  rw [List.foldl_append, List.foldl_cons, List.foldl_nil, step, if_neg (by
    simp [hempty, hname.point]), if_neg (by simp [hname.points])]

/-- The paths that are made for an entry are its own and those that are made for its directory. -/
theorem stages_join (root : String) (hname : IsEntryName name) :
    stages (join root name) = join root name :: stages root := by
  obtain ⟨front, hsplit, hroot⟩ := exists_split_join root hname
  have hnames : names (join root name) = front ++ [name] := congrArg Prod.snd hsplit
  have hends : ∀ last : String,
      (List.range (front ++ [last]).length).filter (fun i => (front ++ [last]).getD i "" != "") =
        (List.range front.length).filter (fun i => front.getD i "" != "") ++
          if last = "" then [] else [front.length] := by
    intro last
    rw [List.length_append, List.length_singleton, List.range_succ, List.filter_append]
    congr 1
    · refine List.filter_congr fun i hi => ?_
      rw [List.getD_eq_getElem?_getD, List.getElem?_append_left (List.mem_range.mp hi),
        ← List.getD_eq_getElem?_getD]
    · by_cases hlast : last = ""
      · simp [hlast]
      · simp [hlast]
  have htake : ∀ last : String, ∀ i ∈
      ((List.range front.length).filter fun i => front.getD i "" != "").reverse,
      "/".intercalate ((front ++ [last]).take (i + 1)) = "/".intercalate (front.take (i + 1)) := by
    intro last i hi
    rw [List.mem_reverse, List.mem_filter, List.mem_range] at hi
    rw [List.take_append_of_le_length (Nat.succ_le_of_lt hi.1)]
  have hstages : stages root = (((List.range front.length).filter fun i =>
      front.getD i "" != "").reverse).map fun i => "/".intercalate (front.take (i + 1)) := by
    rw [stages]
    rcases hroot with hroot | hroot
    · rw [hroot]
    · rw [hroot, hends, if_pos rfl, List.append_nil]
      exact List.map_congr_left (htake "")
  rw [hstages, stages, hnames, hends, if_neg hname.empty, List.reverse_append, List.reverse_singleton,
    List.singleton_append, List.map_cons, List.map_congr_left (htake name)]
  congr 1
  rw [List.take_of_length_le (by simp), ← hnames, intercalate_names]

/-- A step by a name brings no other name. -/
lemma mem_step {path : Path} {first part : String} (h : part ∈ step path first) :
    part ∈ path ∨ part = first := by
  have hlonger : part ∈ path ++ [first] → part ∈ path ∨ part = first := fun hmem =>
    (List.mem_append.mp hmem).imp_right List.mem_singleton.mp
  rw [step] at h
  split at h
  · exact Or.inl h
  · split at h
    · rename_i hpoints
      obtain rfl := beq_iff_eq.mp hpoints
      split at h
      · exact Or.inr (List.mem_singleton.mp h)
      · split at h
        · exact hlonger h
        · split at h
          · exact Or.inl h
          · exact Or.inl (List.dropLast_subset path h)
    · exact hlonger h

/-- Steps by names bring no other names. -/
lemma mem_foldl_step {parts : List String} {path : Path} {part : String}
    (h : part ∈ parts.foldl step path) : part ∈ path ∨ part ∈ parts := by
  induction parts generalizing path with
  | nil => exact Or.inl h
  | cons first rest ih =>
    rcases ih h with hmem | hmem
    · exact (mem_step hmem).imp_right fun hfirst => List.mem_cons.mpr (Or.inl hfirst)
    · exact Or.inr (List.mem_cons_of_mem _ hmem)

/-- A name on the way of a path stands for the root of everything, or is one of its names. -/
lemma eq_or_mem_of_mem_ofText {text part : String} (h : part ∈ ofText text) :
    part = rootName ∨ part ∈ names text := by
  have hsteps : part ∈ (names text).foldl step (split text).1 := h
  refine (mem_foldl_step hsteps).imp_left fun hstart => ?_
  rw [split] at hstart
  dsimp only at hstart
  split at hstart
  · exact List.mem_singleton.mp hstart
  · cases hstart

/-- No name of a path has a slash. -/
lemma slash_of_mem_names {text part : String} (h : part ∈ names text) : '/' ∉ part.toList := by
  obtain ⟨cs, hcs, rfl⟩ := List.mem_map.mp h
  rw [String.toList_ofList]
  exact slash_not_mem_of_mem_pieces hcs

/-- A name on the way of a path that is made for another one stands for the root of everything, or is one of
the names of the other one. -/
lemma eq_or_mem_of_mem_stages {text : String} {path : Path} (h : path ∈ (stages text).map ofText)
    {part : String} (hpart : part ∈ path) : part = rootName ∨ part ∈ names text := by
  obtain ⟨stage, hstage, rfl⟩ := List.mem_map.mp h
  obtain ⟨i, hi, rfl⟩ := List.mem_map.mp hstage
  rw [List.mem_reverse, List.mem_filter, List.mem_range] at hi
  have hne : (names text).take (i + 1) ≠ [] := by
    rw [Ne, List.take_eq_nil_iff, not_or]
    exact ⟨Nat.succ_ne_zero i, List.ne_nil_of_length_pos (Nat.lt_of_le_of_lt (Nat.zero_le i) hi.1)⟩
  refine (eq_or_mem_of_mem_ofText hpart).imp_right fun hmem => ?_
  rw [names_intercalate hne fun part hpart => List.mem_of_mem_take hpart] at hmem
  exact List.mem_of_mem_take hmem

end Path

namespace Disk

variable {disk disk' : Disk} {text : String}

/-! ## What is new -/

/-- A disk grows: what is there stays, and what is new are directories at some places. -/
structure GrowsBy (disk disk' : Disk) (places : List Path) : Prop where
  kept : ∀ path, disk.node? path ≠ none → disk'.node? path = disk.node? path
  made : ∀ path, disk.node? path = none →
    disk'.node? path = none ∨ disk'.node? path = some .directory ∧ path ∈ places

/-- A disk that stays grows by nothing. -/
lemma GrowsBy.refl (disk : Disk) (places : List Path) : disk.GrowsBy disk places :=
  ⟨fun _ _ => rfl, fun _ hnone => Or.inl hnone⟩

/-- A disk that grows twice grows. -/
lemma GrowsBy.trans {disk'' : Disk} {places : List Path} (h : disk.GrowsBy disk' places)
    (h' : disk'.GrowsBy disk'' places) : disk.GrowsBy disk'' places := by
  refine ⟨fun path hpath => ?_, fun path hnone => ?_⟩
  · have hkept := h.kept path hpath
    exact (h'.kept path (hkept ▸ hpath)).trans hkept
  · rcases h.made path hnone with hstill | ⟨hmade, hplace⟩
    · exact h'.made path hstill
    · have hthere : disk'.node? path ≠ none := by
        rw [hmade]
        exact Option.some_ne_none _
      exact Or.inr ⟨(h'.kept path hthere).trans hmade, hplace⟩

/-- At a path there is what has been there before, or a directory is new. -/
lemma GrowsBy.node?_cases {places : List Path} (h : disk.GrowsBy disk' places) (path : Path) :
    disk'.node? path = disk.node? path ∨
      disk.node? path = none ∧ disk'.node? path = some .directory ∧ path ∈ places := by
  by_cases hnone : disk.node? path = none
  · exact (h.made path hnone).imp (·.trans hnone.symm) fun hmade => ⟨hnone, hmade⟩
  · exact Or.inl (h.kept path hnone)

/-- A disk that grows at some places grows at more of them. -/
lemma GrowsBy.mono {places more : List Path} (h : disk.GrowsBy disk' places) (hsub : places ⊆ more) :
    disk.GrowsBy disk' more :=
  ⟨h.kept, fun path hnone => (h.made path hnone).imp_right fun hmade => ⟨hmade.1, hsub hmade.2⟩⟩

/-- Making a directory makes the one at its place. -/
lemma growsBy_withDirectory (disk : Disk) (text : String) :
    disk.GrowsBy (disk.withDirectory text).2 [Path.ofText text] := by
  rw [withDirectory]
  split
  · rename_i made hmade
    obtain ⟨place, hplace, hmade⟩ := Outcome.seq_eq_ok.mp hmade
    split at hmade
    · obtain rfl := Outcome.pure_eq_ok.mp hmade
      exact .refl _ _
    · cases hmade
    · rename_i hnone
      obtain rfl := Outcome.pure_eq_ok.mp hmade
      have hthere : place = Path.ofText text := by
        have hfound : disk.place? text = some place := by
          rw [place?, hplace]
          rfl
        exact eq_ofText_of_place? hfound
      have hfree : disk.isDirectory place = false := by
        rw [isDirectory, hnone]
        rfl
      refine ⟨fun path hpath => node?_put_of_ne ?_ _, fun path hpath => ?_⟩
      · rintro rfl
        exact hpath hnone
      · by_cases hsame : path = place
        · rw [hsame, node?_put_self hfree, hthere]
          exact Or.inr ⟨rfl, List.mem_singleton_self _⟩
        · rw [node?_put_of_ne hsame]
          exact Or.inl hpath
  · exact .refl _ _

/-- Making a directory in another one makes at most the one at its place. -/
lemma growsBy_makeUnder (disk : Disk) (text : String) :
    disk.GrowsBy (disk.makeUnder text).2 [Path.ofText text] := by
  rw [makeUnder]
  split
  · exact .refl _ _
  · exact growsBy_withDirectory disk text

/-- Making directories one in the other makes some of those at their places. -/
lemma growsBy_makeFrom (disk : Disk) (texts : List String) :
    disk.GrowsBy (disk.makeFrom texts).2 (texts.map Path.ofText) := by
  induction texts with
  | nil => exact .refl _ _
  | cons text above ih =>
    have hfirst : [Path.ofText text] ⊆ (text :: above).map Path.ofText := by simp
    have habove := ih.mono (List.subset_cons_self (Path.ofText text) _)
    rw [makeFrom]
    split
    · split
      · rename_i between hmade
        rw [hmade] at habove
        exact habove.trans ((growsBy_makeUnder _ text).mono hfirst)
      · rename_i between hmade
        rw [hmade] at habove
        exact habove.trans ((growsBy_makeUnder _ text).mono hfirst)
      · rename_i between _ hmade
        rw [hmade] at habove
        exact habove
    · exact (growsBy_withDirectory disk text).mono hfirst

/-- Making a directory with those above it makes some of those that its path leads through. -/
theorem growsBy_makeDirectories (disk : Disk) (text : String) :
    disk.GrowsBy (disk.makeDirectories text).2 ((Path.stages text).map Path.ofText) := by
  rw [makeDirectories]
  split
  · exact .refl _ _
  · exact growsBy_makeFrom disk _

end Disk

end RecordStore
