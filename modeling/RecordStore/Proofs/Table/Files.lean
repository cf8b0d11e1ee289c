import RecordStore.Database
import RecordStore.Proofs.Table.Run
import RecordStore.Proofs.World

/-!
# The files of tables

A table has three files, whose names are its own with three endings.  Two tables in one directory have
files of the same name exactly if the name of one of them is the name of the other followed by
`_schema` or `_index`.  Whatever is asked of a table only touches its own files.
-/

namespace RecordStore

/-! ## Names -/

/-- A text that tables and databases can have for a name. -/
def IsName (name : String) : Prop :=
  isIdentifier (Numeral.dropFinalBreak name.toList) = true

instance (name : String) : Decidable (IsName name) :=
  inferInstanceAs (Decidable (_ = true))

/-- The values that pass as names are the texts that can be names. -/
lemma checkName_eq_ok {role : NameRole} {v : Value} {name : String} :
    checkName role v = .ok name ↔ v = .text name ∧ IsName name := by
  have hother : ∀ x : Except Fault String,
      (x.bind fun shown => (.error (.violation (.badName role shown)) : Except Fault String)) ≠
        .ok name := by
    intro x
    cases x <;> exact nofun
  constructor
  · intro h
    unfold checkName at h
    split at h
    · split at h
      · rename_i hs
        obtain rfl := Except.ok.inj h
        exact ⟨rfl, hs⟩
      · cases h
    · exact absurd h (hother _)
  · rintro ⟨rfl, hname⟩
    exact if_pos hname

/-- The characters of a name are letters, digits and underscores, apart from a line break at its
end. -/
lemma IsName.char {name : String} (h : IsName name) {c : Char} (hc : c ∈ name.toList) :
    c = '\n' ∨ (c.isAlphanum || c == '_') = true := by
  have hidentifier : ∀ cs : List Char, isIdentifier cs = true → ∀ d ∈ cs,
      (d.isAlphanum || d == '_') = true := by
    intro cs hcs d hd
    cases cs with
    | nil => cases hd
    | cons first rest =>
      rw [isIdentifier, Bool.and_eq_true, List.all_eq_true] at hcs
      rcases List.mem_cons.mp hd with rfl | hd
      · have hfirst := hcs.1
        rw [Bool.or_eq_true] at hfirst ⊢
        refine hfirst.imp_left fun halpha => ?_
        rw [Char.isAlphanum, halpha, Bool.true_or]
      · exact hcs.2 d hd
  rw [IsName, Numeral.dropFinalBreak] at h
  split at h
  · rename_i hlast
    obtain ⟨init, hinit⟩ := List.getLast?_eq_some_iff.mp hlast
    rw [hinit, List.dropLast_concat] at h
    rw [hinit, List.mem_append, List.mem_singleton] at hc
    rcases hc with hc | hc
    · exact Or.inr (hidentifier init h c hc)
    · exact Or.inl hc
  · exact Or.inr (hidentifier _ h c hc)

/-- A name is not empty. -/
lemma IsName.ne_empty {name : String} (h : IsName name) : name ≠ "" := by
  rintro rfl
  exact absurd h (by decide)

/-- A name has no slash. -/
lemma IsName.slash {name : String} (h : IsName name) : '/' ∉ name.toList := by
  intro hmem
  rcases h.char hmem with hbreak | hplain
  · exact absurd hbreak (by decide)
  · exact absurd hplain (by decide)

/-- A name ends with a character that is neither a slash nor a point. -/
lemma IsName.exists_last {name : String} (h : IsName name) :
    ∃ init last, name.toList = init ++ [last] ∧ last ≠ '/' ∧ last ≠ '.' := by
  have hne : name.toList ≠ [] := mt String.toList_eq_nil_iff.mp h.ne_empty
  refine ⟨_, _, (List.dropLast_concat_getLast hne).symm, ?_, ?_⟩
  · intro hlast
    exact h.slash (hlast ▸ List.getLast_mem hne)
  · intro hlast
    rcases h.char (List.getLast_mem hne) with hbreak | hplain
    · rw [hlast] at hbreak
      exact absurd hbreak (by decide)
    · rw [hlast] at hplain
      exact absurd hplain (by decide)

/-- The path of a database ends with its name. -/
lemma IsName.endsInName_join {name : String} (h : IsName name) (root : String) :
    Path.EndsInName (Path.join root name) := by
  obtain ⟨init, last, hlast, hslash, -⟩ := h.exists_last
  obtain ⟨front, hfront⟩ := Path.exists_toList_join root name
  exact ⟨front ++ init, last, by rw [hfront, hlast, List.append_assoc], hslash⟩

/-- The path of a database does not end in a point. -/
lemma IsName.endsInPoint_join {name : String} (h : IsName name) (root : String) :
    Path.endsInPoint (Path.join root name) = false := by
  obtain ⟨init, last, hlast, -, hpoint⟩ := h.exists_last
  obtain ⟨front, hfront⟩ := Path.exists_toList_join root name
  have hends : ∀ cs, (Path.join root name).toList ≠ cs ++ ['.'] := by
    intro cs hcs
    rw [hfront, hlast, ← List.append_assoc] at hcs
    exact hpoint (List.singleton_inj.mp (List.append_inj_right' hcs rfl))
  rw [Path.endsInPoint, Bool.or_eq_false_iff]
  constructor
  · rw [beq_eq_false_iff_ne]
    intro heq
    exact hends [] (by rw [heq]; rfl)
  · rw [Bool.eq_false_iff, String.endsWith_eq_endsWith_toSlice]
    intro hsuffix
    obtain ⟨cs, hcs⟩ := String.Slice.endsWith_string_iff.mp hsuffix
    refine hends (cs ++ ['/']) ?_
    rw [List.append_assoc]
    exact (by simpa using hcs.symm)

namespace Table

/-! ## Files -/

/-- How the names of the files of a table end. -/
def fileEndings : List String :=
  [schemaEnding, ".json", "_index.json"]

/-- The names of the files of a table. -/
def fileNames (name : String) : List String :=
  fileEndings.map (name ++ ·)

/-- The paths of the files of a table. -/
def filePaths (directory name : String) : List String :=
  (fileNames name).map (Path.join directory)

/-- Rows are loaded into a table with the name and the directory that have been asked for. -/
lemma place_of_loadRows {name directory : String} {disk : Disk} {table : Table}
    (h : loadRows name directory disk = .ok table) :
    table.name = name ∧ table.directory = directory := by
  obtain ⟨described, -, h⟩ := Outcome.seq_eq_ok.mp h
  obtain ⟨-, h⟩ := Outcome.unless_eq_ok.mp h
  obtain ⟨schema, -, h⟩ := Outcome.seq_eq_ok.mp h
  obtain ⟨data, -, h⟩ := Outcome.seq_eq_ok.mp h
  obtain ⟨⟨rows, next⟩, -, h⟩ := Outcome.seq_eq_ok.mp h
  obtain rfl := Outcome.pure_eq_ok.mp h
  exact ⟨rfl, rfl⟩

/-- Two tables have a file in common: the name of one is that of the other, followed by what the name
of a schema file or of an index file has in front of the common ending. -/
def ShareFile (a b : String) : Prop :=
  b = a ++ "_schema" ∨ b = a ++ "_index" ∨ a = b ++ "_schema" ∨ a = b ++ "_index"

instance (a b : String) : Decidable (ShareFile a b) :=
  inferInstanceAs (Decidable (_ ∨ _ ∨ _ ∨ _))

/-- The schema file is one of the files. -/
lemma schemaPath_mem (directory name : String) :
    schemaPath directory name ∈ filePaths directory name := by
  simp [filePaths, fileNames, fileEndings, schemaPath]

/-- The file of rows is one of the files. -/
lemma dataPath_mem (directory name : String) :
    dataPath directory name ∈ filePaths directory name := by
  simp [filePaths, fileNames, fileEndings, dataPath]

/-- The index file is one of the files. -/
lemma indexPath_mem (directory name : String) :
    indexPath directory name ∈ filePaths directory name := by
  simp [filePaths, fileNames, fileEndings, indexPath]

/-- The name of a file of a table can be the name of an entry of a directory, if that of the table has no
slash. -/
lemma isEntryName_of_mem_fileNames {name file : String} (h : '/' ∉ name.toList)
    (hfile : file ∈ fileNames name) : Path.IsEntryName file := by
  obtain ⟨ending, hending, rfl⟩ := List.mem_map.mp hfile
  have hlong : 3 ≤ (name ++ ending).length := by
    have hlength : ∀ ending ∈ fileEndings, 5 ≤ ending.length := by decide
    have := hlength ending hending
    rw [String.length_append]
    omega
  have hslash : ∀ ending ∈ fileEndings, '/' ∉ ending.toList := by decide
  refine ⟨?_, ?_, ?_, ?_⟩
  · rw [String.toList_append, List.mem_append, not_or]
    exact ⟨h, hslash ending hending⟩
  · intro heq
    rw [heq] at hlong
    exact absurd hlong (by decide)
  · intro heq
    rw [heq] at hlong
    exact absurd hlong (by decide)
  · intro heq
    rw [heq] at hlong
    exact absurd hlong (by decide)

/-- Two names give the same name of a file if they are the same or have a file in common. -/
lemma exists_mem_fileNames_iff {a b : String} :
    (∃ file ∈ fileNames a, file ∈ fileNames b) ↔ a = b ∨ ShareFile a b := by
  have hcancel : ∀ x y ending : String, x ++ ending = y ++ ending ↔ x = y :=
    fun x y ending => String.append_left_inj ending
  have hschema : schemaEnding = "_schema" ++ ".json" := by decide
  have hindex : "_index.json" = "_index" ++ ".json" := by decide
  constructor
  · rintro ⟨file, ha, hb⟩
    simp only [fileNames, fileEndings, hschema, hindex, List.map_cons, List.map_nil, List.mem_cons,
      List.not_mem_nil, or_false, ← String.append_assoc] at ha hb
    have hlast : ∀ x y : String, x ++ "_schema" ≠ y ++ "_index" := by
      intro x y heq
      have hchars := congrArg (fun s => s.toList.getLast?) heq
      simp at hchars
    rcases ha with rfl | rfl | rfl <;> rcases hb with hb | hb | hb <;> rw [hcancel] at hb
    · exact Or.inl ((hcancel _ _ _).mp hb)
    · exact Or.inr (Or.inl hb.symm)
    · exact absurd hb (hlast _ _)
    · exact Or.inr (Or.inr (Or.inr (Or.inl hb)))
    · exact Or.inl hb
    · exact Or.inr (Or.inr (Or.inr (Or.inr hb)))
    · exact absurd hb.symm (hlast _ _)
    · exact Or.inr (Or.inr (Or.inl hb.symm))
    · exact Or.inl ((hcancel _ _ _).mp hb)
  · rintro (rfl | rfl | rfl | rfl | rfl)
    · exact ⟨a ++ ".json", by simp [fileNames, fileEndings], by simp [fileNames, fileEndings]⟩
    · exact ⟨a ++ "_schema" ++ ".json", by
        simp [fileNames, fileEndings, hschema, String.append_assoc], by simp [fileNames, fileEndings]⟩
    · exact ⟨a ++ "_index" ++ ".json", by
        simp [fileNames, fileEndings, String.append_assoc], by simp [fileNames, fileEndings]⟩
    · exact ⟨b ++ "_schema" ++ ".json", by simp [fileNames, fileEndings], by
        simp [fileNames, fileEndings, hschema, String.append_assoc]⟩
    · exact ⟨b ++ "_index" ++ ".json", by simp [fileNames, fileEndings], by
        simp [fileNames, fileEndings, String.append_assoc]⟩

/-! ## Places -/

/-- The places of the files of a table. -/
def filePlaces (directory name : String) : List Path :=
  (filePaths directory name).map Path.ofText

/-- The place of a file of a table is in the directory, under the name of the file. -/
lemma mem_filePlaces {directory name : String} (hdirectory : Path.EndsInName directory)
    (hname : '/' ∉ name.toList) {path : Path} :
    path ∈ filePlaces directory name ↔ ∃ file ∈ fileNames name, path = Path.ofText directory ++ [file] := by
  rw [filePlaces, filePaths, List.map_map, List.mem_map]
  refine exists_congr fun file => and_congr_right fun hfile => ?_
  rw [Function.comp_apply, Path.ofText_join hdirectory (isEntryName_of_mem_fileNames hname hfile)]
  exact eq_comm

/-- The place of an entry of the directory is one of those of a table if the entry is one of its files. -/
lemma place_mem_filePlaces_iff {directory name file : String} (hdirectory : Path.EndsInName directory)
    (hname : '/' ∉ name.toList) :
    Path.ofText directory ++ [file] ∈ filePlaces directory name ↔ file ∈ fileNames name := by
  rw [mem_filePlaces hdirectory hname]
  constructor
  · rintro ⟨other, hother, heq⟩
    obtain rfl := List.singleton_inj.mp (List.append_cancel_left heq)
    exact hother
  · exact fun hfile => ⟨file, hfile, rfl⟩

/-- The files of a table have places of their own. -/
lemma nodup_filePlaces (directory name : String) : (filePlaces directory name).Nodup := by
  obtain ⟨place, last, hjoin⟩ := Path.exists_ofText_join directory name
  have hending : ∀ ending ∈ fileEndings, Path.IsEnding ending := by
    have hall : ∀ ending ∈ fileEndings, '/' ∉ ending.toList ∧ 3 ≤ ending.length := by decide
    exact fun ending h => ⟨(hall ending h).1, (hall ending h).2⟩
  have hplaces : filePlaces directory name =
      fileEndings.map fun ending => place ++ [last ++ ending] := by
    rw [filePlaces, filePaths, fileNames, List.map_map, List.map_map]
    exact List.map_congr_left fun ending h => hjoin ending (hending ending h)
  have hendings : fileEndings.Nodup := by decide
  rw [hplaces]
  refine hendings.map fun a b heq => ?_
  exact (String.append_right_inj last).mp (List.singleton_inj.mp (List.append_cancel_left heq))

/-- Two tables have a place of a file in common if they have the same name or a file in common. -/
theorem exists_mem_filePlaces_iff {directory a b : String} (hdirectory : Path.EndsInName directory)
    (ha : IsName a) (hb : IsName b) :
    (∃ path ∈ filePlaces directory a, path ∈ filePlaces directory b) ↔ a = b ∨ ShareFile a b := by
  rw [← exists_mem_fileNames_iff]
  constructor
  · rintro ⟨path, hpatha, hpathb⟩
    obtain ⟨file, hfile, rfl⟩ := (mem_filePlaces hdirectory ha.slash).mp hpatha
    obtain ⟨file', hfile', heq⟩ := (mem_filePlaces hdirectory hb.slash).mp hpathb
    obtain rfl := List.singleton_inj.mp (List.append_cancel_left heq)
    exact ⟨file, hfile, hfile'⟩
  · rintro ⟨file, hfile, hfile'⟩
    exact ⟨_, (mem_filePlaces hdirectory ha.slash).mpr ⟨file, hfile, rfl⟩,
      (mem_filePlaces hdirectory hb.slash).mpr ⟨file, hfile', rfl⟩⟩

/-- The file of a table stays if only files of another table change that has none in common with
it. -/
lemma find?_of_differsWithin {directory a b : String} (hdirectory : Path.EndsInName directory)
    (ha : IsName a) (hb : IsName b) (hne : a ≠ b) (hshare : ¬ShareFile a b) {disk disk' : Disk}
    (h : disk.DiffersWithin disk' (filePlaces directory a)) {path : String}
    (hpath : path ∈ filePaths directory b) : disk'.find? path = disk.find? path := by
  refine h.find? fun hmem => ?_
  have hboth := (exists_mem_filePlaces_iff hdirectory ha hb).mp
    ⟨_, hmem, List.mem_map_of_mem hpath⟩
  exact hboth.elim hne hshare

/-- What is loaded only depends on what is found under the paths of the files. -/
theorem load_congr {directory name : String} {disk disk' : Disk}
    (h : ∀ path ∈ filePaths directory name, disk'.find? path = disk.find? path) :
    load name directory disk' = load name directory disk := by
  have hrows : loadRows name directory disk' = loadRows name directory disk := by
    rw [loadRows, loadRows, Disk.readSnapshot_congr (h _ (schemaPath_mem _ _)),
      Disk.readSnapshot_congr (h _ (dataPath_mem _ _))]
  rw [load, load, hrows]
  cases hloaded : loadRows name directory disk with
  | error fault => rfl
  | ok table =>
    obtain ⟨hname, hdirectory⟩ := place_of_loadRows hloaded
    have hindexes : disk'.readSnapshot (indexPath table.directory table.name) =
        disk.readSnapshot (indexPath table.directory table.name) := by
      rw [hname, hdirectory]
      exact Disk.readSnapshot_congr (h _ (indexPath_mem _ _))
    dsimp only
    rw [loadIndexes, loadIndexes, hindexes]

end Table

end RecordStore
