import Mathlib.Tactic.Lemma
import RecordStore.Disk

/-!
# Paths as text

A path as text is cut into names at its slashes.  The path of a file in a directory has the names of
the directory and one more, and the paths that are made before a directory are prefixes of its own.
-/

namespace RecordStore.Path

/-! ## Pieces between slashes -/

/-- There is always a piece. -/
lemma pieces_ne_nil (cs : List Char) : pieces cs ≠ [] := by
  cases cs with
  | nil => exact List.cons_ne_nil _ _
  | cons c cs =>
    rw [pieces]
    split
    · exact List.cons_ne_nil _ _
    · split
      · exact List.cons_ne_nil _ _
      · exact List.cons_ne_nil _ _

/-- A character that is no slash belongs to the first piece. -/
lemma pieces_cons {c : Char} (hc : c ≠ '/') {cs piece : List Char} {others : List (List Char)}
    (h : pieces cs = piece :: others) : pieces (c :: cs) = (c :: piece) :: others := by
  rw [pieces, if_neg hc, h]

/-- Characters without a slash are one piece. -/
lemma pieces_eq_singleton {cs : List Char} (h : '/' ∉ cs) : pieces cs = [cs] := by
  induction cs with
  | nil => rfl
  | cons c cs ih =>
    rw [List.mem_cons, not_or] at h
    exact pieces_cons (Ne.symm h.1) (ih h.2)

/-- A slash ends a piece. -/
lemma pieces_append (cs rest : List Char) :
    pieces (cs ++ '/' :: rest) = pieces cs ++ pieces rest := by
  induction cs with
  | nil => simp [pieces]
  | cons c cs ih =>
    by_cases hc : c = '/'
    · rw [hc, List.cons_append, pieces, if_pos rfl, ih, pieces, if_pos rfl, List.cons_append]
    · obtain ⟨piece, others, hpieces⟩ := List.exists_cons_of_ne_nil (pieces_ne_nil cs)
      rw [hpieces, List.cons_append] at ih
      rw [List.cons_append, pieces_cons hc ih, pieces_cons hc hpieces, List.cons_append]

/-- Characters without a slash at the end belong to the last piece. -/
lemma exists_pieces_append (cs : List Char) :
    ∃ front last, ∀ ending, '/' ∉ ending → pieces (cs ++ ending) = front ++ [last ++ ending] := by
  induction cs with
  | nil => exact ⟨[], [], fun ending h => pieces_eq_singleton h⟩
  | cons c cs ih =>
    obtain ⟨front, last, hpieces⟩ := ih
    by_cases hc : c = '/'
    · refine ⟨[] :: front, last, fun ending h => ?_⟩
      rw [List.cons_append, hc, pieces, if_pos rfl, hpieces ending h, List.cons_append]
    · cases front with
      | nil =>
        exact ⟨[], c :: last, fun ending h => pieces_cons hc (hpieces ending h)⟩
      | cons first front =>
        exact ⟨(c :: first) :: front, last, fun ending h => pieces_cons hc (hpieces ending h)⟩

/-- No piece has a slash. -/
lemma slash_not_mem_of_mem_pieces {cs piece : List Char} (h : piece ∈ pieces cs) : '/' ∉ piece := by
  induction cs generalizing piece with
  | nil =>
    rw [pieces, List.mem_singleton] at h
    simp [h]
  | cons c cs ih =>
    by_cases hc : c = '/'
    · rw [hc, pieces, if_pos rfl, List.mem_cons] at h
      rcases h with rfl | h
      · simp
      · exact ih h
    · obtain ⟨first, others, hpieces⟩ := List.exists_cons_of_ne_nil (pieces_ne_nil cs)
      rw [pieces_cons hc hpieces, List.mem_cons] at h
      rcases h with rfl | h
      · rw [List.mem_cons, not_or]
        exact ⟨Ne.symm hc, ih (hpieces ▸ List.mem_cons_self)⟩
      · exact ih (hpieces ▸ List.mem_cons_of_mem _ h)

/-- Pieces with slashes between them are cut into these pieces again. -/
lemma pieces_intercalate {parts : List (List Char)} (hne : parts ≠ [])
    (h : ∀ part ∈ parts, '/' ∉ part) : pieces (['/'].intercalate parts) = parts := by
  induction parts with
  | nil => exact absurd rfl hne
  | cons part parts ih =>
    obtain ⟨hpart, hparts⟩ := List.forall_mem_cons.mp h
    cases parts with
    | nil => rw [List.intercalate_singleton, pieces_eq_singleton hpart]
    | cons next parts =>
      rw [List.intercalate_cons_cons, List.append_assoc, List.singleton_append, pieces_append,
        pieces_eq_singleton hpart, ih (List.cons_ne_nil _ _) hparts, List.singleton_append]

/-- The pieces with slashes between them are the whole. -/
lemma intercalate_pieces (cs : List Char) : ['/'].intercalate (pieces cs) = cs := by
  induction cs with
  | nil => rfl
  | cons c cs ih =>
    obtain ⟨piece, others, hpieces⟩ := List.exists_cons_of_ne_nil (pieces_ne_nil cs)
    by_cases hc : c = '/'
    · rw [hpieces] at ih
      rw [hc, pieces, if_pos rfl, hpieces, List.intercalate_cons_cons, ih, List.nil_append,
        List.singleton_append]
    · rw [hpieces] at ih
      rw [pieces_cons hc hpieces]
      cases others with
      | nil =>
        rw [List.intercalate_singleton] at ih ⊢
        rw [ih]
      | cons next others =>
        rw [List.intercalate_cons_cons] at ih ⊢
        rw [List.cons_append, List.cons_append, ih]

/-! ## The path of a file in a directory -/

/-- A text ends with a name: its last character is no slash. -/
def EndsInName (text : String) : Prop :=
  ∃ cs c, text.toList = cs ++ [c] ∧ c ≠ '/'

/-- A name that leads from a directory to an entry of it. -/
structure IsEntryName (name : String) : Prop where
  slash : '/' ∉ name.toList
  empty : name ≠ ""
  point : name ≠ "."
  points : name ≠ ".."

/-- A text ends with a slash if its last character is one. -/
lemma endsWith_slash_iff {text : String} :
    text.endsWith "/" = true ↔ ∃ cs, text.toList = cs ++ ['/'] := by
  rw [String.endsWith_eq_endsWith_toSlice, String.Slice.endsWith_string_iff]
  constructor
  · rintro ⟨cs, hcs⟩
    exact ⟨cs, by simpa using hcs.symm⟩
  · rintro ⟨cs, hcs⟩
    exact ⟨cs, by simpa using hcs.symm⟩

/-- A text starts with a slash if its first character is one. -/
lemma startsWith_slash_iff {text : String} :
    text.startsWith "/" = true ↔ text.toList.head? = some '/' := by
  rw [String.startsWith_string_iff]
  constructor
  · rintro ⟨cs, hcs⟩
    rw [← hcs]
    rfl
  · intro h
    obtain ⟨cs, hcs⟩ := List.head?_eq_some_iff.mp h
    exact ⟨cs, hcs.symm⟩

/-- What is put after a text that is not empty does not change whether it starts with a slash. -/
lemma startsWith_slash_append {text : String} (h : text ≠ "") (rest : String) :
    (text ++ rest).startsWith "/" = text.startsWith "/" := by
  rw [Bool.eq_iff_iff, startsWith_slash_iff, startsWith_slash_iff, String.toList_append]
  cases hcs : text.toList with
  | nil => exact absurd (String.toList_eq_nil_iff.mp hcs) h
  | cons c cs => rfl

variable {directory name : String}

/-- A text that ends with a name is not empty. -/
lemma EndsInName.ne_empty (h : EndsInName directory) : directory ≠ "" := by
  obtain ⟨cs, c, hcs, -⟩ := h
  rintro rfl
  simp at hcs

/-- A text that ends with a name does not end with a slash. -/
lemma EndsInName.endsWith_slash (h : EndsInName directory) : directory.endsWith "/" = false := by
  obtain ⟨cs, c, hcs, hc⟩ := h
  rw [Bool.eq_false_iff]
  intro hends
  obtain ⟨ds, hds⟩ := endsWith_slash_iff.mp hends
  rw [hcs] at hds
  exact hc (List.singleton_inj.mp (List.append_inj_right' hds rfl))

/-- A joined path ends with the name. -/
lemma exists_toList_join (directory name : String) :
    ∃ front, (join directory name).toList = front ++ name.toList := by
  rw [join]
  split
  · exact ⟨[], rfl⟩
  · split
    · exact ⟨_, String.toList_append⟩
    · exact ⟨_, String.toList_append⟩

/-- The path of an entry starts with the path of its directory. -/
lemma join_eq_append (hdirectory : EndsInName directory) (hname : IsEntryName name) :
    join directory name = directory ++ "/" ++ name := by
  have hstart : name.startsWith "/" = false := by
    rw [Bool.eq_false_iff]
    intro hstart
    exact hname.slash (List.mem_of_mem_head? (startsWith_slash_iff.mp hstart))
  rw [join, if_neg (by simp [hstart]), if_neg]
  rw [hdirectory.endsWith_slash, Bool.or_false, String.isEmpty_iff]
  exact hdirectory.ne_empty

/-- The names of the path of an entry are those of its directory and its own. -/
lemma split_join (hdirectory : EndsInName directory) (hname : IsEntryName name) :
    split (join directory name) = ((split directory).1, names directory ++ [name]) := by
  rw [join_eq_append hdirectory hname, String.append_assoc, split,
    startsWith_slash_append hdirectory.ne_empty, names, names]
  have hchars : (directory ++ ("/" ++ name)).toList = directory.toList ++ '/' :: name.toList := by
    simp
  rw [hchars, pieces_append, pieces_eq_singleton hname.slash, List.map_append, List.map_singleton,
    String.ofList_toList]
  rfl

/-- An entry is one name further than its directory. -/
theorem ofText_join (hdirectory : EndsInName directory) (hname : IsEntryName name) :
    ofText (join directory name) = ofText directory ++ [name] := by
  have hempty : name.isEmpty = false := by
    rw [Bool.eq_false_iff, Ne, String.isEmpty_iff]
    exact hname.empty
  rw [ofText, split_join hdirectory hname]
  change (names directory ++ [name]).foldl step (split directory).1 = _
  rw [List.foldl_append, List.foldl_cons, List.foldl_nil, step, if_neg (by
    simp [hempty, hname.point]), if_neg (by simp [hname.points])]
  rfl

/-- What is put at the end of names so that they can be names of entries, whatever they are. -/
structure IsEnding (ending : String) : Prop where
  slash : '/' ∉ ending.toList
  long : 3 ≤ ending.length

section Endings

variable {ending : String} (h : IsEnding ending)

include h

/-- An ending does not change whether a text starts with a slash. -/
lemma IsEnding.startsWith_slash (text : String) :
    (text ++ ending).startsWith "/" = text.startsWith "/" := by
  by_cases hempty : text = ""
  · rw [hempty, String.empty_append, Bool.eq_iff_iff, startsWith_slash_iff, startsWith_slash_iff]
    exact ⟨fun hslash => absurd (List.mem_of_mem_head? hslash) h.slash, nofun⟩
  · exact startsWith_slash_append hempty ending

/-- A name with an ending leads one name further. -/
lemma IsEnding.step_eq (path : Path) (name : String) :
    step path (name ++ ending) = path ++ [name ++ ending] := by
  have hlong : 3 ≤ (name ++ ending).length := by
    have := h.long
    rw [String.length_append]
    omega
  have hne : ∀ short : String, short.length < 3 → name ++ ending ≠ short := by
    rintro short hshort rfl
    omega
  have hempty : (name ++ ending).isEmpty = false := by
    rw [Bool.eq_false_iff, Ne, String.isEmpty_iff]
    exact hne "" (by decide)
  rw [step, if_neg (by simp [hempty, hne "." (by decide)]), if_neg (by simp [hne ".." (by decide)])]

end Endings

/-- Joining a directory and a name with an ending puts the ending after the same text. -/
lemma exists_join_append (directory name : String) :
    ∃ text, ∀ ending, IsEnding ending → join directory (name ++ ending) = text ++ ending := by
  by_cases hroot : name.startsWith "/" = true
  · refine ⟨name, fun ending h => ?_⟩
    rw [join, if_pos (by rw [h.startsWith_slash, hroot])]
  · by_cases hflat : (directory.isEmpty || directory.endsWith "/") = true
    · refine ⟨directory ++ name, fun ending h => ?_⟩
      rw [join, if_neg (by rw [h.startsWith_slash]; exact hroot), if_pos hflat, String.append_assoc]
    · refine ⟨directory ++ "/" ++ name, fun ending h => ?_⟩
      rw [join, if_neg (by rw [h.startsWith_slash]; exact hroot), if_neg hflat]
      simp only [String.append_assoc]

/-- What joined paths with different endings denote only differs in the end of the last name. -/
theorem exists_ofText_join (directory name : String) :
    ∃ place last, ∀ ending, IsEnding ending →
      ofText (join directory (name ++ ending)) = place ++ [last ++ ending] := by
  obtain ⟨text, htext⟩ := exists_join_append directory name
  obtain ⟨front, last, hpieces⟩ := exists_pieces_append text.toList
  refine ⟨(front.map String.ofList).foldl step (split text).1, String.ofList last,
    fun ending h => ?_⟩
  have hnames : names (text ++ ending) =
      front.map String.ofList ++ [String.ofList last ++ ending] := by
    rw [names, String.toList_append, hpieces _ h.slash, List.map_append, List.map_singleton,
      String.ofList_append, String.ofList_toList]
  rw [htext ending h, ofText, split, h.startsWith_slash, hnames]
  change (front.map String.ofList ++ [String.ofList last ++ ending]).foldl step (split text).1 = _
  rw [List.foldl_append, List.foldl_cons, List.foldl_nil, h.step_eq]

/-! ## The paths that are made before a directory -/

/-- The names with slashes between them are the path. -/
lemma intercalate_names (text : String) : "/".intercalate (names text) = text := by
  refine String.toList_injective ?_
  rw [String.toList_intercalate, names, List.map_map]
  have hid : String.toList ∘ String.ofList = id := funext fun _ => String.toList_ofList
  rw [hid, List.map_id]
  exact intercalate_pieces text.toList

/-- Some names of a path with slashes between them have just these names. -/
lemma names_intercalate {text : String} {parts : List String} (hne : parts ≠ [])
    (h : ∀ part ∈ parts, part ∈ names text) : names ("/".intercalate parts) = parts := by
  rw [names, String.toList_intercalate]
  have hpieces : pieces (['/'].intercalate (parts.map String.toList)) = parts.map String.toList := by
    refine pieces_intercalate (by simpa using hne) fun piece hpiece => ?_
    obtain ⟨part, hpart, rfl⟩ := List.mem_map.mp hpiece
    obtain ⟨cs, hcs, rfl⟩ := List.mem_map.mp (h part hpart)
    rw [String.toList_ofList]
    exact slash_not_mem_of_mem_pieces hcs
  change (pieces (['/'].intercalate (parts.map String.toList))).map String.ofList = parts
  rw [hpieces, List.map_map]
  have hid : String.ofList ∘ String.toList = id := funext fun _ => String.ofList_toList
  rw [hid, List.map_id]

/-- Names in two parts with slashes between them. -/
lemma intercalate_append {parts rest : List String} (hparts : parts ≠ []) (hrest : rest ≠ []) :
    "/".intercalate (parts ++ rest) = "/".intercalate parts ++ ("/" ++ "/".intercalate rest) := by
  have hlist : ∀ parts : List (List Char), parts ≠ [] →
      ['/'].intercalate (parts ++ rest.map String.toList) =
        ['/'].intercalate parts ++ (['/'] ++ ['/'].intercalate (rest.map String.toList)) := by
    intro parts hparts
    induction parts with
    | nil => exact absurd rfl hparts
    | cons part parts ih =>
      cases parts with
      | nil =>
        obtain ⟨next, others, rfl⟩ := List.exists_cons_of_ne_nil hrest
        rw [List.intercalate_singleton, List.singleton_append, List.map_cons,
          List.intercalate_cons_cons, List.append_assoc]
      | cons next parts =>
        rw [List.cons_append, List.cons_append, List.intercalate_cons_cons, ← List.cons_append,
          ih (List.cons_ne_nil _ _), List.intercalate_cons_cons]
        simp only [List.append_assoc]
  refine String.toList_injective ?_
  rw [String.toList_append, String.toList_append, String.toList_intercalate,
    String.toList_intercalate, String.toList_intercalate, List.map_append]
  exact hlist (parts.map String.toList) (by simpa using hparts)

/-- The last name of a path that ends with a name is not empty. -/
lemma EndsInName.names_eq_concat {text : String} (h : EndsInName text) :
    ∃ front last, names text = front ++ [last] ∧ last ≠ "" := by
  have hne : names text ≠ [] := by
    rw [names, Ne, List.map_eq_nil_iff]
    exact pieces_ne_nil text.toList
  refine ⟨(names text).dropLast, (names text).getLast hne, (List.dropLast_concat_getLast hne).symm, ?_⟩
  intro hlast
  have hnames := List.dropLast_concat_getLast hne
  have htext := intercalate_names text
  rw [← hnames, hlast] at htext
  by_cases hfront : (names text).dropLast = []
  · rw [hfront] at htext
    exact h.ne_empty htext.symm
  · rw [intercalate_append hfront (List.cons_ne_nil _ _)] at htext
    have hchars := congrArg String.toList htext
    rw [String.toList_append] at hchars
    have hends : text.endsWith "/" = true := endsWith_slash_iff.mpr ⟨_, hchars.symm⟩
    rw [h.endsWith_slash] at hends
    cases hends

/-- The stages of a path begin with the path itself, and the next one are some of its first names,
the last of which is not empty. -/
lemma stages_eq_cons {text : String} (h : EndsInName text) :
    ∃ above, stages text = text :: above ∧ ∀ parent, above.head? = some parent →
      ∃ parts last next rest, names text = parts ++ last :: next :: rest ∧ last ≠ "" ∧
        parent = "/".intercalate (parts ++ [last]) := by
  obtain ⟨front, last, hnames, hlast⟩ := h.names_eq_concat
  have hends : (List.range (names text).length).filter (fun i => (names text).getD i "" != "") =
      (List.range front.length).filter (fun i => (names text).getD i "" != "") ++
        [front.length] := by
    have hlength : (names text).length = front.length + 1 := by simp [hnames]
    have hget : (names text).getD front.length "" = last := by simp [hnames]
    have hkept : ((names text).getD front.length "" != "") = true := by
      rw [hget]
      exact bne_iff_ne.mpr hlast
    rw [hlength, List.range_succ, List.filter_append]
    congr 1
    exact List.filter_eq_self.mpr fun i hi => List.mem_singleton.mp hi ▸ hkept
  refine ⟨(((List.range front.length).filter fun i => (names text).getD i "" != "").reverse).map
    fun i => "/".intercalate ((names text).take (i + 1)), ?_, ?_⟩
  · rw [stages, hends, List.reverse_append, List.reverse_singleton, List.singleton_append, List.map_cons]
    congr 1
    have htake : (names text).take (front.length + 1) = names text := by
      refine List.take_of_length_le ?_
      simp [hnames]
    rw [htake, intercalate_names]
  · intro parent hparent
    obtain ⟨i, hi, rfl⟩ := List.mem_map.mp (List.mem_of_mem_head? hparent)
    rw [List.mem_reverse, List.mem_filter, List.mem_range] at hi
    obtain ⟨hless, hi⟩ := hi
    have hi' : i + 1 < (names text).length := by
      rw [hnames, List.length_append, List.length_singleton]
      omega
    have hget : (names text).getD i "" = (names text)[i] := by
      rw [List.getD_eq_getElem?_getD, List.getElem?_eq_getElem (by omega)]
      rfl
    rw [hget] at hi
    refine ⟨(names text).take i, (names text)[i], (names text)[i + 1], (names text).drop (i + 2), ?_,
      by simpa using hi, ?_⟩
    · rw [List.getElem_cons_drop, List.getElem_cons_drop, List.take_append_drop]
    · rw [List.take_append_getElem]

end RecordStore.Path
