import RecordStore.Proofs.Query.Breaking
import RecordStore.Proofs.Work
import RecordStore.Shell.Terminal

/-!
# Statements over several lines

A terminal keeps the lines of a statement until one ends with a semicolon, and then carries out what the lines
make up together.  A text with a single semicolon, at its end, may be broken into lines at any blanks outside
its quoted texts: the terminal carries out a single statement, when it takes the last line that is not blank,
and the tokens of that statement are those of the text.  Only the first line must not begin with a point, since
it would be a command then.

While lines go on, the pending lines are the lines taken so far that are not blank, without the blanks around
them; nothing else of the terminal changes.
-/

namespace RecordStore

namespace Shell

variable {pending : List String} {line : String}

/-- The lines that are not blank, without the blanks around them. -/
def parts (lines : List String) : List String :=
  (lines.map Text.strip).filter fun line => !line.isEmpty

/-- What lines make up together. -/
def joined (lines : List String) : String :=
  " ".intercalate (parts lines)

lemma parts_cons_blank (h : Text.strip line = "") (lines : List String) :
    parts (line :: lines) = parts lines := by
  rw [parts, List.map_cons, h]
  rfl

lemma parts_cons (h : Text.strip line ≠ "") (lines : List String) :
    parts (line :: lines) = Text.strip line :: parts lines := by
  rw [parts, List.map_cons, List.filter_cons_of_pos (by simpa using h)]
  rfl

lemma parts_append (lines others : List String) : parts (lines ++ others) = parts lines ++ parts others := by
  rw [parts, List.map_append, List.filter_append]
  rfl

lemma parts_of_blank {lines : List String} (h : ∀ line ∈ lines, Text.strip line = "") :
    parts lines = [] := by
  induction lines with
  | nil => rfl
  | cons line lines ih =>
    obtain ⟨hline, hlines⟩ := List.forall_mem_cons.mp h
    rw [parts_cons_blank hline, ih hlines]

/-- The characters of the lines that are not blank. -/
lemma map_toList_parts (lines : List String) :
    (parts lines).map String.toList = Text.stripped (lines.map String.toList) := by
  induction lines with
  | nil => rfl
  | cons line lines ih =>
    have hstrip : (Text.strip line).toList = Text.stripChars line.toList := String.toList_ofList
    rw [List.map_cons]
    by_cases hline : Text.strip line = ""
    · have hnone : Text.stripChars line.toList = [] := by rw [← hstrip, hline]; rfl
      rw [parts_cons_blank hline, ih, Text.stripped_cons_of_eq_nil hnone]
    · have hsome : Text.stripChars line.toList ≠ [] := by simpa [← hstrip] using hline
      rw [parts_cons hline, List.map_cons, ih, Text.stripped_cons_of_ne_nil hsome, hstrip]

/-- The characters that lines make up together. -/
lemma toList_joined (lines : List String) :
    (joined lines).toList = [' '].intercalate (Text.stripped (lines.map String.toList)) := by
  rw [joined, String.toList_intercalate, map_toList_parts]
  rfl

/-! ## Single lines -/

/-- Nothing but blanks is left of a line exactly if it is blank. -/
lemma strip_eq_empty_of_blank (h : ∀ c ∈ line.toList, Text.isBlank c = true) : Text.strip line = "" := by
  rw [Text.strip, Text.stripChars, List.dropWhile_eq_nil_iff.mpr h]
  rfl

/-- A line, without the blanks around it, ends a statement exactly if its last character that is not blank is
a semicolon. -/
lemma endsStatement_strip_iff :
    endsStatement (Text.strip line) = true ↔ Query.EndsInSemicolon line.toList := by
  have hblank : Text.isBlank ';' = false := by decide +kernel
  rw [endsStatement, Text.strip, String.toList_ofList, beq_iff_eq]
  exact Text.getLast?_stripChars_eq_some_iff hblank

/-- A line that ends a statement is not blank. -/
lemma strip_ne_empty (h : Query.EndsInSemicolon line.toList) : Text.strip line ≠ "" := by
  intro hempty
  have hends := endsStatement_strip_iff.mpr h
  rw [hempty] at hends
  cases hends

/-- A blank line is nothing. -/
lemma readLine_blank (h : Text.strip line = "") : readLine pending line = (.nothing, pending) := by
  rw [readLine, h]
  rfl

/-- A line that is no command is added to the pending ones, unless it ends the statement. -/
lemma readLine_eq (hline : Text.strip line ≠ "")
    (hcommand : pending = [] → (Text.strip line).startsWith "." = false) :
    readLine pending line =
      if endsStatement (Text.strip line) then
        (.statement (" ".intercalate (pending ++ [Text.strip line])), [])
      else (.continued, pending ++ [Text.strip line]) := by
  have hnot : (pending.isEmpty && (Text.strip line).startsWith ".") = false := by
    cases pending with
    | nil => rw [hcommand rfl, Bool.and_false]
    | cons => rfl
  rw [readLine]
  simp only [String.isEmpty_iff, hline, if_false, hnot, Bool.false_eq_true]

end Shell

namespace Terminal

variable {α β : Type}

/-! ## What stays -/

/-- Work that leaves the pending lines as they are. -/
def SparesPending (work : Work Terminal α) : Prop :=
  ∀ terminal, (work.perform terminal).2.pending = terminal.pending

namespace SparesPending

lemma ofExcept (result : Except Fault α) : SparesPending (Work.ofExcept result) :=
  fun _ => rfl

lemma bind {work : Work Terminal α} {next : α → Work Terminal β} (hwork : SparesPending work)
    (hnext : ∀ a, SparesPending (next a)) : SparesPending (work >>= next) := by
  intro terminal
  have hkept := hwork terminal
  rw [Work.perform_bind]
  revert hkept
  cases work.perform terminal with
  | mk result after =>
    cases result with
    | ok a => exact fun hkept => (hnext a after).trans hkept
    | error fault => exact id

lemma tryCatch {work : Work Terminal α} {handle : Fault → Work Terminal α} (hwork : SparesPending work)
    (hhandle : ∀ fault, SparesPending (handle fault)) : SparesPending (tryCatch work handle) := by
  intro terminal
  have hkept := hwork terminal
  rw [Work.perform_tryCatch]
  revert hkept
  cases work.perform terminal with
  | mk result after =>
    cases result with
    | ok a => exact id
    | error fault => exact fun hkept => (hhandle fault after).trans hkept

lemma sayRefusal {work : Work Terminal Unit} (hwork : SparesPending work) :
    SparesPending (sayRefusal work) := by
  refine hwork.tryCatch fun fault => ?_
  split
  · exact fun _ => rfl
  · exact fun _ => rfl

lemma showResult (result : Query.Result) : SparesPending (showResult result) :=
  (ofExcept _).bind fun _ _ => rfl

lemma switch (name : String) : SparesPending (switch name) := by
  have hopen : SparesPending (onHub (Hub.get (.text name) true)) := fun _ => rfl
  exact hopen.bind fun _ _ => rfl

/-- A statement is carried out without a change of the pending lines. -/
lemma runStatement (text : String) : SparesPending (runStatement text) := by
  refine sayRefusal ((ofExcept _).bind fun command => ?_)
  have hrest : SparesPending (onDatabase (Query.execute text) >>= Terminal.showResult) :=
    bind (fun _ => rfl) showResult
  cases command with
  | use name => exact (switch name).bind fun _ => hrest
  | _ => exact hrest

end SparesPending

/-! ## Lines in turn -/

/-- Does what a line amounts to. -/
def respond : Shell.Input → Work Terminal Unit
  | .nothing => pure ()
  | .continued => pure ()
  | .command text => runCommand text
  | .statement text => runStatement text

/-- Takes lines one after the other. -/
def takeAll (lines : List String) : Work Terminal Unit :=
  lines.forM processLine

variable {line : String} {lines firsts others : List String} {terminal after : Terminal}

/-- When a line is taken, the pending lines change first, and then the terminal does what the line amounts
to. -/
lemma run_processLine {input : Shell.Input} {pending : List String}
    (h : Shell.readLine terminal.pending line = (input, pending)) :
    run (processLine line) terminal = run (respond input) { terminal with pending } := by
  have hget : Work.perform (get : Work Terminal Terminal) terminal = (.ok terminal, terminal) := rfl
  have hset : Work.perform (modify fun terminal => { terminal with pending } : Work Terminal Unit) terminal =
      (.ok (), { terminal with pending }) := rfl
  rw [run, processLine, Work.perform_bind_ok hget, h]
  change Work.perform (_ >>= _) terminal = _
  rw [Work.perform_bind_ok hset]
  cases input <;> rfl

/-- The other lines are taken when a line has been taken without a fault. -/
lemma run_takeAll_cons (h : run (processLine line) terminal = (.ok (), after)) (lines : List String) :
    run (takeAll (line :: lines)) terminal = run (takeAll lines) after :=
  Work.perform_bind_ok h _

/-- Lines are taken behind others that have been taken without a fault. -/
lemma run_takeAll_append (h : run (takeAll firsts) terminal = (.ok (), after)) (others : List String) :
    run (takeAll (firsts ++ others)) terminal = run (takeAll others) after := by
  induction firsts generalizing terminal with
  | nil =>
    obtain rfl : terminal = after := congrArg Prod.snd h
    rfl
  | cons line firsts ih =>
    cases hline : run (processLine line) terminal with
    | mk result next =>
      cases result with
      | ok =>
        rw [run_takeAll_cons hline] at h
        rw [List.cons_append, run_takeAll_cons hline, ih h]
      | error fault =>
        have hstop : run (takeAll (line :: firsts)) terminal = (.error fault, next) :=
          Work.perform_bind_error hline _
        rw [hstop] at h
        cases h

/-- Blank lines do nothing. -/
lemma run_takeAll_blank (h : ∀ line ∈ lines, Text.strip line = "") (terminal : Terminal) :
    run (takeAll lines) terminal = (.ok (), terminal) := by
  induction lines with
  | nil => rfl
  | cons line lines ih =>
    obtain ⟨hline, hlines⟩ := List.forall_mem_cons.mp h
    rw [run_takeAll_cons (run_processLine (Shell.readLine_blank hline))]
    exact ih hlines

/-- Blank lines behind another one do nothing, also if that one ends with a fault. -/
lemma run_takeAll_cons_blank (h : ∀ line ∈ lines, Text.strip line = "") (line : String)
    (terminal : Terminal) : run (takeAll (line :: lines)) terminal = run (processLine line) terminal := by
  cases hline : run (processLine line) terminal with
  | mk result after =>
    cases result with
    | ok => rw [run_takeAll_cons hline, run_takeAll_blank h]
    | error fault => exact Work.perform_bind_error hline _

/-- While no line ends a statement, and the first of it is no command, its lines are kept, and nothing else
happens. -/
theorem run_takeAll_of_not_ends (hlines : ∀ line ∈ lines, ¬Query.EndsInSemicolon line.toList)
    (hcommand : terminal.pending = [] →
      ∀ part, (Shell.parts lines).head? = some part → part.startsWith "." = false) :
    run (takeAll lines) terminal =
      (.ok (), { terminal with pending := terminal.pending ++ Shell.parts lines }) := by
  induction lines generalizing terminal with
  | nil => rw [Shell.parts, List.map_nil, List.filter_nil, List.append_nil]; rfl
  | cons line lines ih =>
    obtain ⟨hline, hmore⟩ := List.forall_mem_cons.mp hlines
    by_cases hblank : Text.strip line = ""
    · rw [Shell.parts_cons_blank hblank] at hcommand ⊢
      rw [run_takeAll_cons (run_processLine (Shell.readLine_blank hblank))]
      exact ih hmore hcommand
    · rw [Shell.parts_cons hblank] at hcommand ⊢
      have hstep := Shell.readLine_eq hblank fun hpending => hcommand hpending _ rfl
      rw [if_neg (mt Shell.endsStatement_strip_iff.mp hline)] at hstep
      have hpending : terminal.pending ++ [Text.strip line] ≠ [] := by simp
      rw [run_takeAll_cons (run_processLine hstep)]
      refine (ih hmore fun hnone => absurd hnone hpending).trans ?_
      simp only [List.append_assoc, List.singleton_append]

/-! ## A statement over several lines -/

/-- A terminal in which no statement has been begun carries out a single statement when it takes some lines:
it keeps the first ones, carries out the statement with the last one that is not blank, and does nothing more.
No line is pending then. -/
structure CarriesOut (lines : List String) (statement : String) : Prop where
  single : ∃ firsts last blanks, lines = firsts ++ last :: blanks ∧ Text.strip last ≠ "" ∧
    (∀ line ∈ blanks, Text.strip line = "") ∧
      ∀ terminal, terminal.pending = [] →
        run (takeAll firsts) terminal = (.ok (), { terminal with pending := Shell.parts firsts }) ∧
          run (processLine last) { terminal with pending := Shell.parts firsts } =
            run (runStatement statement) terminal ∧
              ∀ after, run (takeAll blanks) after = (.ok (), after)
  run_eq : ∀ terminal, terminal.pending = [] →
    run (takeAll lines) terminal = run (runStatement statement) terminal
  pending_eq : ∀ terminal, terminal.pending = [] → (run (takeAll lines) terminal).2.pending = []

/-- Lines of which only the last one that is not blank ends a statement are carried out as one. -/
lemma carriesOut_of_ends {last : String} {blanks : List String} (hlines : lines = firsts ++ last :: blanks)
    (hfirsts : ∀ line ∈ firsts, ¬Query.EndsInSemicolon line.toList)
    (hlast : Query.EndsInSemicolon last.toList) (hblanks : ∀ line ∈ blanks, Text.strip line = "")
    (hcommand : ∀ part, (Shell.parts lines).head? = some part → part.startsWith "." = false) :
    CarriesOut lines (Shell.joined lines) := by
  have hline := Shell.strip_ne_empty hlast
  have hparts : Shell.parts lines = Shell.parts firsts ++ [Text.strip last] := by
    rw [hlines, Shell.parts_append, Shell.parts_cons hline, Shell.parts_of_blank hblanks]
  have hkept : ∀ terminal : Terminal, terminal.pending = [] →
      run (takeAll firsts) terminal = (.ok (), { terminal with pending := Shell.parts firsts }) := by
    intro terminal hpending
    have hbegun : terminal.pending = [] →
        ∀ part, (Shell.parts firsts).head? = some part → part.startsWith "." = false :=
      fun _ part hpart => hcommand part (by rw [hparts, List.head?_append, hpart, Option.some_or])
    rw [run_takeAll_of_not_ends hfirsts hbegun, hpending, List.nil_append]
  have hdone : ∀ terminal : Terminal, terminal.pending = [] →
      run (processLine last) { terminal with pending := Shell.parts firsts } =
        run (runStatement (Shell.joined lines)) terminal := by
    intro terminal hpending
    have halone : Shell.parts firsts = [] → (Text.strip last).startsWith "." = false :=
      fun hnone => hcommand _ (by rw [hparts, hnone]; rfl)
    have hread := Shell.readLine_eq hline halone
    rw [if_pos (Shell.endsStatement_strip_iff.mpr hlast), ← hparts] at hread
    have hsame : ({ terminal with pending := [] } : Terminal) = terminal := by rw [← hpending]
    have hrespond : respond (.statement (Shell.joined lines)) = runStatement (Shell.joined lines) := rfl
    rw [← hrespond, ← hsame]
    exact run_processLine hread
  have hrun : ∀ terminal : Terminal, terminal.pending = [] →
      run (takeAll lines) terminal = run (runStatement (Shell.joined lines)) terminal := by
    intro terminal hpending
    rw [hlines, run_takeAll_append (hkept terminal hpending), run_takeAll_cons_blank hblanks, ← hlines,
      hdone terminal hpending]
  refine ⟨⟨firsts, last, blanks, hlines, hline, hblanks, fun terminal hpending =>
    ⟨hkept terminal hpending, hdone terminal hpending, run_takeAll_blank hblanks⟩⟩, hrun, ?_⟩
  intro terminal hpending
  rw [hrun terminal hpending]
  exact (SparesPending.runStatement _ terminal).trans hpending

end Terminal

end RecordStore
