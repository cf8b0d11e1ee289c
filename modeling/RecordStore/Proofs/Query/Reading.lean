import RecordStore.Proofs.Escaping
import RecordStore.Proofs.Number.Digits
import RecordStore.Query.Reading

/-!
# How the reading of queries ends

A query is read as a command, or refused, unless it has a word that is no number that can be read: a
numeral of an integer of too many digits, or a run of digits that are too many or not all decimal.  The
values that come of the reading have texts, since an integer that can be read can be written.
-/

namespace RecordStore

open Number (digitLimit)

/-! ## Integers that can be read -/

/-- A run of digits denotes a number of no more digits. -/
lemma Numeral.naturalOf_lt (digits : List Char) : naturalOf digits < 10 ^ digits.length := by
  have hdigit : ∀ c, (Text.digitValue? c).getD 0 < 10 := by
    intro c
    rw [Text.digitValue?]
    cases Text.decimalRanges.find? _ with
    | none => exact Nat.succ_pos 9
    | some range => exact Nat.mod_lt _ (by decide)
  induction digits with
  | nil => decide
  | cons c rest ih =>
    have hfirst := hdigit c
    rw [← List.singleton_append, naturalOf_append, List.length_append, pow_add]
    have hsingle : naturalOf [c] = (Text.digitValue? c).getD 0 := by simp [naturalOf]
    rw [hsingle]
    simp only [List.length_singleton, pow_one]
    have hplaces := Nat.mul_le_mul_right (10 ^ rest.length) (Nat.le_of_lt_succ hfirst)
    omega

/-- An integer below the limit of digits has a text. -/
lemma Value.isTold_int {i : Int} (h : i.natAbs < 10 ^ digitLimit) : (Value.int i).IsTold := by
  have hsome := Number.integerText?_eq_some.mpr ⟨h, rfl⟩
  rw [IsTold, display?, innerText?, hsome]
  · rfl
  all_goals
    intro _ heq
    cases heq

/-- A number that can be read has a text. -/
lemma Value.isTold_ofNumber {numeral : Numeral} {n : Number} (h : numeral.number? = some n) :
    (Value.ofNumber n).IsTold := by
  rw [Numeral.number?] at h
  split at h
  · split at h
    · rename_i hlength
      obtain rfl := Option.some.inj h
      refine Value.isTold_int (lt_of_eq_of_lt ?_ (lt_of_lt_of_le
        (Numeral.naturalOf_lt numeral.whole) (Nat.pow_le_pow_right (by decide) hlength)))
      rw [Numeral.signed]
      split <;> simp
    · cases h
  · obtain rfl := Option.some.inj h
    rfl

namespace Query

/-- A word is no number that can be read: as a literal, a numeral of an integer of too many digits, or,
as a size or a limit, digits that are too many or not all decimal. -/
def Token.IsUnreadable (token : Token) : Prop :=
  token.kind = .word ∧
    ((∃ numeral, Numeral.parse? token.text.toList = some numeral ∧ numeral.number? = none) ∨
      Text.isDigitRun token.text = true ∧
        (Text.naturalOfDigits? token.text.toList = none ∨ digitLimit < token.text.toList.length))

/-- The values that a command states have texts. -/
def Command.IsTold : Command → Prop
  | .createTable _ columns => ∀ c ∈ columns, TellsValues c.2
  | .select selection => ∀ c ∈ selection.condition, c.value.IsTold
  | .update _ _ condition => ∀ c ∈ condition, c.value.IsTold
  | .delete _ condition => ∀ c ∈ condition, c.value.IsTold
  | _ => True

namespace Reader

variable {α β : Type} {given : Token → Prop} {P : α → Prop} {Q : β → Prop}

/-- Of the tokens that are given a reader takes some and gives something with a property, or it refuses
them, or comes upon a word that is no number that can be read. -/
def Answers (given : Token → Prop) (P : α → Prop) (reader : Reader α) : Prop :=
  ∀ tokens, (∀ t ∈ tokens, given t) →
    match reader.run tokens with
    | .ok (a, rest) => P a ∧ ∀ t ∈ rest, given t
    | .error fault => fault.isRefusal = true ∨ ∃ t, given t ∧ t.IsUnreadable

/-! ## Steps of readers -/

/-- What is returned has the properties that it has. -/
lemma Answers.pure {a : α} (h : P a) : Answers given P (Pure.pure a) :=
  fun _ htokens => ⟨h, htokens⟩

/-- A reader goes on with what the one before has given. -/
lemma Answers.bind {reader : Reader α} {next : α → Reader β} (h : Answers given P reader)
    (hnext : ∀ a, P a → Answers given Q (next a)) : Answers given Q (reader >>= next) := by
  intro tokens htokens
  have hfirst := h tokens htokens
  change match (reader.run tokens >>= fun (a, rest) => (next a).run rest) with
    | .ok (b, rest) => Q b ∧ ∀ t ∈ rest, given t
    | .error fault => fault.isRefusal = true ∨ ∃ t, given t ∧ t.IsUnreadable
  cases hrun : reader.run tokens with
  | error fault =>
    rw [hrun] at hfirst
    exact hfirst
  | ok outcome =>
    obtain ⟨a, rest⟩ := outcome
    rw [hrun] at hfirst
    exact hnext a hfirst.1 rest hfirst.2

/-- A reader goes on whatever the one before has given. -/
lemma Answers.andThen {reader : Reader α} {next : α → Reader β} (h : Answers given P reader)
    (hnext : ∀ a, Answers given Q (next a)) : Answers given Q (reader >>= next) :=
  h.bind fun a _ => hnext a

/-- A reader goes on in one of two ways. -/
lemma Answers.ite {c : Prop} [Decidable c] {yes no : Reader α} (hyes : Answers given P yes)
    (hno : Answers given P no) : Answers given P (if c then yes else no) := by
  split
  · exact hyes
  · exact hno

/-- A problem is a refusal. -/
lemma answers_problem (p : Problem) : Answers given P (problem p) :=
  fun _ _ => Or.inl rfl

/-- Nothing comes after a problem. -/
lemma answers_problem_bind (p : Problem) (next : α → Reader β) :
    Answers given Q (problem p >>= next) :=
  Answers.bind (P := fun _ => False) (answers_problem p) fun _ h => h.elim

/-- The next token is the end, or is given. -/
lemma answers_peek : Answers given (fun t => t.kind = .finish ∨ given t) peek := by
  intro tokens htokens
  refine ⟨?_, htokens⟩
  cases tokens with
  | nil => exact Or.inl rfl
  | cons t rest => exact Or.inr (htokens t List.mem_cons_self)

/-- A token that is taken is one less. -/
lemma answers_next : Answers given (fun _ => True) next := by
  refine answers_peek.andThen fun token => ?_
  refine .ite ?_ (.pure trivial)
  have hdrop : Answers given (fun _ => True) (modify (·.drop 1) : Reader PUnit) :=
    fun tokens htokens => ⟨trivial, fun t ht => htokens t (List.mem_of_mem_drop ht)⟩
  exact hdrop.andThen fun _ => .pure trivial

/-- A token of a kind is taken if it comes next. -/
lemma answers_takes (kind : TokenKind) : Answers given (fun _ => True) (takes kind) := by
  unfold takes
  refine answers_peek.andThen fun token => .ite ?_ (.pure trivial)
  exact answers_next.andThen fun _ => .pure trivial

/-- A keyword is taken if it comes next. -/
lemma answers_takesWord (words : List String) : Answers given (fun _ => True) (takesWord words) := by
  unfold takesWord
  refine answers_peek.andThen fun token => .ite ?_ (.pure trivial)
  exact answers_next.andThen fun _ => .pure trivial

/-- A token of a kind is expected. -/
lemma answers_expect (kind : TokenKind) (what : String) :
    Answers given (fun _ => True) (expect kind what) := by
  unfold expect
  exact (answers_takes kind).andThen fun _ => .ite (.pure trivial) (answers_problem _)

/-- A keyword is expected. -/
lemma answers_expectWord (word what : String) :
    Answers given (fun _ => True) (expectWord word what) := by
  unfold expectWord
  exact (answers_takesWord _).andThen fun _ => .ite (.pure trivial) (answers_problem _)

/-- A name is the text of a word that is given. -/
lemma answers_name (what : String) :
    Answers given (fun s => ∃ t, given t ∧ t.kind = .word ∧ t.text = s) (name what) := by
  unfold name
  refine answers_peek.bind fun token htoken => ?_
  by_cases hword : token.kind = .word
  · rw [if_pos hword]
    have hgiven : given token := htoken.resolve_left (by rw [hword]; decide)
    exact answers_next.andThen fun _ => .pure ⟨token, hgiven, hword, rfl⟩
  · rw [if_neg hword]
    exact answers_problem _

/-- The end is expected. -/
lemma answers_finish : Answers given (fun _ => True) finish := by
  unfold finish
  exact answers_peek.andThen fun _ => .ite (answers_problem _) (.pure trivial)

/-- What is added item by item keeps a property that every item keeps. -/
lemma answers_commaFold {item : α → Reader α} (hitem : ∀ a, P a → Answers given P (item a)) {a : α}
    (h : P a) : Answers given P (commaFold item a) := by
  have hfold : ∀ (fuel : Nat) (a : α), P a → Answers given P (commaFoldWithin item fuel a) := by
    intro fuel
    induction fuel with
    | zero => exact hitem
    | succ fuel ih =>
      intro a ha
      rw [commaFoldWithin]
      refine (hitem a ha).bind fun b hb => ?_
      exact (answers_takes .comma).andThen fun more => .ite (ih b hb) (.pure hb)
  have hget : Answers given (fun _ => True) (get : Reader (List Token)) :=
    fun tokens htokens => ⟨trivial, htokens⟩
  unfold commaFold
  exact hget.andThen fun tokens => hfold _ a h

/-! ## Literals and counts -/

/-- The value of a word has a text. -/
lemma isTold_wordValue {text : String} {v : Value} (h : wordValue text = .ok v) : v.IsTold := by
  unfold wordValue at h
  split at h
  · rename_i numeral _
    split at h
    · rename_i n hnumber
      obtain rfl := Except.ok.inj h
      exact Value.isTold_ofNumber hnumber
    · cases h
  · obtain rfl := Except.ok.inj h
    split
    · rfl
    · split
      · rfl
      · split <;> rfl

/-- A word without a value is an integer of too many digits. -/
lemma numeral_of_wordValue {text : String} {fault : Fault} (h : wordValue text = .error fault) :
    ∃ numeral, Numeral.parse? text.toList = some numeral ∧ numeral.number? = none := by
  unfold wordValue at h
  split at h
  · rename_i numeral hparse
    split at h
    · cases h
    · rename_i hnumber
      exact ⟨numeral, hparse, hnumber⟩
  · cases h

/-- A size or a limit has a text. -/
lemma isTold_count {text : String} {n : Nat} (h : count text = .ok n) : (Value.int n).IsTold := by
  unfold count at h
  dsimp only at h
  split at h
  · cases h
  · rename_i m hdigits
    split at h
    · rename_i hlength
      obtain rfl := Except.ok.inj h
      refine Value.isTold_int ?_
      rw [Int.natAbs_natCast, ← (Text.naturalOfDigits?_eq_some_iff.mp hdigits).2]
      exact lt_of_lt_of_le (Numeral.naturalOf_lt _) (Nat.pow_le_pow_right (by decide) hlength)
    · cases h

/-- Digits that are no size or limit are too many or not all decimal. -/
lemma digits_of_count {text : String} {fault : Fault} (h : count text = .error fault) :
    Text.naturalOfDigits? text.toList = none ∨ digitLimit < text.toList.length := by
  unfold count at h
  dsimp only at h
  split at h
  · rename_i hdigits
    exact Or.inl hdigits
  · split at h
    · cases h
    · rename_i hlength
      exact Or.inr (Nat.lt_of_not_le hlength)

/-- A step that only fails because of a word that is no number that can be read may be taken by a
reader. -/
lemma answers_lift {step : Except Fault α} (hok : ∀ a, step = .ok a → P a)
    (herror : ∀ fault, step = .error fault → ∃ t, given t ∧ t.IsUnreadable) :
    Answers given P (liftM step : Reader α) := by
  intro tokens htokens
  cases step with
  | ok a => exact ⟨hok a rfl, htokens⟩
  | error fault => exact Or.inr (herror fault rfl)

/-- A literal has a text. -/
lemma answers_literal : Answers given Value.IsTold literal := by
  unfold literal
  refine answers_peek.bind fun token htoken => ?_
  refine .ite (answers_next.andThen fun _ => .pure rfl) ?_
  by_cases hword : token.kind = .word
  · rw [if_pos hword]
    have hgiven : given token := htoken.resolve_left (by rw [hword]; decide)
    refine answers_next.andThen fun _ => answers_lift (fun v => isTold_wordValue) ?_
    exact fun fault hfault => ⟨token, hgiven, hword, Or.inl (numeral_of_wordValue hfault)⟩
  · rw [if_neg hword]
    exact answers_problem _

/-- A size or limit that is given by a word has a text. -/
lemma answers_count {text : String} (hgiven : ∃ t, given t ∧ t.kind = .word ∧ t.text = text)
    (hdigits : Text.isDigitRun text = true) :
    Answers given (fun n : Nat => (Value.int n).IsTold) (liftM (count text) : Reader Nat) := by
  obtain ⟨token, hgiven, hword, rfl⟩ := hgiven
  refine answers_lift (fun n => isTold_count) fun fault hfault => ?_
  exact ⟨token, hgiven, hword, Or.inr ⟨hdigits, digits_of_count hfault⟩⟩

/-! ## Clauses -/

/-- A condition compares with a value that has a text. -/
lemma answers_condition : Answers given (fun c => c.value.IsTold) condition := by
  unfold condition
  refine (answers_name _).andThen fun column => answers_peek.andThen fun token => ?_
  have hrest : ∀ operator, Answers given (fun c : Condition => c.value.IsTold)
      (do return ⟨column, operator, ← literal⟩) :=
    fun operator => answers_literal.bind fun v hv => .pure hv
  refine (answers_takesWord _).andThen fun like => .ite ?_ (.ite ?_ (answers_problem_bind _ _))
  · exact answers_next.andThen fun _ => hrest _
  · exact hrest _

/-- An optional condition compares with a value that has a text. -/
lemma answers_whereClause :
    Answers given (fun condition => ∀ c ∈ condition, c.value.IsTold) whereClause := by
  unfold whereClause
  refine (answers_takesWord _).andThen fun stated => .ite ?_ (.pure nofun)
  refine answers_condition.bind fun c hc => .pure fun other hother => ?_
  obtain rfl := Option.some.inj hother
  exact hc

/-- An order is read. -/
lemma answers_orderClause : Answers given (fun _ => True) orderClause := by
  unfold orderClause
  refine (answers_takesWord _).andThen fun stated => .ite ?_ (.pure trivial)
  refine (answers_expectWord _ _).andThen fun _ => (answers_name _).andThen fun column => ?_
  refine (answers_takesWord _).andThen fun descending => .ite (.pure trivial) ?_
  exact (answers_takesWord _).andThen fun _ => .pure trivial

/-- A limit is read. -/
lemma answers_limitClause : Answers given (fun _ => True) limitClause := by
  unfold limitClause
  refine (answers_takesWord _).andThen fun stated => .ite ?_ (.pure trivial)
  refine answers_peek.bind fun token htoken => ?_
  by_cases hcount : (token.kind = .word && Text.isDigitRun token.text) = true
  · rw [if_pos hcount]
    obtain ⟨hword, hdigits⟩ := Bool.and_eq_true_iff.mp hcount
    have hword := of_decide_eq_true hword
    have hgiven : given token := htoken.resolve_left (by rw [hword]; decide)
    refine answers_next.andThen fun _ => ?_
    exact (answers_count ⟨token, hgiven, hword, rfl⟩ hdigits).andThen fun n => .pure trivial
  · rw [if_neg hcount]
    exact answers_problem_bind _ _

/-! ## Declarations -/

/-- One more value with a text may be declared. -/
lemma tellsValues_put {declared : Fields} (h : TellsValues declared) (name : String) {v : Value}
    (hv : v.IsTold) : TellsValues (Entries.put name v declared) := by
  intro field hfield
  rcases Entries.mem_put hfield with hold | ⟨hnew, -⟩
  · exact h field hold
  · rw [hnew]
    exact hv

/-- A reference has a text. -/
lemma answers_reference : Answers given Value.IsTold reference := by
  unfold reference
  refine (answers_name _).andThen fun table => (answers_takes _).andThen fun opened => ?_
  refine .ite ?_ (.pure rfl)
  refine (answers_name _).andThen fun column => ?_
  exact (answers_expect _ _).andThen fun _ => .pure rfl

variable {declared : Fields}

/-- A property is declared by a value that has a text. -/
lemma answers_property (column : String) (h : TellsValues declared) :
    Answers given TellsValues (property column declared) := by
  unfold property
  refine (answers_takesWord _).andThen fun primary => .ite ?_ ?_
  · exact (answers_expectWord _ _).andThen fun _ => .pure (tellsValues_put h _ rfl)
  refine (answers_takesWord _).andThen fun unique => .ite (.pure (tellsValues_put h _ rfl)) ?_
  refine (answers_takesWord _).andThen fun numbered => .ite (.pure (tellsValues_put h _ rfl)) ?_
  refine (answers_takesWord _).andThen fun required => .ite ?_ ?_
  · exact (answers_expectWord _ _).andThen fun _ => .pure (tellsValues_put h _ rfl)
  refine (answers_takesWord _).andThen fun free => .ite (.pure h) ?_
  refine (answers_takesWord _).andThen fun filled => .ite ?_ ?_
  · exact answers_literal.bind fun v hv => .pure (tellsValues_put h _ hv)
  refine (answers_takesWord _).andThen fun refers => .ite ?_ ?_
  · exact answers_reference.bind fun v hv => .pure (tellsValues_put h _ hv)
  · exact answers_peek.andThen fun token => answers_problem _

/-- Properties are declared by values that have texts. -/
lemma answers_propertiesWithin (column : String) (fuel : Nat) (h : TellsValues declared) :
    Answers given TellsValues (propertiesWithin column fuel declared) := by
  induction fuel generalizing declared with
  | zero => exact .pure h
  | succ fuel ih =>
    rw [propertiesWithin]
    refine answers_peek.andThen fun token => .ite (.pure h) ?_
    exact (answers_property column h).bind fun declared' h' => ih h'

/-- A size is declared by a value that has a text. -/
lemma answers_sizeOf (column : String) (h : TellsValues declared) :
    Answers given TellsValues (sizeOf column declared) := by
  unfold Reader.sizeOf
  refine (answers_takes _).andThen fun opened => .ite ?_ (.pure h)
  refine (answers_name _).bind fun size hsize => ?_
  by_cases hdigits : Text.isDigitRun size = true
  · rw [if_pos hdigits]
    refine (answers_count hsize hdigits).bind fun n hn => ?_
    exact (answers_expect _ _).andThen fun _ => .pure (tellsValues_put h _ hn)
  · rw [if_neg hdigits]
    exact answers_problem_bind _ _

/-- A column is declared by values that have texts. -/
lemma answers_column : Answers given (fun declaration => TellsValues declaration.2) column := by
  have hget : Answers given (fun _ => True) (get : Reader (List Token)) :=
    fun tokens htokens => ⟨trivial, htokens⟩
  unfold Reader.column
  refine (answers_name _).andThen fun name => (answers_name _).andThen fun type => ?_
  have htype : TellsValues [("type", Value.text type)] := fun field hfield => by
    obtain rfl := List.mem_singleton.mp hfield
    rfl
  refine (answers_sizeOf name htype).bind fun declared h => hget.andThen fun tokens => ?_
  exact (answers_propertiesWithin name _ h).bind fun declared' h' => .pure h'

/-- A table is declared by values that have texts. -/
lemma answers_createTable : Answers given Command.IsTold createTable := by
  have hcolumns : Answers given (fun columns : List (String × Fields) =>
      ∀ declaration ∈ columns, TellsValues declaration.2) (commaFold anotherColumn []) := by
    refine answers_commaFold (fun columns h => ?_) nofun
    unfold anotherColumn
    refine answers_column.bind fun declaration hdeclaration => ?_
    refine .ite (answers_problem_bind _ _) (.pure fun other hother => ?_)
    rcases List.mem_append.mp hother with hold | hnew
    · exact h other hold
    · obtain rfl := List.mem_singleton.mp hnew
      exact hdeclaration
  unfold createTable
  refine (answers_name _).andThen fun table => (answers_expect _ _).andThen fun _ => ?_
  refine hcolumns.bind fun columns h => (answers_expect _ _).andThen fun _ => ?_
  exact answers_finish.andThen fun _ => .pure h

/-- The declaration of an index is read. -/
lemma answers_createIndex : Answers given Command.IsTold createIndex := by
  have hrest : ∀ label : Option String, Answers given Command.IsTold (do
      expectWord "ON" "ON in CREATE INDEX"
      let table ← name "table name"
      expect .openParen "( before indexed column"
      let column ← name "column name"
      expect .closeParen ") after indexed column"
      finish
      return .createIndex table column label) := by
    intro label
    refine (answers_expectWord _ _).andThen fun _ => (answers_name _).andThen fun table => ?_
    refine (answers_expect _ _).andThen fun _ => (answers_name _).andThen fun column => ?_
    refine (answers_expect _ _).andThen fun _ => answers_finish.andThen fun _ => .pure ?_
    exact trivial
  unfold createIndex
  refine answers_peek.andThen fun token => .ite (hrest none) ?_
  have hlabel : Answers given (fun _ => True) (some <$> name "index name") := by
    rw [map_eq_pure_bind]
    exact (answers_name _).andThen fun label => .pure trivial
  exact hlabel.andThen hrest

/-- A declaration is read. -/
lemma answers_create : Answers given Command.IsTold create := by
  unfold create
  refine (answers_takesWord _).andThen fun table => .ite answers_createTable ?_
  refine (answers_takesWord _).andThen fun index => .ite answers_createIndex ?_
  exact answers_peek.andThen fun token => .ite (answers_problem _) (answers_problem _)

/-! ## Statements on records -/

/-- An insertion is read. -/
lemma answers_insert : Answers given Command.IsTold Reader.insert := by
  have hnames : Answers given (fun _ => True) (commaFold anotherName []) := by
    refine answers_commaFold (fun columns _ => ?_) trivial
    unfold anotherName
    refine (answers_name _).andThen fun column => ?_
    exact .ite (answers_problem_bind _ _) (.pure trivial)
  have hvalues : Answers given (fun _ => True) (commaFold anotherValue []) := by
    refine answers_commaFold (fun values _ => ?_) trivial
    unfold anotherValue
    exact answers_literal.andThen fun v => .pure trivial
  unfold Reader.insert
  refine (answers_expectWord _ _).andThen fun _ => (answers_name _).andThen fun table => ?_
  refine (answers_takes _).andThen fun opened => .ite ?_ (answers_problem_bind _ _)
  refine hnames.andThen fun columns => (answers_expect _ _).andThen fun _ => ?_
  refine (answers_expectWord _ _).andThen fun _ => (answers_expect _ _).andThen fun _ => ?_
  refine hvalues.andThen fun values => (answers_expect _ _).andThen fun _ => ?_
  refine answers_finish.andThen fun _ => .ite (answers_problem_bind _ _) (.pure ?_)
  exact trivial

/-- A selection is read. -/
lemma answers_select : Answers given Command.IsTold select := by
  have hcolumns : Answers given (fun _ => True) (commaFold anotherSelected []) := by
    refine answers_commaFold (fun columns _ => ?_) trivial
    unfold anotherSelected
    refine (answers_takes _).andThen fun star => .ite (.pure trivial) ?_
    exact (answers_name _).andThen fun column => .pure trivial
  unfold select
  refine hcolumns.andThen fun columns => (answers_expectWord _ _).andThen fun _ => ?_
  refine (answers_name _).andThen fun table => answers_whereClause.bind fun condition h => ?_
  refine answers_orderClause.andThen fun order => answers_limitClause.andThen fun limit => ?_
  exact answers_finish.andThen fun _ => .pure h

/-- An update is read. -/
lemma answers_update : Answers given Command.IsTold update := by
  have hassignments : Answers given (fun _ => True) (commaFold anotherAssignment []) := by
    refine answers_commaFold (fun assignments _ => ?_) trivial
    unfold anotherAssignment
    refine (answers_name _).andThen fun column => answers_peek.andThen fun token => ?_
    refine .ite ?_ (answers_problem_bind _ _)
    exact answers_next.andThen fun _ => answers_literal.andThen fun v => .pure trivial
  unfold update
  refine (answers_name _).andThen fun table => (answers_expectWord _ _).andThen fun _ => ?_
  refine hassignments.andThen fun assignments => answers_whereClause.bind fun condition h => ?_
  exact answers_finish.andThen fun _ => .pure h

/-- A deletion is read. -/
lemma answers_delete : Answers given Command.IsTold delete := by
  unfold delete
  refine (answers_expectWord _ _).andThen fun _ => (answers_name _).andThen fun table => ?_
  refine answers_whereClause.bind fun condition h => ?_
  exact answers_finish.andThen fun _ => .pure h

/-- A statement is read, and the values that it states have texts. -/
theorem answers_command : Answers given Command.IsTold command := by
  have hdrop : Answers given Command.IsTold dropTable := by
    unfold dropTable
    refine (answers_expectWord _ _).andThen fun _ => (answers_name _).andThen fun table => ?_
    exact answers_finish.andThen fun _ => .pure trivial
  have huse : Answers given Command.IsTold useDatabase := by
    unfold useDatabase
    refine (answers_name _).andThen fun database => ?_
    exact answers_finish.andThen fun _ => .pure trivial
  unfold command
  refine answers_next.andThen fun first => .ite (answers_problem_bind _ _) ?_
  refine .ite answers_create (.ite answers_insert (.ite answers_select ?_))
  refine .ite answers_update (.ite answers_delete (.ite hdrop (.ite huse ?_)))
  exact answers_problem _

end Reader

/-! ## Texts -/

/-- The tokens of a text are read as a command whose values have texts, or refused, unless one of them
is a word that is no number that can be read. -/
lemma Command.ofTokens_cases (tokens : List Token) :
    match Command.ofTokens tokens with
    | .ok command => command.IsTold
    | .error fault => fault.isRefusal = true ∨ ∃ t ∈ tokens, t.IsUnreadable := by
  have hcommand : Reader.Answers (· ∈ tokens) Command.IsTold Reader.command :=
    Reader.answers_command
  have hanswers := hcommand tokens fun _ ht => ht
  rw [Command.ofTokens]
  cases hrun : Reader.command.run tokens with
  | error fault =>
    rw [hrun] at hanswers
    exact hanswers
  | ok outcome =>
    rw [hrun] at hanswers
    exact hanswers.1

/-- The values that a query states have texts. -/
theorem isTold_of_ofText {text : String} {command : Command}
    (h : Command.ofText text = .ok command) : command.IsTold := by
  unfold Command.ofText at h
  split at h
  · rename_i tokens _
    have hcases := Command.ofTokens_cases tokens
    rw [h] at hcases
    exact hcases
  · cases h

/-- A fault that escapes from the reading of a query comes from a word that is no number that can be
read. -/
theorem exists_isUnreadable_of_escapes {text : String} (h : Escapes (Command.ofText text)) :
    ∃ tokens, Token.ofText text = .ok tokens ∧ ∃ t ∈ tokens, t.IsUnreadable := by
  unfold Command.ofText at h
  split at h
  · rename_i tokens htokens
    obtain ⟨fault, hfault, hrefusal⟩ := h
    have hcases := Command.ofTokens_cases tokens
    rw [hfault] at hcases
    refine ⟨tokens, htokens, hcases.resolve_left ?_⟩
    rw [hrefusal]
    exact Bool.false_ne_true
  · exact absurd h (not_escapes_error rfl)

end Query

end RecordStore
