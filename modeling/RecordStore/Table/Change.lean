import RecordStore.Table.Matching

/-!
# Changing tables

Insertions, updates, deletions and changes of the indexes. Everything that is asked of a table is
checked before anything is changed, and a change ends with the files being written. Absent values
of numbered columns are filled with the successor of the greatest number in the column. An update
checks all rows that it is about to write, also against each other.
-/

namespace RecordStore.Table

/-! ## Insertion -/

/-- Whether a value of a unique column is held by a row other than those excluded. -/
def isTaken (table : Table) (excluded : List RowId) : TakenTest := fun column v =>
  match table.index? column with
  | some index => (index.ids v).any fun id => !excluded.contains id
  | none => false

/-- The numbers that rows hold in a column; truth values do not count. -/
def numbersIn (column : Value) : List (RowId × Row) → Except Fault (List Number)
  | [] => .ok []
  | (_, row) :: rest => do
    let v ← row.value column
    let others ← numbersIn column rest
    return match v with
      | .int i => .whole i :: others
      | .float x => .binary x :: others
      | _ => others

/-- The greatest of some numbers, or zero if there are none. -/
def greatest : List Number → Number
  | [] => .whole 0
  | n :: rest => rest.foldl Number.larger n

/-- The least payload that is not among those of some numbers. -/
def freshPayload (numbers : List Number) : Nat :=
  let isFree := fun payload => !numbers.contains (.binary (.notNumber payload))
  ((List.range (numbers.length + 1)).find? isFree).getD 0

/-- The numbers that are keys of the index of a column. -/
def numberKeys (table : Table) (column : Value) : List Number :=
  (table.index? column).elim [] fun index => index.buckets.filterMap (·.1.number?)

/-- The number that fills a numbered column: the successor of the greatest one. If that is not a
number, it is told apart from all that the column and its index hold. -/
def nextNumber (table : Table) (column : Value) : Except Fault Value := do
  let numbers ← numbersIn column table.rows
  match (greatest numbers).successor with
  | .binary (.notNumber _) =>
    return .float (.notNumber (freshPayload (numbers ++ table.numberKeys column)))
  | next => return .ofNumber next

/-- Fills numbered columns that are absent. -/
def fillNumbers (table : Table) (record : Record) : List Value → Except Fault Record
  | [] => .ok record
  | column :: rest => do
    let v ← table.nextNumber column
    table.fillNumbers (if Entries.has column record then record else record ++ [(column, v)]) rest

/-- A record in the order of the columns of a schema. -/
def inOrder (schema : Schema) (record : Record) : Record :=
  schema.names.filterMap fun name => (record.lookup name).map fun v => (name, v)

/-- Fills the numbered columns of a record that has been checked. -/
def complete (table : Table) (record : Record) : Except Fault Record :=
  let columns := table.schema.autoNames
  if columns.all fun column => Entries.has column record then .ok record
  else (table.fillNumbers record columns).map (inOrder table.schema)

/-- Appends a record as a new row. -/
def append (table : Table) (record : Record) : Reply Record :=
  let n := table.nextRowId
  let id := Value.ofNumber n
  let table := { table with nextRowId := n.successor }.withRow id (.record record)
  match table.indexRow id (.record record) with
  | (table, some fault) => ⟨.error fault, table, []⟩
  | (table, none) => ⟨.ok record, table, table.saveAll ++ [.note (.rowInserted n table.name)]⟩

/-- Inserts a record: checks it, fills it and appends it. -/
def insert (table : Table) (v : Value) : Reply Record :=
  match (table.schema.validateValue (table.isTaken []) v).bind table.complete with
  | .ok record => table.append record
  | .error fault => .refused table fault

/-! ## Update -/

/-- The columns that a patch names: the keys of a mapping, or the parts of another value. -/
def patchKeys (patch : Value) : Except Fault (List Value) :=
  match patch.items? with
  | some keys => .ok keys
  | none => .error .wrongType

/-- The keys that are no columns of a schema. -/
def unknownKeys (schema : Schema) (keys : List Value) : Except Fault (List Value) :=
  if keys.all (·.isHashable) then .ok (keys.filter fun key => !schema.has key)
  else .error .wrongType

/-- Makes sure that all keys are columns of a schema. -/
def checkKeys (schema : Schema) (keys : List Value) : Except Fault Unit := do
  let unknown ← unknownKeys schema keys
  let broken ← unknown.mapM fun key => key.display.map .unknownColumn
  if !broken.isEmpty then throw (.violations broken)

/-- A patch as values by column. -/
def patchRecord (patch : Value) : Except Fault Record :=
  match patch with
  | .map record => .ok record
  | _ => .error .wrongShape

/-- A record with the values of a patch in place of its own; an absent value clears the column. -/
def merge (record patch : Record) : Record :=
  patch.foldl (fun record (column, v) =>
    if v.isNull then Entries.drop column record else Entries.put column v record) record

/-- Makes sure that a patch of the primary key leaves every row its own key. -/
def checkKeyChange (table : Table) (patch : Value) (targets : List RowId) : Except Fault Unit :=
  match table.schema.primaryKey with
  | none => .ok ()
  | some key => do
    let v := (← patchRecord patch).value key
    if v.isNull then return
    let kind := ((table.schema.column? key).map (·.kind)).getD .string
    let v := if ← kind.accepts v then kind.coerce v else v
    let holders ← table.matching (.map [(key, v)])
    if holders.any (fun id => !targets.contains id) || targets.length > 1 then
      throw .duplicateKey

/-- The records that the rows under some ids become under a patch. -/
def stage (table : Table) (patch : Value) (isTaken : TakenTest) :
    List RowId → Except Fault (List (RowId × Record))
  | [] => .ok []
  | id :: rest => do
    let record ← table.recordAt id
    let changes ← patchRecord patch
    let record ← table.schema.validate isTaken true (merge record changes)
    return (id, record) :: (← table.stage patch isTaken rest)

/-- Whether two of some values are the same key; absent values do not count. -/
def hasRepeat : List Value → Bool
  | [] => false
  | v :: rest => (!v.isNull && rest.contains v) || hasRepeat rest

/-- Makes sure that the staged records differ from each other in the unique columns that a patch
changes. -/
def checkStaged (patch : Record) (staged : List (RowId × Record)) :
    List Value → Except Fault Unit
  | [] => .ok ()
  | column :: rest =>
    let values := staged.map fun (_, record) => record.value column
    if Entries.has column patch && hasRepeat values then
      .error (.violation (.duplicate column.label))
    else checkStaged patch staged rest

/-- Puts staged records in the place of their rows. -/
def replaceRows (table : Table) : List (RowId × Record) → Table × Option Fault
  | [] => (table, none)
  | (id, record) :: rest =>
    match table.unindexRow id ((table.row? id).getD (.record [])) with
    | (table, some fault) => (table, some fault)
    | (table, none) =>
      match (table.withRow id (.record record)).indexRow id (.record record) with
      | (table, some fault) => (table, some fault)
      | (table, none) => table.replaceRows rest

/-- The records that an update would write; there are none if no row matches. -/
def prepareUpdate (table : Table) (conditions patch : Value) :
    Except Fault (List (RowId × Record)) := do
  checkKeys table.schema (← patchKeys patch)
  let targets ← table.matching conditions
  if targets.isEmpty then return []
  table.checkKeyChange patch targets
  let staged ← table.stage patch (table.isTaken targets) targets
  checkStaged (← patchRecord patch) staged table.schema.uniqueNames
  return staged

/-- Merges a patch into all matching rows; gives the number of rows. -/
def update (table : Table) (conditions patch : Value) : Reply Nat :=
  match table.prepareUpdate conditions patch with
  | .error fault => .refused table fault
  | .ok [] => .unchanged table 0
  | .ok staged =>
    match table.replaceRows staged with
    | (table, some fault) => ⟨.error fault, table, []⟩
    | (table, none) =>
      ⟨.ok staged.length, table,
        table.saveAll ++ [.note (.rowsUpdated staged.length table.name)]⟩

/-! ## Deletion -/

/-- Removes rows one after the other, up to the first fault. -/
def removeRows (table : Table) : List RowId → Table × Option Fault
  | [] => (table, none)
  | id :: rest =>
    match table.rowAt id with
    | .error fault => (table, some fault)
    | .ok row =>
      match (table.withoutRow id).unindexRow id row with
      | (table, some fault) => (table, some fault)
      | (table, none) => table.removeRows rest

/-- Removes all matching rows; gives their number. -/
def delete (table : Table) (conditions : Value) : Reply Nat :=
  match table.matching conditions with
  | .error fault => .refused table fault
  | .ok [] => .unchanged table 0
  | .ok targets =>
    match table.removeRows targets with
    | (table, some fault) => ⟨.error fault, table, []⟩
    | (table, none) =>
      ⟨.ok targets.length, table,
        table.saveAll ++ [.note (.rowsDeleted targets.length table.name)]⟩

/-! ## Indexes -/

/-- Builds an index on a column, in place of one that is there. -/
def createIndex (table : Table) (column : Value) : Reply Unit :=
  if !column.isHashable then .refused table .wrongType
  else
    match table.buildIndex column with
    | .error fault => .refused table fault
    | .ok (table, notice) =>
      ⟨.ok (), table,
        [.note notice, table.saveIndexes, .note (.indexCreated table.name column.label)]⟩

/-- Builds an index that is there from the rows again. -/
def rebuildIndex (table : Table) (column : Value) : Reply Unit :=
  if !column.isHashable then .refused table .wrongType
  else if Entries.has column table.indexes then
    match Index.ofRows column table.rows with
    | .error fault => .refused table fault
    | .ok index =>
      let table := { table with indexes := Entries.put column index table.indexes }
      ⟨.ok (), table, [table.saveIndexes]⟩
  else .refused table (.violation (.noIndex column.label))

/-- Drops an index, unless it enforces a key. -/
def dropIndex (table : Table) (column : Value) : Reply Unit :=
  if table.schema.uniqueNames.contains column then .refused table (.keyIndex column.label)
  else if !column.isHashable then .refused table .wrongType
  else if Entries.has column table.indexes then
    let table := { table with indexes := Entries.drop column table.indexes }
    ⟨.ok (), table, [table.saveIndexes]⟩
  else .refused table (.violation (.noIndex column.label))

end RecordStore.Table
