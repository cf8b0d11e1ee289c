import RecordStore.Table.Row
import RecordStore.Value.Order

/-!
# Indexes

An index on a column groups the rows by the value that they hold there. It is a table of buckets:
every key that some row holds has one bucket with the ids of those rows in ascending order, and the
buckets are in the order in which their keys first came. Absent values are not indexed, and values
that cannot be keys are refused.

The rows of a table have numbers for ids. An index takes any value that can be a key; ids that do
not compare can be kept in one bucket, but such a bucket cannot be listed.
-/

namespace RecordStore

/-- What a row is known by: a number, as far as tables give it. -/
abbrev RowId := Value

/-- The rows of a column by value. -/
structure Index where
  column : Value
  buckets : List (Value × List RowId)

namespace Index

/-- The index of a column that no row is in. -/
def empty (column : Value) : Index :=
  ⟨column, []⟩

/-- Puts an id in its place among ascending ids; one that is there already stays. -/
def insertId (id : RowId) : List RowId → List RowId
  | [] => [id]
  | other :: rest =>
    if other == id then other :: rest
    else if id.compare other = .ordered .lt then id :: other :: rest
    else other :: insertId id rest

/-- Adds an id to the bucket of a key, which comes last if it is new. -/
def addTo (key : Value) (id : RowId) : List (Value × List RowId) → List (Value × List RowId)
  | [] => [(key, [id])]
  | bucket :: rest =>
    if bucket.1 == key then (bucket.1, insertId id bucket.2) :: rest
    else bucket :: addTo key id rest

/-- Removes an id from the bucket of a key, and the bucket if it is left empty. -/
def removeFrom (key : Value) (id : RowId) : List (Value × List RowId) → List (Value × List RowId)
  | [] => []
  | bucket :: rest =>
    if bucket.1 == key then
      let ids := bucket.2.filter fun other => !(other == id)
      if ids.isEmpty then rest else (bucket.1, ids) :: rest
    else bucket :: removeFrom key id rest

/-- The bucket of a key. -/
def bucket? (index : Index) (key : Value) : Option (List RowId) :=
  index.buckets.lookup key

/-- The ids of the rows that hold a key, in ascending order. -/
def ids (index : Index) (key : Value) : List RowId :=
  (index.bucket? key).getD []

/-- Adds a row that holds a value. -/
def add (index : Index) (v : Value) (id : RowId) : Except Fault Index :=
  if v.isNull then .ok index
  else if v.isHashable then .ok { index with buckets := addTo v id index.buckets }
  else .error .wrongType

/-- Removes a row that held a value, and tells whether it was there. -/
def remove (index : Index) (v : Value) (id : RowId) : Except Fault (Index × Bool) :=
  if v.isNull then .ok (index, false)
  else if v.isHashable then
    if (index.ids v).any (· == id) then
      .ok ({ index with buckets := removeFrom v id index.buckets }, true)
    else .ok (index, false)
  else .error .wrongType

/-- Adds a row under the value that it holds. -/
def addRow (index : Index) (id : RowId) (row : Row) : Except Fault Index :=
  (row.value index.column).bind fun v => index.add v id

/-- Removes a row from under the value that it holds. -/
def removeRow (index : Index) (id : RowId) (row : Row) : Except Fault Index :=
  (row.value index.column).bind fun v => (index.remove v id).map (·.1)

/-- Adds rows one after the other. -/
def addRows (index : Index) : List (RowId × Row) → Except Fault Index
  | [] => .ok index
  | (id, row) :: rest => (index.addRow id row).bind fun index => index.addRows rest

/-- The index of a column that has just the given rows. -/
def ofRows (column : Value) (rows : List (RowId × Row)) : Except Fault Index :=
  (empty column).addRows rows

/-- The number of keys. -/
def size (index : Index) : Nat :=
  index.buckets.length

/-- An index as a value: a list of keys with their ids. -/
def toValue (index : Index) : Value :=
  .list (index.buckets.map fun (key, ids) => .list [key, .list ids])

/-! ## Ids from outside -/

/-- Whether any two of some ids compare. -/
def areComparable : List RowId → Bool
  | [] => true
  | id :: rest =>
    rest.all (fun other => id.compare other ≠ .incomparable) && areComparable rest

/-- Looks up the rows that hold a value. -/
def lookup (index : Index) (v : Value) : Except Fault (List RowId) :=
  if v.isHashable && areComparable (index.ids v) then .ok (index.ids v) else .error .wrongType

/-- Lists all keys with their ids. -/
def listing (index : Index) : Except Fault Value :=
  if index.buckets.all fun bucket => areComparable bucket.2 then .ok index.toValue
  else .error .wrongType

/-- Adds a row with any value for its id. If the id cannot be a key, the bucket of the value is
there all the same. -/
def offer (index : Index) (v : Value) (id : RowId) : Except Fault Unit × Index :=
  match index.add v id with
  | .error fault => (.error fault, index)
  | .ok added =>
    if v.isNull || id.isHashable then (.ok (), added)
    else
      (.error .wrongType,
        if (index.bucket? v).isSome then index
        else { index with buckets := index.buckets ++ [(v, [])] })

/-- Removes a row with any value for its id. -/
def withdraw (index : Index) (v : Value) (id : RowId) : Except Fault (Index × Bool) :=
  if id.isHashable || v.isNull || (v.isHashable && (index.bucket? v).isNone) then
    index.remove v id
  else .error .wrongType

/-- The id and the record of a row that is given as a pair. -/
def rowOf (v : Value) : Except Fault (RowId × Row) :=
  (Row.pairOf v).map fun (id, record) => (id, .ofValue record)

/-- Adds rows that are given as pairs, one after the other. -/
def offerRows (index : Index) : List Value → Except Fault Index
  | [] => .ok index
  | v :: rest => do
    let (id, row) ← rowOf v
    let v ← row.value index.column
    let (result, index) := index.offer v id
    result
    index.offerRows rest

/-- The index of a column on rows that are given as a value. -/
def ofValue (column rows : Value) : Except Fault Index :=
  match rows.items? with
  | some items => (empty column).offerRows items
  | none => .error .wrongType

end Index

end RecordStore
