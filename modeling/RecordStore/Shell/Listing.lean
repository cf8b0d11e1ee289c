import RecordStore.Kind.Conversion
import RecordStore.Query.Result
import RecordStore.Value.Equality

/-!
# Listings

Results as text for a terminal. Records are listed under a header with every column that some record
has, in the order in which the columns first come. A column is as wide as its widest entry, but
never wider than `widthLimit`; what is longer is cut off.
-/

namespace RecordStore.Shell

/-- A line of text. -/
def line (s : String) : String :=
  s ++ "\n"

/-- A text followed by blanks up to a width. -/
def fill (width : Nat) (s : String) : String :=
  String.ofList (s.toList ++ List.replicate (width - s.length) ' ')

/-- A text in a cell of a width: filled up or cut off. -/
def cell (width : Nat) (s : String) : String :=
  String.ofList ((fill width s).toList.take width)

/-- The greatest width of a column. -/
def widthLimit : Nat := 40

/-- A value as an entry of a listing. -/
def entryText (v : Value) : Except Fault String :=
  if v.isNull then .ok "NULL" else v.display

/-- The columns of a row: the keys of a mapping. What else has parts has them for columns, although
it has no values under them. -/
def columnsOf (row : Value) : Except Fault (List Value) :=
  match row.items? with
  | some columns => .ok columns
  | none => .error .wrongType

/-- The columns of a list without those that came before. -/
def distinct (columns : List Value) : List Value :=
  columns.foldl (fun seen column => if seen.contains column then seen else seen ++ [column]) []

/-- The length of a column as a header. -/
def headerLength (column : Value) : Except Fault Nat :=
  match column with
  | .text name => .ok name.length
  | .tuple items => if column.isHashable then .ok items.length else .error .wrongType
  | _ => .error .wrongType

/-- The text of a column as a header. -/
def headerText (column : Value) : Except Fault String :=
  match column with
  | .text name => .ok name
  | _ => .error .wrongShape

/-- The entry of a row in a column. -/
def cellOf (row column : Value) : Except Fault String :=
  match row with
  | .map entries =>
    entryText (Record.value column entries)
  | _ => .error .wrongShape

/-- The greatest of a start and the lengths of the entries in one column. -/
def columnWidth (cells : List (List String)) (index : Nat) (start : Nat) : Nat :=
  min widthLimit (cells.foldl (fun width row => max width (row.getD index "").length) start)

/-- Lists rows under a header. -/
def listing (rows : List Value) : Except Fault String := do
  if rows.isEmpty then return line "(0 rows)"
  let columns := distinct (← rows.mapM columnsOf).flatten
  let starts ← columns.mapM headerLength
  let cells ← rows.mapM fun row => columns.mapM (cellOf row)
  let widths := starts.zipIdx.map fun (start, i) => columnWidth cells i start
  let headers ← columns.mapM headerText
  let bar := fun texts => line (" | ".intercalate (List.zipWith cell widths texts))
  let rule := line ("-+-".intercalate (widths.map fun width => "".pushn '-' width))
  return line "" ++ bar headers ++ rule ++ String.join (cells.map bar) ++ line ""

/-- A result as text: its error, or its records and its message. -/
def resultText (result : Query.Result) : Except Fault String := do
  if !result.success then return line ("Error: " ++ result.error.getD "None")
  let rows ←
    match result.data with
    | some (.list rows) => listing rows
    | _ => pure ""
  let message := (result.message.filter (!·.isEmpty)).elim "" line
  return rows ++ message

end RecordStore.Shell
