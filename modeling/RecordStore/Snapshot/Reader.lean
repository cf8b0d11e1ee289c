import RecordStore.Snapshot.Json
import RecordStore.Snapshot.Writer

/-!
# Reading snapshots

A snapshot is read back as JSON in which an object with a mark for dates or timestamps stands for
the date or timestamp that its text gives. The fields of that text may have one digit where they
are padded when written.
-/

namespace RecordStore.Snapshot

/-- Reads the text under a mark; what is not text is a fault of its own. -/
def readMarked (read? : List Char → Option Value) (v : Value) : Except Json.ReadError Value :=
  match v with
  | .text s =>
    match read? s.toList with
    | some v => .ok v
    | none => .error .malformed
  | _ => .error (.fault .wrongType)

/-- Turns marked objects into dates and timestamps. -/
def markedObject : Json.ObjectReader := fun entries =>
  match Value.lookup? timestampMark entries, Value.lookup? dateMark entries with
  | some v, _ => readMarked (fun cs => (Pattern.readMoment? .blanks cs).map .timestamp) v
  | none, some v => readMarked (fun cs => (Pattern.readDate? cs).map .date) v
  | none, none => .ok (.map entries)

/-- Reads the characters of a snapshot. -/
def read (cs : List Char) : Except Json.ReadError Value :=
  Json.read markedObject cs

end RecordStore.Snapshot
