import RecordStore.Value.Basic

/-!
# Results of queries

The outcome of a query as it is reported: success with a message and perhaps data, or an error.
-/

namespace RecordStore.Query

/-- What is reported about a query. -/
structure Result where
  success : Bool
  message : Option String
  data : Option Value
  error : Option String

namespace Result

/-- A success with a message. -/
def done (message : String) : Result :=
  ⟨true, some message, none, none⟩

/-- A success with a message and data. -/
def found (message : String) (data : Value) : Result :=
  ⟨true, some message, some data, none⟩

/-- A failure. -/
def failure (error : String) : Result :=
  ⟨false, none, none, some error⟩

/-- A result as fields; what is not set does not appear. -/
def toFields (result : Result) : Fields :=
  [("success", .bool result.success)] ++
    (result.message.elim [] fun message => [("message", .text message)]) ++
    (result.data.elim [] fun data => [("data", data)]) ++
    (result.error.elim [] fun error => [("error", .text error)])

end Result

end RecordStore.Query
