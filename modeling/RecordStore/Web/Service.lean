import RecordStore.Query.Pieces
import RecordStore.Registry
import RecordStore.Web.Document
import RecordStore.Web.Route

/-!
# The service

Answers to requests over the databases of a registry. Every answer that says something is a
document; refusals of the store have the status of a bad request, or of a missing one if what was
asked for is not there. Any other fault is answered without a document.
-/

namespace RecordStore.Web

/-- A request. Its content is the value that its body stands for. -/
structure Request where
  method : String
  target : Target
  content : Value

/-- A request as it is sent: its target must have the form of one, and the type of its body must
stand on one line. -/
def Request.ofParts (method target : String) (contentType : Option String) (body : String) :
    Except Fault Request := do
  let target ← Target.ofText target
  if contentType.any fun kind => kind.contains '\n' || kind.contains '\r' then throw .brokenLine
  return ⟨method, target, bodyValue contentType body⟩

/-- An answer: its status, and its text if it is a document. -/
structure Response where
  status : Nat
  body : Option String
  deriving DecidableEq

/-- A status with the value of a document. -/
structure Answer where
  status : Nat
  content : Value

namespace Answer

/-- A success with further fields. -/
def success (fields : Fields) : Answer :=
  ⟨200, .ofFields (("success", .bool true) :: fields)⟩

/-- A failure with a status. -/
def failure (status : Nat) (error : String) : Answer :=
  ⟨status, .ofFields [("success", .bool false), ("error", .text error)]⟩

/-- The answer to a fault, if it has a document. -/
def ofFault? (fault : Fault) : Option Answer :=
  if fault.isNotFound then some (failure 404 fault.message)
  else if fault.isRefusal then some (failure 400 fault.message)
  else none

/-- An answer as it is sent. -/
def response (answer : Answer) : Response :=
  match answerText? answer.content with
  | some text => ⟨answer.status, some text⟩
  | none => ⟨500, none⟩

end Answer

/-- The entries of the body of a request. -/
def entriesOf (request : Request) : Except Fault (List (Value × Value)) :=
  match request.content with
  | .map entries => .ok entries
  | _ => .error .wrongShape

/-- Executes a query that is given as a value: a text, or a list of pieces. -/
def executeValue (v : Value) : Work Site Query.Result :=
  match v with
  | .text s => Query.execute s
  | .list items => Query.executePieces items
  | _ => throw .wrongType

/-- Executes a query on a database, which is made if it is not there. -/
def query (request : Request) : Work Hub Answer := do
  let entries ← Work.ofExcept (entriesOf request)
  let name := Value.entry "database" entries
  let text := Value.entry "sql" entries
  if !name.isTruthy || !text.isTruthy then
    return .failure 400 "Database and SQL query required"
  let database ← Hub.get name true
  let result ← Hub.onDatabase database (executeValue text)
  return ⟨200, .ofFields result.toFields⟩

/-- Makes a database. -/
def createDatabase (request : Request) : Work Hub Answer := do
  let entries ← Work.ofExcept (entriesOf request)
  let name := Value.entry "name" entries
  if !name.isTruthy then return .failure 400 "Database name required"
  let hub ← get
  let present ← Work.ofExcept (hub.registry.hasDatabase hub.world.disk name)
  let shown ← Work.ofExcept name.display
  if present then
    modify fun hub => { hub with world := hub.world.note (.databaseExists shown) }
  let _ ← Hub.get name true
  return .success [("message", .text ("Database '" ++ shown ++ "' created successfully"))]

/-- Lists the databases. -/
def listDatabases : Work Hub Answer := do
  let hub ← get
  let names ← Work.ofExcept (hub.registry.names hub.world.disk)
  return .success [("data", .list (names.map .text))]

/-- Lists the tables of a database that is there. -/
def listTables (database : String) : Work Hub Answer := do
  let database ← Hub.get (.text database) false
  let names ← Work.ofExcept database.listTables
  return .success [("data", .list (names.map .text))]

/-- Gives all records of a table. -/
def records (database table : String) : Work Hub Answer := do
  let database ← Hub.get (.text database) false
  let table ← Work.ofExcept (database.table table)
  let found ← Work.ofExcept (table.find (.map []))
  return .success [("data", .list (found.map .map))]

/-- Drops a table. -/
def dropTable (database table : String) : Work Hub Answer := do
  let database ← Hub.get (.text database) false
  Hub.onDatabase database (Site.dropTable table)
  return .success [("message", .text ("Table '" ++ table ++ "' dropped"))]

/-- Tells that the service is running. -/
def health : Work Hub Answer := do
  let n := (← Hub.askRegistry).loaded.length
  return .success [("status", .text "running"), ("loadedDatabases", .int n)]

/-- Opens all databases anew. -/
def reload : Work Hub Answer := do
  let loaded ← Hub.reload
  return .success [("message", .text "Databases reloaded"), ("count", .int loaded.length)]

/-- Does what a request asks for; nothing is there if it asks for a file. -/
def handle (request : Request) : Endpoint → Work Hub (Option Answer)
  | .query => some <$> query request
  | .createDatabase => some <$> createDatabase request
  | .listDatabases => some <$> listDatabases
  | .listTables database => some <$> listTables database
  | .records database table => some <$> records database table
  | .dropTable database table => some <$> dropTable database table
  | .health => some <$> health
  | .reload => some <$> reload
  | .file => return none

/-- The answer to a request for an endpoint. -/
def answer (request : Request) (endpoint : Endpoint) (hub : Hub) : Response × Hub :=
  let (result, hub) := (handle request endpoint).perform hub
  match result with
  | .ok (some answer) => (answer.response, hub)
  | .ok none => (⟨404, none⟩, hub)
  | .error fault => ((Answer.ofFault? fault).elim ⟨500, none⟩ Answer.response, hub)

/-- An answer without the text of its document. -/
def Response.headOnly (response : Response) : Response :=
  { response with body := response.body.map fun _ => "" }

/-- The name of the method that asks for no text; in other cases it means the same, but the text is
sent. -/
def headName : String := "HEAD"

/-- Answers a request. -/
def respond (request : Request) (hub : Hub) : Response × Hub :=
  if !request.target.isServed then (⟨400, none⟩, hub)
  else
    match route (Method.ofName request.method) request.target.path with
    | .endpoint endpoint =>
      let (response, hub) := answer request endpoint hub
      (if request.method = headName then response.headOnly else response, hub)
    | .options => (⟨200, none⟩, hub)
    | .moved => (⟨308, none⟩, hub)
    | .notAllowed => (⟨405, none⟩, hub)
    | .missing => (⟨404, none⟩, hub)

/-- The service over a root directory, with all databases that are there opened. -/
def start (root : String) (world : World) : Except Fault Hub × World :=
  match Registry.open root world with
  | (.error fault, world) => (.error fault, world)
  | (.ok registry, world) =>
    let (result, hub) := (Hub.reload).perform ⟨registry, world⟩
    (result.map fun _ => hub, hub.world)

end RecordStore.Web
