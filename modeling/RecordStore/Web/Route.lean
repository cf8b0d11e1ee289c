import RecordStore.Text.Case
import RecordStore.Web.Address

/-!
# Routes

Which request asks for what. Every path that is known has its methods; a request for the head of an
answer is let through wherever the answer can be got, and the options of a known path can always be
asked for. A path that is only known when double slashes are taken as one is answered by pointing
there.
-/

namespace RecordStore.Web

/-- The methods of requests that matter. -/
inductive Method where
  | get
  | head
  | options
  | post
  | delete
  | other
  deriving DecidableEq

/-- The method of a name in any case. -/
def Method.ofName (name : String) : Method :=
  match Text.upper name with
  | "GET" => .get
  | "HEAD" => .head
  | "OPTIONS" => .options
  | "POST" => .post
  | "DELETE" => .delete
  | _ => .other

/-- What can be asked for. -/
inductive Endpoint where
  /-- Execute a query. -/
  | query
  | createDatabase
  | listDatabases
  | listTables (database : String)
  | records (database table : String)
  | dropTable (database table : String)
  | health
  | reload
  /-- A file to be served as it is; there are none. -/
  | file
  deriving DecidableEq

/-- Whether the segments after the first one can name a file: there must be one to begin with, and
line breaks come first or not at all. -/
def isFileName (segments : List String) : Bool :=
  match ("/".intercalate segments).toList with
  | [] => false
  | c :: rest => c != '/' && !rest.contains '\n'

/-- What a path offers, by method. -/
def endpoints : List String → List (Method × Endpoint)
  | ["api", "query"] => [(.post, .query)]
  | ["api", "database", "create"] => [(.post, .createDatabase)]
  | ["api", "databases"] => [(.get, .listDatabases)]
  | ["api", "health"] => [(.get, .health)]
  | ["api", "reload-databases"] => [(.post, .reload)]
  | ["api", database, "tables"] =>
    if database.isEmpty then [] else [(.get, .listTables database)]
  | ["api", database, "tables", table] =>
    if database.isEmpty || table.isEmpty then []
    else [(.get, .records database table), (.delete, .dropTable database table)]
  | "static" :: rest => if isFileName rest then [(.get, .file)] else []
  | _ => []

/-- Where a request leads. -/
inductive Route where
  | endpoint (endpoint : Endpoint)
  /-- The options of a known path. -/
  | options
  /-- The path is known with fewer slashes. -/
  | moved
  /-- The path is known, but not with this method. -/
  | notAllowed
  | missing
  deriving DecidableEq

/-- Where a path with the given segments leads, if it is known with a method. -/
def direct? (method : Method) (segments : List String) : Option Route :=
  match endpoints segments, method with
  | [], _ => none
  | _ :: _, .options => some .options
  | offered, .head => (offered.lookup .get).map .endpoint
  | offered, method => (offered.lookup method).map .endpoint

/-- Where a request leads. -/
def route (method : Method) (path : List Char) : Route :=
  let merged := segments (mergeSlashes path)
  match direct? method (segments path) with
  | some route => route
  | none =>
    if (direct? method merged).isSome then .moved
    else if (endpoints (segments path)).isEmpty && (endpoints merged).isEmpty then .missing
    else .notAllowed

end RecordStore.Web
