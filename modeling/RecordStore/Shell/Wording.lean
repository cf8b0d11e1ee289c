/-!
# Fixed texts of the terminal

What the terminal says without looking at any data.
-/

namespace RecordStore.Shell

/-- What the terminal shows when it starts. -/
def banner : String :=
  "\nAlphaDB - a small schema-checked record store\n\n" ++
  "Type .help for commands, or enter queries.\n" ++
  "Statements must end with a semicolon (;).\n"

/-- What the terminal shows about its commands and about queries. -/
def help : String :=
  "\nSpecial Commands:\n" ++
  "  .help             Show this help message\n" ++
  "  .databases        List all databases\n" ++
  "  .tables           List all tables\n" ++
  "  .schema <table>   Show schema for a table\n" ++
  "  .count <table>    Show row count for a table\n" ++
  "  .indexes <table>  Show indexed columns of a table\n" ++
  "  .quit / .exit     Exit the REPL\n" ++
  "\nQueries:\n" ++
  "  CREATE TABLE      Create a new table\n" ++
  "  CREATE INDEX      Create an index on a column\n" ++
  "  DROP TABLE        Delete a table\n" ++
  "  INSERT INTO       Insert a record into a table\n" ++
  "  SELECT            Query records (one WHERE condition, ORDER BY, LIMIT)\n" ++
  "  UPDATE            Update existing records\n" ++
  "  DELETE FROM       Delete records from a table\n" ++
  "  USE               Switch to another database\n" ++
  "\nExample:\n" ++
  "  CREATE TABLE users (\n" ++
  "    id number PRIMARY KEY AUTO_INCREMENT,\n" ++
  "    name string NOT NULL,\n" ++
  "    email string UNIQUE,\n" ++
  "    age number DEFAULT 18\n" ++
  "  );\n\n" ++
  "  INSERT INTO users (name, email) VALUES ('Alice', 'alice@example.com');\n\n" ++
  "  SELECT * FROM users WHERE name LIKE 'A%' ORDER BY age DESC LIMIT 10;\n"

/-- The prompt for the first line of a statement. -/
def firstPrompt : String := "alphadb> "

/-- The prompt for a line that goes on with a statement. -/
def nextPrompt : String := "    ...> "

/-- What the terminal says when it is left. -/
def farewell : String := "Goodbye!"

end RecordStore.Shell
