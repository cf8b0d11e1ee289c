/-!
# Ordered entries

Tables of keys and values are lists of pairs in the order in which their keys first came. Putting a
value under a key that is present replaces the value in place, and a new key goes to the end.
-/

namespace RecordStore.Entries

variable {α β : Type} [BEq α]

/-- Puts a value under a key: in place if the key is present, at the end otherwise. -/
def put (key : α) (value : β) : List (α × β) → List (α × β)
  | [] => [(key, value)]
  | entry :: rest =>
    if entry.1 == key then (entry.1, value) :: rest else entry :: put key value rest

/-- Removes the entries of a key. -/
def drop (key : α) (entries : List (α × β)) : List (α × β) :=
  entries.filter fun entry => !(entry.1 == key)

/-- Whether a key is present. -/
def has (key : α) (entries : List (α × β)) : Bool :=
  entries.any fun entry => entry.1 == key

/-- The keys in order. -/
def keys (entries : List (α × β)) : List α :=
  entries.map (·.1)

/-- Enters pairs from left to right; of several with one key the last value stays, in the first
place. -/
def ofPairs (pairs : List (α × β)) : List (α × β) :=
  pairs.foldl (fun entries pair => put pair.1 pair.2 entries) []

end RecordStore.Entries
