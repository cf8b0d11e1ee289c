/-!
# Stable sorting by runs and binary insertion

A short list is sorted by finding the run that it begins with, turning it around if it descends, and
inserting every later item into what is sorted already; the place of an item is found by binary
search, after all items that it is not less than. A long list is sorted by merging. Items that are
not less than each other keep their order.

If the order is not a consistent one, the outcome of binary insertion still depends only on which
items are less than which, and is the one that this procedure defines.
-/

namespace RecordStore.Sorting

variable {α : Type}

/-- Lists with fewer items than this are sorted by insertion. -/
def mergeThreshold : Nat := 64

/-- Takes items as long as each is less than the one before. `run` holds the items of the run so
far in reverse, that is, in ascending order. -/
def takeDescending (less : α → α → Bool) (run : List α) (last : α) :
    List α → List α × List α
  | [] => (run, [])
  | x :: rest =>
    if less x last then takeDescending less (x :: run) x rest else (run, x :: rest)

/-- Takes items as long as none is less than the one before. -/
def takeAscending (less : α → α → Bool) (last : α) : List α → List α × List α
  | [] => ([], [])
  | x :: rest =>
    if less x last then ([], x :: rest)
    else
      let (run, rest) := takeAscending less x rest
      (x :: run, rest)

/-- The run that a list begins with, in ascending order, and the rest. -/
def firstRun (less : α → α → Bool) : List α → List α × List α
  | [] => ([], [])
  | [x] => ([x], [])
  | x :: y :: rest =>
    if less y x then takeDescending less [y, x] y rest
    else
      let (run, rest) := takeAscending less y rest
      (x :: y :: run, rest)

/-- Where an item belongs between two places of a sorted list. -/
def place (less : α → α → Bool) (item : α) (sorted : List α) (low high : Nat) : Nat :=
  if low < high then
    let middle := low + (high - low) / 2
    match sorted[middle]? with
    | some other =>
      if less item other then place less item sorted low middle
      else place less item sorted (middle + 1) high
    | none => low
  else low
termination_by high - low

/-- Inserts an item into a sorted list. -/
def insert (less : α → α → Bool) (sorted : List α) (item : α) : List α :=
  let position := place less item sorted 0 sorted.length
  sorted.take position ++ item :: sorted.drop position

/-- Sorts a list by its first run and binary insertion. -/
def insertionSort (less : α → α → Bool) (items : List α) : List α :=
  let (run, rest) := firstRun less items
  rest.foldl (insert less) run

/-- Sorts a list. -/
def sort (less : α → α → Bool) (items : List α) : List α :=
  if items.length < mergeThreshold then insertionSort less items
  else items.mergeSort fun a b => !less b a

end RecordStore.Sorting
