/-!
# Punycode

Text of any script written with letters, digits and hyphens, as the names of hosts need it. The
ASCII characters come first. Every other character is then given in the order of the code points by
the distance to it, which counts all places and all code points that are passed over; distances are
numbers with a digit count that adapts to those before.
-/

namespace RecordStore.Text.Punycode

/-- A digit to the base 36. -/
def digit (d : Nat) : Char :=
  if d < 26 then Char.ofNat ('a'.toNat + d) else Char.ofNat ('0'.toNat + (d - 26))

/-- Below this a digit in the given place is the last one. -/
def threshold (place bias : Nat) : Nat :=
  max 1 (min 26 (place - bias))

/-- The digits of a distance from the given place on, the lowest first. -/
def distance (bias q place : Nat) : List Char :=
  let t := threshold place bias
  if h : q < t then [digit q]
  else digit (t + (q - t) % (36 - t)) :: distance bias ((q - t) / (36 - t)) (place + 36)
termination_by q
decreasing_by
  have positive : 1 ≤ t := Nat.le_max_left ..
  exact Nat.lt_of_le_of_lt (Nat.div_le_self ..) (by omega)

/-- Divides a distance until it is small, and counts 36 for every division. -/
def shrink (delta steps : Nat) : Nat × Nat :=
  if 455 < delta then shrink (delta / 35) (steps + 36) else (delta, steps)
termination_by delta

/-- The bias after a distance, with the number of characters that are placed then. -/
def adapt (delta count : Nat) (isFirst : Bool) : Nat :=
  let start := if isFirst then delta / 700 else delta / 2
  let (rest, steps) := shrink (start + start / count) 0
  steps + 36 * rest / (rest + 38)

/-- How far the encoding has come. -/
structure Progress where
  /-- The least code point that is still to come. -/
  next : Nat
  delta : Nat
  bias : Nat
  placed : Nat
  isFirst : Bool
  written : List Char

/-- Passes one character of the text while a code point is placed. -/
def pass (code : Nat) (progress : Progress) (c : Char) : Progress :=
  if c.toNat < code then { progress with delta := progress.delta + 1 }
  else if c.toNat = code then
    let count := progress.placed + 1
    { progress with
      delta := 0
      bias := adapt progress.delta count progress.isFirst
      placed := count
      isFirst := false
      written := progress.written ++ distance progress.bias progress.delta 36 }
  else progress

/-- Places all characters of a code point. -/
def place (cs : List Char) (progress : Progress) (code : Nat) : Progress :=
  let skipped := (code - progress.next) * (progress.placed + 1)
  let progress := cs.foldl (pass code) { progress with delta := progress.delta + skipped }
  { progress with next := code + 1, delta := progress.delta + 1 }

/-- Encodes a text. -/
def encode (cs : List Char) : List Char :=
  let plain := cs.filter fun c => c.toNat < 0x80
  let codes := ((cs.map (·.toNat)).filter (0x80 ≤ ·)).mergeSort.eraseDups
  let start : Progress :=
    ⟨0x80, 0, 72, plain.length, true, if plain.isEmpty then [] else plain ++ ['-']⟩
  (codes.foldl (place cs) start).written

end RecordStore.Text.Punycode
