import RecordStore.Web.Authority

/-!
# Addresses

The target of a request is a path, perhaps after a scheme and an authority and before a query and a
fragment. The path leads on, and the authority is what the request is addressed to. A path may
itself begin with a scheme or with an authority; it is read as an address twice more before it is
taken as it is.

The bytes of a path may be written as a percent sign with two hexadecimal digits, and a percent sign
without them stands for itself. Slashes at its start do not count.
-/

namespace RecordStore.Web

/-- An address, its fragment left out. A part that is not there is empty. -/
structure Address where
  scheme : List Char
  authority : List Char
  path : List Char
  query : List Char

/-- Whether a character can be part of a scheme. -/
def isSchemeChar (c : Char) : Bool :=
  c.isAlphanum || c == '+' || c == '-' || c == '.'

/-- Whether characters can be a scheme. -/
def isScheme : List Char → Bool
  | [] => false
  | c :: rest => c.isAlpha && rest.all isSchemeChar

/-- The scheme before a colon, and what follows it. -/
def cutScheme (cs : List Char) : List Char × List Char :=
  match cut ':' cs with
  | (scheme, some rest) => if isScheme scheme then (scheme.map Char.toLower, rest) else ([], cs)
  | (_, none) => ([], cs)

/-- Whether a character ends an authority. -/
def endsAuthority (c : Char) : Bool :=
  c == '/' || c == '?' || c == '#'

/-- The authority after two slashes, and what follows it. -/
def cutAuthority : List Char → List Char × List Char
  | '/' :: '/' :: rest =>
    (rest.takeWhile (!endsAuthority ·), rest.dropWhile (!endsAuthority ·))
  | cs => ([], cs)

/-- Drops controls and blanks at the start, and tabs and line breaks everywhere. -/
def clean (cs : List Char) : List Char :=
  (cs.dropWhile fun c => c.toNat ≤ 0x20).filter fun c => !(c == '\t' || c == '\n' || c == '\r')

namespace Address

/-- The parts of an address. -/
def ofChars (cs : List Char) : Except Fault Address :=
  let (scheme, rest) := cutScheme (clean cs)
  let (authority, rest) := cutAuthority rest
  let (path, query) := cut '?' (cut '#' rest).1
  if isAuthority authority then .ok ⟨scheme, authority, path, query.getD []⟩
  else .error .badAddress

/-- An address without its query. -/
def text (address : Address) : List Char :=
  (if address.scheme.isEmpty then [] else address.scheme ++ [':']) ++
    (if address.authority.isEmpty then [] else '/' :: '/' :: address.authority) ++ address.path

/-- The path with the query. -/
def pathWithQuery (address : Address) : List Char :=
  address.path ++ if address.query.isEmpty then [] else '?' :: address.query

/-- An address with its authority in canonical form. -/
def canonical (address : Address) : Except Fault Address :=
  (Authority.ofChars address.authority).canonical.map fun authority => { address with authority }

/-- The address of what an address is addressed to: this machine, if it does not say. -/
def base (address : Address) : Address :=
  ⟨if address.scheme.isEmpty then "http".toList else address.scheme,
    if address.authority.isEmpty then "localhost".toList else address.authority, ['/'], []⟩

end Address

/-! ## Percent signs -/

/-- The value of a hexadecimal digit. -/
def hexDigit? (byte : Nat) : Option Nat :=
  if 0x30 ≤ byte ∧ byte ≤ 0x39 then some (byte - 0x30)
  else if 0x41 ≤ byte ∧ byte ≤ 0x46 then some (byte - 0x41 + 10)
  else if 0x61 ≤ byte ∧ byte ≤ 0x66 then some (byte - 0x61 + 10)
  else none

/-- The byte of two hexadecimal digits. -/
def hexPair? (a b : Nat) : Option Nat := do
  let high ← hexDigit? a
  let low ← hexDigit? b
  return high * 16 + low

/-- Replaces percent signs with two hexadecimal digits by the bytes that they stand for. `skip`
counts the digits still to be passed over. -/
def decodePercent (skip : Nat) : List Nat → List Nat
  | [] => []
  | byte :: rest =>
    match skip with
    | n + 1 => decodePercent n rest
    | 0 =>
      match byte == 0x25, rest with
      | true, a :: b :: _ =>
        match hexPair? a b with
        | some value => value :: decodePercent 2 rest
        | none => byte :: decodePercent 0 rest
      | _, _ => byte :: decodePercent 0 rest

/-! ## Targets -/

/-- What a request is addressed to, and the path that it asks for. -/
structure Target where
  authority : List Char
  path : List Char

/-- The target that a text denotes. -/
def Target.ofText (text : String) : Except Fault Target := do
  let outer ← Address.ofChars text.toList
  let inner ← Address.ofChars outer.pathWithQuery
  let path ← (← Address.ofChars inner.path).canonical
  let base ← Address.ofChars (← outer.base.canonical).text
  let bytes := Text.encodeBytes (String.ofList path.text)
  let decoded := Text.decodeBytes (decodePercent 0 bytes)
  return ⟨base.authority, decoded.dropWhile (· == '/')⟩

/-- Whether the host of a target can be served: its labels have the right lengths. -/
def Target.isServed (target : Target) : Bool :=
  areLabels (fields (· == '.') (cut ':' target.authority).1)

/-! ## Paths -/

/-- The segments of a path between its slashes. -/
def segments (path : List Char) : List String :=
  (String.ofList path).splitOn "/"

/-- Replaces every run of slashes by one. -/
def mergeSlashes : List Char → List Char
  | [] => []
  | c :: rest =>
    if c == '/' && rest.head? = some '/' then mergeSlashes rest else c :: mergeSlashes rest

end RecordStore.Web
