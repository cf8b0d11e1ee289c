import RecordStore.Fault
import RecordStore.Text.Case
import RecordStore.Text.Punycode
import RecordStore.Text.Utf8

/-!
# Authorities

The part of an address that says whose it is: perhaps a user with a password, a host, and perhaps a
port. A host is a name of labels between points, or a number between brackets. Names are written in
lower case and in ASCII, and every label of a name has a limited length.
-/

namespace RecordStore.Web

/-- Characters before the first separator, and those after it if there is one. -/
def cut (separator : Char) (cs : List Char) : List Char × Option (List Char) :=
  match cs.dropWhile (· != separator) with
  | [] => (cs, none)
  | _ :: after => (cs.takeWhile (· != separator), some after)

/-- Characters before the last separator if there is one, and those after it. -/
def cutLast (separator : Char) (cs : List Char) : Option (List Char) × List Char :=
  let (after, before) := cut separator cs.reverse
  (before.map List.reverse, after.reverse)

/-- Characters between separators. -/
def fields (separator : Char → Bool) : List Char → List (List Char)
  | [] => [[]]
  | c :: rest =>
    if separator c then [] :: fields separator rest
    else
      match fields separator rest with
      | [] => [[c]]
      | field :: others => (c :: field) :: others

/-- Whether a character is a hexadecimal digit. -/
def isHexDigit (c : Char) : Bool :=
  c.isDigit || ('a' ≤ c && c ≤ 'f') || ('A' ≤ c && c ≤ 'F')

/-! ## Numbers of hosts -/

/-- Whether characters are one of the four numbers of a short host number. -/
def isByte (cs : List Char) : Bool :=
  !cs.isEmpty && cs.all (·.isDigit) && cs.length ≤ 3 && (cs.length = 1 || cs.head? != some '0') &&
    Nat.ofDigitChars 10 cs 0 ≤ 255

/-- Whether characters are a short host number: four numbers between points. -/
def isShortNumber (cs : List Char) : Bool :=
  let parts := fields (· == '.') cs
  parts.length = 4 && parts.all isByte

/-- Whether characters are one of the eight groups of a long host number. -/
def isGroup (cs : List Char) : Bool :=
  !cs.isEmpty && cs.length ≤ 4 && cs.all isHexDigit

/-- The groups of a long host number, in which a short one may stand for the last two. -/
def groupsOf? (cs : List Char) : Option (List (List Char)) :=
  let groups := fields (· == ':') cs
  match groups.getLast? with
  | some last =>
    if groups.length < 3 then none
    else if last.contains '.' then
      if isShortNumber last then some (groups.dropLast ++ [['0'], ['0']]) else none
    else some groups
  | none => none

/-- Whether groups before or after a gap are as they must be. At the end of the number there may be
one empty group more, if it stands alone. -/
def isSide (groups : List (List Char)) : Bool :=
  groups = [[]] || groups.all isGroup

/-- Whether groups are a long host number: eight of them, or fewer with a gap at one place. -/
def areGroups (groups : List (List Char)) : Bool :=
  let inner := (groups.drop 1).dropLast
  let first := groups.take 1 ++ inner.takeWhile (!·.isEmpty)
  let last := (inner.dropWhile (!·.isEmpty)).drop 1 ++ groups.drop (groups.length - 1)
  if inner.any (·.isEmpty) then
    let count := (first.filter (!·.isEmpty)).length + (last.filter (!·.isEmpty)).length
    isSide first && isSide last && count < 8
  else groups.length = 8 && groups.all isGroup

/-- Whether characters are a long host number, perhaps with a zone after a percent sign. -/
def isLongNumber (cs : List Char) : Bool :=
  let (number, zone) := cut '%' cs
  !cs.contains '/' && zone.all (fun zone => !zone.isEmpty && !zone.contains '%') &&
    (groupsOf? number).any areGroups

/-- Whether characters are a host that stands between brackets: a long number, or one of a version
to come. -/
def isBracketedHost : List Char → Bool
  | 'v' :: rest =>
    match cut '.' rest with
    | (version, some host) => !version.isEmpty && version.all isHexDigit && !host.isEmpty
    | (_, none) => false
  | cs => isLongNumber cs

/-! ## Form -/

/-- The characters that stand for others among which one ends or divides an authority. -/
def disguises : List Char :=
  ['\u2047', '\u2048', '\u2049', '\u2100', '\u2101', '\u2105', '\u2106', '\u2A74', '\uFE13',
    '\uFE16', '\uFE55', '\uFE56', '\uFE5F', '\uFE6B', '\uFF03', '\uFF0F', '\uFF1A', '\uFF1F',
    '\uFF20']

/-- Whether the brackets in an authority stand around a host. -/
def areBracketsSound (cs : List Char) : Bool :=
  let (_, place) := cutLast '@' cs
  if cs.contains '[' && cs.contains ']' then
    match cut '[' place with
    | (before, some bracketed) =>
      let (host, after) := cut ']' bracketed
      before.isEmpty && ((after.getD []).head?.all (· == ':')) && isBracketedHost host
    | (_, none) => isBracketedHost (cut ':' place).1
  else !cs.contains '[' && !cs.contains ']'

/-- Whether characters can be an authority. -/
def isAuthority (cs : List Char) : Bool :=
  areBracketsSound cs && !cs.any disguises.contains

/-- The parts of an authority. A part that is not there is empty. -/
structure Authority where
  user : List Char
  password : List Char
  host : List Char
  port : List Char

/-- The parts of characters that can be an authority. -/
def Authority.ofChars (cs : List Char) : Authority :=
  let (account, place) := cutLast '@' cs
  let (user, password) := cut ':' (account.getD [])
  let (host, port) :=
    match cut '[' place with
    | (_, some bracketed) =>
      let (host, after) := cut ']' bracketed
      (host, (cut ':' (after.getD [])).2)
    | (_, none) => cut ':' place
  ⟨user, password.getD [], host, port.getD []⟩

/-! ## Names of hosts -/

/-- The greatest number of characters in a label. -/
def labelLimit : Nat := 63

/-- Whether labels in ASCII have the right lengths; only the last one may be empty. -/
def areLabels : List (List Char) → Bool
  | [] => true
  | [label] => label.length ≤ labelLimit
  | label :: rest => !label.isEmpty && label.length ≤ labelLimit && areLabels rest

/-- Whether a character is ASCII. -/
def isAscii (c : Char) : Bool :=
  c.toNat < 0x80

/-- How a label begins that stands for one of another script. -/
def encodedMark : List Char :=
  ['x', 'n', '-', '-']

/-- A label in ASCII. One that is not yet must not look as if it were. -/
def asciiLabel? (label : List Char) : Option (List Char) :=
  if label.all isAscii then some label
  else if encodedMark.isPrefixOf label then none
  else some (encodedMark ++ Text.Punycode.encode label)

/-- Whether a character is one of the points between labels. -/
def isPoint (c : Char) : Bool :=
  ['.', '\u3002', '\uFF0E', '\uFF61'].contains c

/-- The labels of a host in ASCII. -/
def labelsOf? (host : List Char) : Option (List (List Char)) :=
  if host.all isAscii then some (fields (· == '.') host)
  else (fields isPoint host).mapM asciiLabel?

/-- The name of a host in ASCII. -/
def asciiHost (host : List Char) : Except Fault (List Char) :=
  match (labelsOf? host).filter areLabels with
  | some labels => .ok (['.'].intercalate labels)
  | none => .error .badHost

/-- A host in lower case; the zone of a number is kept. -/
def lowerHost (host : List Char) : List Char :=
  let (name, zone) := cut '%' host
  (Text.lower (String.ofList name)).toList ++ (zone.elim [] ('%' :: ·))

/-! ## Canonical form -/

/-- The upper-case hexadecimal digit of a number below sixteen. -/
def hexDigit (n : Nat) : Char :=
  (Nat.digitChar n).toUpper

/-- A byte as a percent sign with two hexadecimal digits. -/
def percentByte (byte : Nat) : List Char :=
  ['%', hexDigit (byte / 16), hexDigit (byte % 16)]

/-- Whether a character can stand in the name of a user as it is. -/
def isPlain (c : Char) : Bool :=
  c.isAlphanum || "_.-~%!$&'()*+,;=".toList.contains c

/-- A user or a password in ASCII. -/
def quoteAccount (cs : List Char) : List Char :=
  cs.flatMap fun c =>
    if isPlain c then [c] else (Text.encodeBytes (String.ofList [c])).flatMap percentByte

/-- The number of a port, which is zero if none is given. -/
def portNumber (port : List Char) : Except Fault Nat :=
  let n := Nat.ofDigitChars 10 port 0
  if port.all (·.isDigit) && n ≤ 65535 then .ok n else .error .badAddress

/-- A host as it is written: between brackets if it is a number with colons. -/
def writtenHost (host : List Char) : List Char :=
  if host.contains ':' then '[' :: host ++ [']'] else host

/-- A user with a password as they are written before a host. -/
def writtenAccount (user password : List Char) : List Char :=
  if user.isEmpty then []
  else quoteAccount user ++ (if password.isEmpty then [] else ':' :: quoteAccount password) ++ ['@']

/-- An authority in canonical form. -/
def Authority.canonical (authority : Authority) : Except Fault (List Char) := do
  let host ← asciiHost (lowerHost authority.host)
  let port ← portNumber authority.port
  return writtenAccount authority.user authority.password ++ writtenHost host ++
    if port = 0 then [] else ':' :: Nat.toDigits 10 port

end RecordStore.Web
