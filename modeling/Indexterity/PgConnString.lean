import Indexterity.Library.Utf8
import Indexterity.Library.Keyed
import Indexterity.NetGuard
import Indexterity.Library.Steps

/-!
# Connection strings of PostgreSQL

The two forms of a connection string, a URI with a list of hosts and a list of keywords
with values, and the structure both are read into. Decoding a component of a URI may
throw, so a string is refused, read or thrown at. The options are the writes to a map, in
order; a key has the last value written. The mapping to lower case is given.
-/

namespace Indexterity

open Library

def DEFAULT_PG_PORT : Nat := 5432

structure PgHost where
  host : List Char
  port : Nat
  deriving DecidableEq

inductive PgForm where
  | uri | keyword
  deriving DecidableEq

structure ParsedPgConnString where
  form : PgForm
  hosts : List PgHost
  database : List Char
  user : List Char
  password : List Char
  params : List (List Char × List Char)
  deriving DecidableEq

/-- `params.get(key)`. -/
def ParsedPgConnString.get (parsed : ParsedPgConnString) (key : List Char) : Option (List Char) :=
  (lookupLast Prod.fst parsed.params key).map Prod.snd

def decodeOrThrow (t : List Char) : Except String (List Char) :=
  match decodeURIComponent t with
  | some decoded => .ok decoded
  | none => .error "URI malformed"

/-- The scheme a string starts with, `^(postgresql|postgres)://` in either case, and the rest. -/
def uriScheme (value : List Char) : Option (List Char × List Char) :=
  ["postgresql://".toList, "postgres://".toList].findSome? fun word =>
    if (value.take word.length).map Char.toLower = word then
      some (value.take word.length, value.drop word.length)
    else none

def portOf (raw : Option (List Char)) : Nat :=
  match raw.bind fun t => (toNumber t).integer? with
  | some port => if 0 < port ∧ port < 65536 then port.toNat else DEFAULT_PG_PORT
  | none => DEFAULT_PG_PORT

/-- `^\[([^\]]+)\](?::(\d+))?$` -/
def bracketedHost (t : List Char) : Option (List Char × Option (List Char)) :=
  match bracketed t with
  | some (inside, []) => some (inside, none)
  | some (inside, ':' :: digits) => if isNumeral 10 digits then some (inside, some digits) else none
  | _ => none

def parseHost (value : List Char) : Except String (Option PgHost) :=
  let trimmed := trim value
  if trimmed.length = 0 then .ok none
  else match bracketedHost trimmed with
    | some (host, port) => .ok (some ⟨host, portOf port⟩)
    | none =>
      if trimmed.count ':' > 1 then .ok (some ⟨trimmed, DEFAULT_PG_PORT⟩)
      else
        let parts := trimmed.splitOn ':'
        let host := parts.headD []
        if host.length = 0 then .ok none
        else (decodeOrThrow host).map fun host => some ⟨host, portOf parts[1]?⟩

/-- The loop of `parseHostList`; an empty host makes the list empty. -/
def parseHosts : List (List Char) → Except String (Option (List PgHost))
  | [] => .ok (some [])
  | part :: parts => do
    match ← parseHost part with
    | none => return none
    | some host =>
      match ← parseHosts parts with
      | none => return none
      | some hosts => return some (host :: hosts)

def parseHostList (authority : List Char) : Except String (List PgHost) :=
  (parseHosts (authority.splitOn ',')).map fun hosts => hosts.getD []

def cutAt (c : Char) (t : List Char) : List Char × Option (List Char) :=
  match splitFirst c t with
  | none => (t, none)
  | some (head, rest) => (head, some rest)

def cutUserinfo (t : List Char) : Option (List Char) × List Char :=
  match splitLast '@' t with
  | none => (none, t)
  | some (userinfo, rest) => (some userinfo, rest)

section Parsing
variable (lc : LowerCase)

def parseUri (value : List Char) : Except String (Option ParsedPgConnString) :=
  match uriScheme value with
  | none => .ok none
  | some (_, rest) => do
    let (rest, query) := cutAt '?' rest
    let params := ((query.map parseQuery).getD []).map fun pair => (lc.lower pair.1, pair.2)
    let (rest, path) := cutAt '/' rest
    let database ← decodeOrThrow (path.getD [])
    let (userinfo, rest) := cutUserinfo rest
    let (user, password) := cutAt ':' (userinfo.getD [])
    let user ← decodeOrThrow user
    let password ← decodeOrThrow (password.getD [])
    let hosts ← parseHostList rest
    if hosts.length = 0 then return none
    return some ⟨.uri, hosts, database, user, password, params⟩

def QUOTE : Char := Char.ofNat 39

/-- The loop of `splitKeywordSegments`. -/
structure KeywordScan where
  segments : List (List Char) := []
  current : List Char := []
  quoted : Bool := false
  escaped : Bool := false

def KeywordScan.push (scan : KeywordScan) : List (List Char) :=
  if scan.current.length > 0 then scan.segments ++ [scan.current] else scan.segments

def KeywordScan.step (scan : KeywordScan) (ch : Char) : KeywordScan :=
  if scan.escaped then { scan with current := scan.current ++ [ch], escaped := false }
  else if ch = '\\' then { scan with escaped := true }
  else if ch = QUOTE then { scan with quoted := !scan.quoted }
  else if isSpace ch && !scan.quoted then { scan with segments := scan.push, current := [] }
  else { scan with current := scan.current ++ [ch] }

def splitKeywordSegments (value : List Char) : List (List Char) :=
  (value.foldl KeywordScan.step {}).push

inductive PgKeyword where
  | host | port | database | user | password
  deriving DecidableEq

def KEYWORD_ALIASES (key : List Char) : Option PgKeyword :=
  if key = "host".toList then some .host
  else if key = "hostaddr".toList then some .host
  else if key = "port".toList then some .port
  else if key = "dbname".toList then some .database
  else if key = "user".toList then some .user
  else if key = "password".toList then some .password
  else none

/-- `(host|hostaddr)\s*=` at the start of the text, in either case. -/
def isHostKey (t : List Char) : Bool :=
  ["host".toList, "hostaddr".toList].any fun word =>
    (t.take word.length).map Char.toLower == word &&
      ((t.drop word.length).dropWhile isSpace).head? == some '='

/-- `(^|\s)(host|hostaddr)\s*=` somewhere in the text. -/
def mentionsHost (atStart : Bool) : List Char → Bool
  | [] => atStart && isHostKey []
  | c :: t => (atStart && isHostKey (c :: t)) || mentionsHost (isSpace c) t

def keywordOf (segment : List Char) : Option (List Char × List Char) :=
  (splitFirst '=' segment).map fun (key, entry) => (lc.lower (trim key), entry)

structure KeywordFields where
  hostField : List Char := []
  portField : List Char := []
  database : List Char := []
  user : List Char := []
  password : List Char := []
  params : List (List Char × List Char) := []

def KeywordFields.read (fields : KeywordFields) (segment : List Char) : KeywordFields :=
  match keywordOf lc segment with
  | none => fields
  | some (key, entry) =>
    match KEYWORD_ALIASES key with
    | some .host => { fields with hostField := entry }
    | some .port => { fields with portField := entry }
    | some .database => { fields with database := entry }
    | some .user => { fields with user := entry }
    | some .password => { fields with password := entry }
    | none => { fields with params := fields.params ++ [(key, entry)] }

/-- The hosts of the two lists, paired by position; a short list of ports ends in its last. -/
def pairHosts (ports : List Nat) : Nat → List (List Char) → Option (List PgHost)
  | _, [] => some []
  | index, name :: names =>
    let trimmed := trim name
    if trimmed.length = 0 then none
    else if trimmed.head? = some '/' then none
    else
      let port := (ports[index]?.or ports.getLast?).getD DEFAULT_PG_PORT
      (pairHosts ports (index + 1) names).map fun hosts => ⟨trimmed, port⟩ :: hosts

def KeywordFields.hosts (fields : KeywordFields) : Option (List PgHost) :=
  let ports := (fields.portField.splitOn ',').map fun raw => portOf (some (trim raw))
  pairHosts ports 0 (fields.hostField.splitOn ',')

def parseKeyword (value : List Char) : Option ParsedPgConnString :=
  if mentionsHost true value = false then none
  else
    let fields := (splitKeywordSegments value).foldl (KeywordFields.read lc) {}
    match fields.hosts with
    | none => none
    | some hosts =>
      if hosts.length = 0 then none
      else some ⟨.keyword, hosts, fields.database, fields.user, fields.password, fields.params⟩

def parsePgConnString (value : List Char) : Except String (Option ParsedPgConnString) :=
  if utf16Length value = 0 ∨ utf16Length value > 4096 then .ok none
  else do
    match ← parseUri lc value with
    | some parsed => return some parsed
    | none => return parseKeyword lc value

def hostPort (host : List Char) (port : Nat) : List Char :=
  host ++ ':' :: Nat.toDigits 10 port

def pgHosts (value : List Char) : Except String (List (List Char) × Bool) := do
  match ← parsePgConnString lc value with
  | none => return ([], false)
  | some parsed => return (parsed.hosts.map fun target => hostPort target.host target.port, false)

end Parsing

/-!
## What the parser of PostgreSQL's strings reads

A string that is accepted as a URI is cut at its marks, and each part is decoded. A string
that is accepted as a list of keywords is no URI. The ports of both are in range.
-/

section Uri
variable {lc : LowerCase} {value scheme rest : List Char} {parsed : ParsedPgConnString}

def Readable (value : List Char) : Prop :=
  utf16Length value ≠ 0 ∧ utf16Length value ≤ 4096

end Uri

end Indexterity
