import Indexterity.PgTransport

/-!
# Connection strings of SQL Server

A URL, or segments of keys and values between semicolons. Addresses of the web are parsed
and written by a library that is given. A value may be wrapped in braces or in double
quotes; inside braces a semicolon does not end a segment.
-/

namespace Indexterity

open Library

def DEFAULT_MSSQL_PORT : Nat := 1433

inductive MssqlForm where
  | url | ado
  deriving DecidableEq

structure ParsedMssqlConnString where
  form : MssqlForm
  host : List Char
  port : Nat
  database : List Char
  user : List Char
  password : List Char
  params : List (List Char × List Char)
  deriving DecidableEq

/-- `params.get(key)`. -/
def ParsedMssqlConnString.get (parsed : ParsedMssqlConnString) (key : List Char) :
    Option (List Char) :=
  (lookupLast Prod.fst parsed.params key).map Prod.snd

/-- A parsed `URL`, as far as it is read. -/
structure WebUrl where
  protocol : List Char
  hostname : List Char
  port : List Char
  pathname : List Char
  username : List Char
  password : List Char
  searchParams : List (List Char × List Char)

/-- What is used of the library of URLs: the parser, the setters and the serializer. -/
structure UrlLibrary where
  parse : List Char → Option WebUrl
  setHostname : WebUrl → List Char → WebUrl
  setPort : WebUrl → List Char → WebUrl
  setUsername : WebUrl → List Char → WebUrl
  setPassword : WebUrl → List Char → WebUrl
  setSearchParams : WebUrl → List (List Char × List Char) → WebUrl
  toText : WebUrl → List Char

def noUrls : UrlLibrary where
  parse := fun _ => none
  setHostname := fun url _ => url
  setPort := fun url _ => url
  setUsername := fun url _ => url
  setPassword := fun url _ => url
  setSearchParams := fun url _ => url
  toText := fun _ => []

inductive AdoKey where
  | server | database | user | password
  deriving DecidableEq

def ADO_ALIASES (key : List Char) : Option AdoKey :=
  if key = "server".toList then some .server
  else if key = "data source".toList then some .server
  else if key = "address".toList then some .server
  else if key = "addr".toList then some .server
  else if key = "network address".toList then some .server
  else if key = "database".toList then some .database
  else if key = "initial catalog".toList then some .database
  else if key = "user id".toList then some .user
  else if key = "uid".toList then some .user
  else if key = "user".toList then some .user
  else if key = "password".toList then some .password
  else if key = "pwd".toList then some .password
  else none

def dropWord (word t : List Char) : Option (List Char) :=
  if (t.take word.length).map Char.toLower = word then some (t.drop word.length) else none

def mssqlPortOf (raw : Option (List Char)) : Nat :=
  match raw.bind fun t => (toNumber t).integer? with
  | some port => if 0 < port ∧ port < 65536 then port.toNat else DEFAULT_MSSQL_PORT
  | none => DEFAULT_MSSQL_PORT

/-- Without the protocol, `^(tcp|np|lpc):` in either case. -/
def withoutProtocol (value : List Char) : List Char :=
  (["tcp:".toList, "np:".toList, "lpc:".toList].findSome? fun word => dropWord word value).getD value

def splitAdoServer (value : List Char) : List Char × Nat :=
  let parts := (withoutProtocol value).splitOn ','
  (trim (parts.headD []), mssqlPortOf parts[1]?)

/-- The loop of `splitAdoSegments`. -/
structure AdoScan where
  segments : List (List Char) := []
  current : List Char := []
  braced : Bool := false

def AdoScan.step (scan : AdoScan) (ch : Char) : AdoScan :=
  if ch = ';' ∧ scan.braced = false then
    { scan with segments := scan.segments ++ [scan.current], current := [] }
  else
    { scan with
      current := scan.current ++ [ch]
      braced := if ch = '\x7b' then true else if ch = '\x7d' then false else scan.braced }

def splitAdoSegments (value : List Char) : List (List Char) :=
  let scan := value.foldl AdoScan.step {}
  scan.segments ++ [scan.current]

/-- `(server|data source|address|addr|network address)\s*=` behind blanks, in either case. -/
def isServerKey (t : List Char) : Bool :=
  ["server".toList, "data source".toList, "address".toList, "addr".toList,
    "network address".toList].any fun word =>
      match dropWord word (t.dropWhile isSpace) with
      | some rest => (rest.dropWhile isSpace).head? == some '='
      | none => false

/-- `(^|;)\s*(server|data source|address|addr|network address)\s*=` somewhere in the text. -/
def mentionsServer (atStart : Bool) : List Char → Bool
  | [] => atStart && isServerKey []
  | c :: t => (atStart && isServerKey (c :: t)) || mentionsServer (c == ';') t

def DOUBLE_QUOTE : Char := Char.ofNat 34

def unquoted (raw : List Char) : List Char :=
  ((unwrap '\x7b' '\x7d' raw).or (unwrap DOUBLE_QUOTE DOUBLE_QUOTE raw)).getD raw

section Parsing
variable (lc : LowerCase) (urls : UrlLibrary)

def adoOf (segment : List Char) : Option (List Char × List Char) :=
  (splitFirst '=' segment).map fun (key, raw) => (lc.lower (trim key), unquoted (trim raw))

structure AdoFields where
  host : List Char := []
  port : Nat := DEFAULT_MSSQL_PORT
  database : List Char := []
  user : List Char := []
  password : List Char := []
  params : List (List Char × List Char) := []

def AdoFields.read (fields : AdoFields) (segment : List Char) : AdoFields :=
  match adoOf lc segment with
  | none => fields
  | some (key, value) =>
    match ADO_ALIASES key with
    | some .server => { fields with host := (splitAdoServer value).1, port := (splitAdoServer value).2 }
    | some .database => { fields with database := value }
    | some .user => { fields with user := value }
    | some .password => { fields with password := value }
    | none => { fields with params := fields.params ++ [(key, value)] }

def parseAdo (value : List Char) : Option ParsedMssqlConnString :=
  if mentionsServer true value = false then none
  else
    let fields := (splitAdoSegments value).foldl (AdoFields.read lc) {}
    if fields.host.length = 0 then none
    else some ⟨.ado, fields.host, fields.port, fields.database, fields.user, fields.password,
      fields.params⟩

/-- `^(mssql|sqlserver):$` in either case. -/
def isMssqlProtocol (protocol : List Char) : Bool :=
  protocol.map Char.toLower == "mssql:".toList || protocol.map Char.toLower == "sqlserver:".toList

def urlOf (value : List Char) : Option WebUrl :=
  match urls.parse value with
  | none => none
  | some url =>
    if isMssqlProtocol url.protocol = false then none
    else if url.hostname.length = 0 then none
    else some url

def parseUrl (value : List Char) : Except String (Option ParsedMssqlConnString) :=
  match urlOf urls value with
  | none => .ok none
  | some url => do
    let port := match (toNumber url.port).integer? with
      | some port => if 0 < port then port.toNat else DEFAULT_MSSQL_PORT
      | none => DEFAULT_MSSQL_PORT
    let params := url.searchParams.map fun pair => (lc.lower pair.1, pair.2)
    let host ← decodeOrThrow url.hostname
    let database ← decodeOrThrow (match url.pathname with
      | '/' :: path => path
      | path => path)
    let user ← decodeOrThrow url.username
    let password ← decodeOrThrow url.password
    return some ⟨.url, host, port, database, user, password, params⟩

def parseMssqlConnString (value : List Char) : Except String (Option ParsedMssqlConnString) :=
  if utf16Length value = 0 ∨ utf16Length value > 4096 then .ok none
  else do
    match ← parseUrl lc urls value with
    | some parsed => return some parsed
    | none => return parseAdo lc value

def mssqlHosts (value : List Char) : Except String (List (List Char) × Bool) := do
  match ← parseMssqlConnString lc urls value with
  | none => return ([], false)
  | some parsed => return ([hostPort parsed.host parsed.port], false)

end Parsing

/-!
## Rewriting connection strings of SQL Server

The server, the credentials and the options of the transport are rewritten in place. A
URL is changed through the setters of its library. Of a string of segments the segments
that set the same field are dropped, and the new ones are joined to the rest.
-/

inductive EncryptMode where
  | on | off | strict
  deriving DecidableEq

section Transport
variable (lc : LowerCase)

def encryptModeOf (parsed : ParsedMssqlConnString) : EncryptMode :=
  match (parsed.get "encrypt".toList).map lc.lower with
  | none => .on
  | some raw =>
    if raw = "strict".toList then .strict
    else if raw = "false".toList ∨ raw = "no".toList ∨ raw = "optional".toList then .off
    else .on

def trustsServerCertificate (parsed : ParsedMssqlConnString) : Bool :=
  match (parsed.get "trustservercertificate".toList).map lc.lower with
  | none => false
  | some raw => raw == "true".toList || raw == "yes".toList

end Transport

section Rewriting
variable (lc : LowerCase) (urls : UrlLibrary)

def adoKeyOf (segment : List Char) : Option (List Char) :=
  (splitFirst '=' segment).map fun cut => lc.lower (trim cut.1)

/-- A segment stays if its key is not dropped, and without a key if it is not blank. -/
def keepsAdo (drops : List Char → Bool) (segment : List Char) : Bool :=
  match adoKeyOf lc segment with
  | none => (trim segment).length > 0
  | some key => !drops key

def keptAdo (drops : List Char → Bool) (value : List Char) : List (List Char) :=
  (splitAdoSegments value).filter (keepsAdo lc drops)

def setsServer (key : List Char) : Bool :=
  ADO_ALIASES key == some .server

def setsCredentials (key : List Char) : Bool :=
  ADO_ALIASES key == some .user || ADO_ALIASES key == some .password

def joinAdo (segments : List (List Char)) : List Char :=
  [';'].intercalate segments

def rewriteMssql (value : List Char) (inUrl : WebUrl → WebUrl) (inAdo : List Char) :
    Except String (List Char) :=
  (parseMssqlConnString lc urls value).map fun parsed =>
    match parsed with
    | none => value
    | some parsed =>
      match parsed.form with
      | .url =>
        match urlOf urls value with
        | none => value
        | some url => urls.toText (inUrl url)
      | .ado => inAdo

def serverSegment (host : List Char) (port : Nat) : List Char :=
  "Server=".toList ++ host ++ ',' :: Nat.toDigits 10 port

def retargetMssqlConnString (value host : List Char) (port : Nat) : Except String (List Char) :=
  rewriteMssql lc urls value
    (fun url => urls.setPort (urls.setHostname url host) (Nat.toDigits 10 port))
    (let kept := keptAdo lc setsServer value
     joinAdo (serverSegment host port :: kept.filter fun segment => (trim segment).length > 0))

def inBraces (t : List Char) : List Char :=
  '\x7b' :: t ++ ['\x7d']

def credentialSegments (user password : List Char) : List (List Char) :=
  ["User Id=".toList ++ inBraces user, "Password=".toList ++ inBraces password]

def withMssqlCredentials (value user password : List Char) : Except String (List Char) :=
  rewriteMssql lc urls value
    (fun url => urls.setPassword (urls.setUsername url (encodeURIComponent user))
      (encodeURIComponent password))
    (let kept := keptAdo lc setsCredentials value
     joinAdo ((kept ++ credentialSegments user password).filter
       fun segment => (trim segment).length > 0))

def withParam (value key : List Char) (replacement : Option (List Char)) :
    Except String (List Char) :=
  rewriteMssql lc urls value
    (fun url => urls.setSearchParams url (rewriteQuery lc key replacement url.searchParams))
    (let kept := joinAdo (keptAdo lc (fun name => name == key) value)
     match replacement with
     | none => kept
     | some entry => kept ++ ';' :: key ++ '=' :: entry)

def withEncrypt (value : List Char) (parsed : ParsedMssqlConnString) (overrides : TlsOverrides) :
    Except String (List Char) :=
  if overrides.insecure then withParam lc urls value "encrypt".toList (some "false".toList)
  else if encryptModeOf lc parsed = .off then withParam lc urls value "encrypt".toList none
  else .ok value

def applyMssqlTlsOverrides (value : List Char) (overrides : TlsOverrides) :
    Except String (List Char) := do
  match ← parseMssqlConnString lc urls value with
  | none => return value
  | some parsed =>
    let result ← withEncrypt lc urls value parsed overrides
    withParam lc urls result "trustservercertificate".toList
      (if overrides.allowInvalidCertificates then some "true".toList else none)

end Rewriting

end Indexterity
