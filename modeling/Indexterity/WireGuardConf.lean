import Indexterity.Library.Keyed
import Indexterity.NetGuard

/-!
# Configurations of WireGuard

A text of sections and directives, read line by line. A line is stripped of its comment;
it is a header, or a key and a value for the section that is open. The fields of a section
are the writes to a map, in order, and a key has the last value written. Then the fields
are read, each with its check. The mapping to lower case and the decoding of base64 are
given.
-/

namespace Indexterity

open Library

structure WireGuardPeerConf where
  publicKey : List Nat
  presharedKey : Option (List Nat)
  endpoint : List Char × Nat
  allowedIps : List (List Char)
  persistentKeepalive : Option Nat
  deriving DecidableEq

structure WireGuardConf where
  privateKey : List Nat
  addresses : List (List Char)
  dns : List (List Char)
  mtu : Nat
  peer : WireGuardPeerConf
  deriving DecidableEq

def SCRIPT_DIRECTIVES : List (List Char) :=
  ["postup".toList, "predown".toList, "postdown".toList, "preup".toList, "table".toList,
    "saveconfig".toList]

def DEFAULT_MTU : Nat := 1420

def parseKey (base64 : List Char → List Nat) (value : List Char) (what : String) :
    Except String (List Nat) :=
  let raw := base64 value
  if raw.length ≠ 32 then .error (what ++ " is not a 32-byte WireGuard key") else .ok raw

def cidrEntries (value : List Char) : List (List Char) :=
  ((value.splitOn ',').map trim).filter fun entry => entry.length > 0

def integerIn (least greatest : Nat) (t : List Char) : Option Nat :=
  match (toNumber t).integer? with
  | some n => if (least : Int) ≤ n ∧ n ≤ greatest then some n.toNat else none
  | none => none

def assertCidr (what : String) (entry : List Char) : Except String Unit :=
  let parts := entry.splitOn '/'
  let address := parts.headD []
  if isIP address = 0 then
    .error (what ++ " entry " ++ String.ofList entry ++ " is not an address")
  else match parts[1]? with
    | none => .ok ()
    | some bits =>
      if (integerIn 0 (if isIP address = 6 then 128 else 32) bits).isNone then
        .error (what ++ " entry " ++ String.ofList entry ++ " has an impossible prefix length")
      else .ok ()

def parseCidrList (value : List Char) (what : String) : Except String (List (List Char)) := do
  let entries := cidrEntries value
  if entries.length = 0 then throw (what ++ " is empty")
  entries.forM (assertCidr what)
  return entries

/-- `^\[([^\]]+)\]:(\d+)$` -/
def bracketedEndpoint (t : List Char) : Option (List Char × List Char) :=
  match bracketed t with
  | some (host, ':' :: port) => if isNumeral 10 port then some (host, port) else none
  | _ => none

/-- `^([^:]+):(\d+)$` -/
def plainEndpoint (t : List Char) : Option (List Char × List Char) :=
  match splitFirst ':' t with
  | some (host, port) => if host ≠ [] ∧ isNumeral 10 port then some (host, port) else none
  | none => none

def parseEndpoint (value : List Char) : Except String (List Char × Nat) :=
  match (bracketedEndpoint (trim value)).or (plainEndpoint (trim value)) with
  | none => .error ("Endpoint " ++ String.ofList value ++ " is not host:port")
  | some (host, portText) =>
    match integerIn 1 65535 portText with
    | none => .error ("Endpoint port " ++ String.ofList portText ++ " is not a port")
    | some port => .ok (host, port)

inductive ConfSection where
  | interface | peer
  deriving DecidableEq

/-- The loop over the lines. -/
structure ConfScan where
  current : Option ConfSection := none
  interfaceFields : List (List Char × List Char) := []
  peers : List (List (List Char × List Char)) := []

/-- `text.split(/\r?\n/)` -/
def confLines (text : List Char) : List (List Char) :=
  let parts := text.splitOn '\n'
  parts.dropLast.map (fun line => if line.getLast? = some '\r' then line.dropLast else line) ++
    parts.getLast?.toList

/-- `/[#;].*$/`: the first mark behind which there is no line end. -/
def stripComment : List Char → List Char
  | [] => []
  | c :: t =>
    if (c = '#' ∨ c = ';') ∧ t.all (fun c => !isLineEnd c) = true then [] else c :: stripComment t

/-- What a line is, without its comment and the blanks around it. -/
inductive ConfLine where
  | blank
  | header (name : List Char)
  | pair (directive value : List Char)
  | other

/-- `^\[(.+)\]$`, and `key = value` with the first `=`. -/
def confLine (raw : List Char) : ConfLine :=
  let line := trim (stripComment raw)
  if line.length = 0 then .blank
  else match unwrap '[' ']' line with
    | some (c :: name) => .header (c :: name)
    | _ =>
      match splitFirst '=' line with
      | some (directive, value) => .pair (trim directive) (trim value)
      | none => .other

def setLast (peers : List (List (List Char × List Char))) (entry : List Char × List Char) :
    List (List (List Char × List Char)) :=
  match peers.getLast? with
  | none => peers
  | some fields => peers.dropLast ++ [fields ++ [entry]]

section Parsing
variable (lc : LowerCase) (base64 : List Char → List Nat)

def ConfScan.openSection (scan : ConfScan) (index : Nat) (header : List Char) :
    Except String ConfScan :=
  let name := lc.lower (trim header)
  if name = "interface".toList then
    if scan.current ≠ none ∨ scan.interfaceFields.length > 0 then
      .error "more than one [Interface] section"
    else .ok { scan with current := some .interface }
  else if name = "peer".toList then
    .ok { scan with current := some .peer, peers := scan.peers ++ [[]] }
  else
    .error ("unknown section [" ++ String.ofList header ++ "] on line " ++ toString (index + 1))

def ConfScan.set (scan : ConfScan) (index : Nat) (directive value : List Char) :
    Except String ConfScan :=
  let key := lc.lower directive
  if key ∈ SCRIPT_DIRECTIVES then
    .error (String.ofList directive ++
      " is a wg-quick directive that runs commands, and this is not wg-quick — " ++
      "remove it, and arrange routing on your own side of the tunnel")
  else match scan.current with
    | none => .error ("line " ++ toString (index + 1) ++ " is outside any section")
    | some .interface =>
      .ok { scan with interfaceFields := scan.interfaceFields ++ [(key, value)] }
    | some .peer => .ok { scan with peers := setLast scan.peers (key, value) }

def ConfScan.step (scan : ConfScan) (index : Nat) (raw : List Char) : Except String ConfScan :=
  match confLine raw with
  | .blank => .ok scan
  | .header name => scan.openSection lc index name
  | .pair directive value => scan.set lc index directive value
  | .other => .error ("line " ++ toString (index + 1) ++ " is not a key = value pair")

def readLines (scan : ConfScan) (index : Nat) : List (List Char) → Except String ConfScan
  | [] => .ok scan
  | raw :: lines => do
    let scan ← scan.step lc index raw
    readLines scan (index + 1) lines

def fieldOf (fields : List (List Char × List Char)) (key : String) : Option (List Char) :=
  (lookupLast Prod.fst fields key.toList).map Prod.snd

def requiredField (fields : List (List Char × List Char)) (key message : String) :
    Except String (List Char) :=
  match fieldOf fields key with
  | none => .error message
  | some value => .ok value

def withoutLength (entry : List Char) : List Char :=
  (entry.splitOn '/').headD entry

def parseDns (fields : List (List Char × List Char)) : Except String (List (List Char)) :=
  match fieldOf fields "dns" with
  | none => .ok []
  | some raw => (parseCidrList raw "[Interface] DNS").map fun entries => entries.map withoutLength

def parseMtu (fields : List (List Char × List Char)) : Except String Nat :=
  match fieldOf fields "mtu" with
  | none => .ok DEFAULT_MTU
  | some raw =>
    match integerIn 1280 1500 raw with
    | some mtu => .ok mtu
    | none => .error ("[Interface] MTU " ++ String.ofList raw ++ " is out of range")

def onlyPeer (peers : List (List (List Char × List Char))) :
    Except String (List (List Char × List Char)) :=
  match peers with
  | [] => .error "the config has no [Peer] section"
  | [fields] => .ok fields
  | peers => .error ("the config has " ++ toString peers.length ++
      " [Peer] sections; a cluster tunnel reaches exactly one gateway")

def parsePresharedKey (fields : List (List Char × List Char)) : Except String (Option (List Nat)) :=
  match fieldOf fields "presharedkey" with
  | none => .ok none
  | some raw => (parseKey base64 raw "[Peer] PresharedKey").map some

def parseKeepalive (fields : List (List Char × List Char)) : Except String (Option Nat) :=
  match fieldOf fields "persistentkeepalive" with
  | none => .ok none
  | some raw =>
    if raw = "off".toList then .ok none
    else match integerIn 1 65535 raw with
      | some seconds => .ok (some seconds)
      | none => .error ("[Peer] PersistentKeepalive " ++ String.ofList raw ++
          " is not a number of seconds")

def parseWireGuardConf (text : List Char) : Except String WireGuardConf := do
  let scan ← readLines lc {} 0 (confLines text)
  let privateKeyRaw ←
    requiredField scan.interfaceFields "privatekey" "[Interface] has no PrivateKey"
  let privateKey ← parseKey base64 privateKeyRaw "[Interface] PrivateKey"
  let addressRaw ← requiredField scan.interfaceFields "address" "[Interface] has no Address"
  let addresses ← parseCidrList addressRaw "[Interface] Address"
  let dns ← parseDns scan.interfaceFields
  let mtu ← parseMtu scan.interfaceFields
  let peerFields ← onlyPeer scan.peers
  let peerKeyRaw ← requiredField peerFields "publickey" "[Peer] has no PublicKey"
  let publicKey ← parseKey base64 peerKeyRaw "[Peer] PublicKey"
  let endpointRaw ← requiredField peerFields "endpoint"
    ("[Peer] has no Endpoint — Indexterity dials out, so the gateway's address is required")
  let endpoint ← parseEndpoint endpointRaw
  let allowedRaw ← requiredField peerFields "allowedips" "[Peer] has no AllowedIPs"
  let allowedIps ← parseCidrList allowedRaw "[Peer] AllowedIPs"
  let presharedKey ← parsePresharedKey base64 peerFields
  let persistentKeepalive ← parseKeepalive peerFields
  return ⟨privateKey, addresses, dns, mtu,
    ⟨publicKey, presharedKey, endpoint, allowedIps, persistentKeepalive⟩⟩

end Parsing

end Indexterity
