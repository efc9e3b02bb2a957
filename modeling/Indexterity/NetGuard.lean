import Indexterity.Library.Address

/-!
# The guard of the direct route

What kind of address a literal is, and whether the hosts of a connection string may be
dialled. A literal of the wide family is judged by patterns on its text. The resolver is
given: a name has the addresses it answers, or the lookup fails.
-/

namespace Indexterity

open Library

inductive AddressCategory where
  | PUBLIC | PRIVATE | FORBIDDEN
  deriving DecidableEq, Repr

structure AddressVerdict where
  category : AddressCategory
  reason : String
  deriving DecidableEq, Repr

structure Range where
  cidr : String
  category : AddressCategory
  reason : String

def V4_RANGES : List Range :=
  [⟨"0.0.0.0/8", .FORBIDDEN, "unspecified address"⟩,
   ⟨"127.0.0.0/8", .PRIVATE, "loopback"⟩,
   ⟨"10.0.0.0/8", .PRIVATE, "private network (RFC1918)"⟩,
   ⟨"172.16.0.0/12", .PRIVATE, "private network (RFC1918)"⟩,
   ⟨"192.168.0.0/16", .PRIVATE, "private network (RFC1918)"⟩,
   ⟨"100.64.0.0/10", .PRIVATE, "carrier-grade NAT"⟩,
   ⟨"169.254.0.0/16", .FORBIDDEN, "link-local / cloud metadata"⟩,
   ⟨"192.0.0.0/24", .FORBIDDEN, "IETF protocol assignments"⟩,
   ⟨"192.0.2.0/24", .FORBIDDEN, "documentation range"⟩,
   ⟨"198.18.0.0/15", .FORBIDDEN, "benchmarking range"⟩,
   ⟨"198.51.100.0/24", .FORBIDDEN, "documentation range"⟩,
   ⟨"203.0.113.0/24", .FORBIDDEN, "documentation range"⟩,
   ⟨"224.0.0.0/4", .FORBIDDEN, "multicast"⟩,
   ⟨"240.0.0.0/4", .FORBIDDEN, "reserved"⟩]

/-- `isIP`: the family of a literal, and 0 for any other text. -/
def isIP (t : List Char) : Nat :=
  if (v4Value t).isSome then 4 else if (v6Value t).isSome then 6 else 0

/-- One to three digits, `^\d{1,3}$`. -/
def isShortNumeral (t : List Char) : Bool :=
  isNumeral 10 t && t.length ≤ 3

/-- The loop of `ipv4ToInt` over the parts; a short numeral is read exactly. -/
def octetsToInt : Nat → List (List Char) → Option Nat
  | value, [] => some value
  | value, part :: parts =>
    if isShortNumeral part = false then none
    else if numeral 10 part > 255 then none
    else octetsToInt (value * 256 + numeral 10 part) parts

def ipv4ToInt (ip : List Char) : Option Nat :=
  let parts := ip.splitOn '.'
  if parts.length ≠ 4 then none else octetsToInt 0 parts

def inCidr (ip : Nat) (cidr : List Char) : Bool :=
  let parts := cidr.splitOn '/'
  let bits := match parts[1]? with
    | some bitsRaw => (toNumber bitsRaw).integer?
    | none => none
  match ipv4ToInt (parts.headD []), bits with
  | some baseInt, some bits =>
    if bits = 0 then true
    else
      -- the distance of a shift counts modulo 32
      let mask := 0xffffffff * 2 ^ ((32 - bits) % 32).toNat % 2 ^ 32
      (ip &&& mask) == (baseInt &&& mask)
  | _, _ => false

/-- What follows `::ffff:`, in either case of its letters. -/
def mappedTail : List Char → Option (List Char)
  | ':' :: ':' :: a :: b :: c :: d :: ':' :: tail =>
    if [a, b, c, d].all fun x => x == 'f' || x == 'F' then some tail else none
  | _ => none

def unwrapMappedV4 (ip : List Char) : Option (List Char) :=
  match mappedTail ip with
  | none => none
  | some tail =>
    if (tail.splitOn '.').length = 4 ∧ (tail.splitOn '.').all isShortNumeral then some tail
    else match tail.splitOn ':' with
      | [first, second] =>
        if isGroup first && isGroup second then
          let high := numeral 16 first
          let low := numeral 16 second
          some (Nat.toDigits 10 (high / 256) ++ '.' :: Nat.toDigits 10 (high % 256) ++
            '.' :: Nat.toDigits 10 (low / 256) ++ '.' :: Nat.toDigits 10 (low % 256))
        else none
      | _ => none

/-- The class `[0-9a-f]`. -/
def isLowerHex (c : Char) : Bool :=
  isDigit c || ['a', 'b', 'c', 'd', 'e', 'f'].contains c

/-- A pattern anchored at the start: one class of characters a place. -/
def matchesFrom : List (Char → Bool) → List Char → Bool
  | [], _ => true
  | _ :: _, [] => false
  | class_ :: classes, c :: t => class_ c && matchesFrom classes t

/-- `^f[cd][0-9a-f]{2}:` -/
def isUniqueLocal : List Char → Bool :=
  matchesFrom [(· == 'f'), fun c => c == 'c' || c == 'd', isLowerHex, isLowerHex, (· == ':')]

/-- `^fe[89ab][0-9a-f]:` -/
def isLinkLocal : List Char → Bool :=
  matchesFrom [(· == 'f'), (· == 'e'), ['8', '9', 'a', 'b'].contains, isLowerHex, (· == ':')]

/-- `^ff[0-9a-f]{2}:` -/
def isMulticast : List Char → Bool :=
  matchesFrom [(· == 'f'), (· == 'f'), isLowerHex, isLowerHex, (· == ':')]

/-- `^2001:0?db8:` -/
def isDocumentation (t : List Char) : Bool :=
  matchesFrom ("2001:db8:".toList.map fun c => (· == c)) t ||
    matchesFrom ("2001:0db8:".toList.map fun c => (· == c)) t

def classifyV6 (ip : List Char) : AddressVerdict :=
  -- a literal is ASCII, where lower case is a matter of single characters
  let lower := ip.map Char.toLower
  if lower = "::".toList ∨ lower = "::0".toList then ⟨.FORBIDDEN, "unspecified address"⟩
  else if lower = "::1".toList then ⟨.PRIVATE, "loopback"⟩
  else if isUniqueLocal lower then ⟨.PRIVATE, "unique local address (RFC4193)"⟩
  else if isLinkLocal lower then ⟨.FORBIDDEN, "link-local"⟩
  else if isMulticast lower then ⟨.FORBIDDEN, "multicast"⟩
  else if isDocumentation lower then ⟨.FORBIDDEN, "documentation range"⟩
  else ⟨.PUBLIC, "public address"⟩

/-- The loop of `classifyAddress` over the ranges. -/
def classifyValue (value : Nat) : AddressVerdict :=
  match V4_RANGES.find? fun range => inCidr value range.cidr.toList with
  | some range => ⟨range.category, range.reason⟩
  | none => ⟨.PUBLIC, "public address"⟩

def classifyV4 (ip : List Char) : AddressVerdict :=
  if isIP ip ≠ 4 then ⟨.FORBIDDEN, "not an IP address"⟩
  else match ipv4ToInt ip with
    | none => ⟨.FORBIDDEN, "not an IP address"⟩
    | some value => classifyValue value

/-- An unwrapped text has no colon, so judging it takes no second unwrapping. -/
def classifyAddress (ip : List Char) : AddressVerdict :=
  if isIP ip = 6 then
    match unwrapMappedV4 ip with
    | some mapped => classifyV4 mapped
    | none => classifyV6 ip
  else classifyV4 ip

structure TargetGuardOptions where
  allowPrivate : Bool

def assertAddress (host ip : List Char) (options : TargetGuardOptions) : Except String Unit :=
  let verdict := classifyAddress ip
  if verdict.category = .PUBLIC then .ok ()
  else if verdict.category = .PRIVATE ∧ options.allowPrivate = true then .ok ()
  else
    let advice := if verdict.category = .PRIVATE then
      " — set ALLOW_PRIVATE_CLUSTER_TARGETS=true if this deployment manages databases on a private network"
      else ""
    .error ("refusing to connect to " ++ String.ofList host ++ " (" ++ String.ofList ip ++ "): " ++
      verdict.reason ++ advice)

/-- What the names of the world resolve to; `none` is a failed lookup. -/
structure Resolver where
  lookup : List Char → Option (List (List Char))
  resolveSrv : List Char → Option (List (List Char))

def assertHostname (net : Resolver) (options : TargetGuardOptions) (host : List Char) :
    Except String Unit :=
  match net.lookup host with
  | none => .ok ()
  | some addresses => addresses.forM fun address => assertAddress host address options

/-- `^\[([^\]]+)\]`: what the brackets hold, and what follows them. -/
def bracketed : List Char → Option (List Char × List Char)
  | '[' :: t =>
    match splitFirst ']' t with
    | some (inside, rest) => if inside = [] then none else some (inside, rest)
    | none => none
  | _ => none

def hostOfTarget (hostPort : List Char) : List Char :=
  match bracketed hostPort with
  | some (inside, _) => inside
  | none => (hostPort.splitOn ':').headD hostPort

def assertTarget (net : Resolver) (isSrv : Bool) (options : TargetGuardOptions)
    (hostPort : List Char) : Except String Unit :=
  let host := hostOfTarget hostPort
  if host.length = 0 then .ok ()
  else if isIP host ≠ 0 then assertAddress host host options
  else if isSrv then
    let targets := (net.resolveSrv ("_mongodb._tcp.".toList ++ host)).getD []
    if targets.length > 0 then targets.forM (assertHostname net options)
    else assertHostname net options host
  else assertHostname net options host

def assertTargetsAllowed (net : Resolver) (hosts : List (List Char)) (isSrv : Bool)
    (options : TargetGuardOptions) : Except String Unit :=
  hosts.forM (assertTarget net isSrv options)

/-!
## The guard of the route through a tunnel

The peers' networks as parsed prefixes, and membership in one by comparing bit strings.
-/

structure Cidr where
  address : List Char
  bits : Nat
  deriving DecidableEq

def parseCidr (entry : List Char) : Except String Cidr :=
  let parts := entry.splitOn '/'
  let address := parts.headD []
  if isIP address = 0 then .error (String.ofList entry ++ " is not an address")
  else
    let width := if isIP address = 6 then 128 else 32
    let bits := match parts[1]? with
      | none => some (width : Int)
      | some length => (toNumber length).integer?
    match bits with
    | some bits =>
      if bits < 0 ∨ bits > width then
        .error (String.ofList entry ++ " has an impossible prefix length")
      else .ok ⟨address, bits.toNat⟩
    | none => .error (String.ofList entry ++ " has an impossible prefix length")

def splitHeadTail (address : List Char) : List Char × Option (List Char) :=
  match splitDouble ':' address with
  | none => (address, none)
  | some (head, rest) =>
    match splitDouble ':' rest with
    | none => (head, some rest)
    | some (tail, _) => (head, some tail)

def groupBits (group : List Char) : List Char :=
  padZeros 16 (parseHex (if group = [] then ['0'] else group)).toBinary

def toBits (address : List Char) : List Char :=
  if isIP address = 4 then
    (address.splitOn '.').flatMap fun octet => padZeros 8 (toNumber octet).toBinary
  else
    let (head, tail) := splitHeadTail address
    let left := if head = [] then [] else head.splitOn ':'
    let right := match tail with
      | none => []
      | some tail => if tail = [] then [] else tail.splitOn ':'
    let middle := List.replicate (8 - left.length - right.length) ['0']
    (left ++ middle ++ right).flatMap groupBits

def withinCidr (address : List Char) (cidr : Cidr) : Bool :=
  if isIP address ≠ isIP cidr.address then false
  else if cidr.bits = 0 then true
  else (toBits address).take cidr.bits == (toBits cidr.address).take cidr.bits

def assertDialableThroughTunnel (address : List Char) (allowedIps : List Cidr) :
    Except String Unit :=
  let verdict := classifyAddress address
  if verdict.category = .FORBIDDEN then
    .error ("refusing to connect to " ++ String.ofList address ++ " through the tunnel: " ++
      verdict.reason ++ " — never a database, whatever route reaches it")
  else if allowedIps.any (withinCidr address) = false then
    .error ("refusing to connect to " ++ String.ofList address ++
      ": outside this tunnel's AllowedIPs, so the peer did not agree to carry it")
  else .ok ()

end Indexterity
