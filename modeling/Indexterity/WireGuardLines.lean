import Indexterity.Library.Steps
import Indexterity.WireGuardConf

/-!
# Lines of a configuration and what is read from them

The directives of a text are its pairs, each with the section that is open above it. Along
the lines the maps hold the directives read so far, so a field of an accepted text is read
off its last directive. The earlier ones are lost, and a key that no field has is dropped:
every line is reflected just when there are no such lines, except for lists without entries.
-/

namespace Indexterity

open Library

structure Directive where
  owner : ConfSection
  key : List Char
  value : List Char
  deriving DecidableEq

inductive ConfField where
  | privateKey | address | dns | mtu | listenPort | fwMark
  | publicKey | presharedKey | endpoint | allowedIps | persistentKeepalive
  deriving DecidableEq

namespace ConfField

instance : Fintype ConfField where
  elems := ⟨[privateKey, address, dns, mtu, listenPort, fwMark, publicKey, presharedKey, endpoint,
    allowedIps, persistentKeepalive], by decide⟩
  complete := by
    intro field
    cases field <;> decide

def owner : ConfField → ConfSection
  | .privateKey | .address | .dns | .mtu | .listenPort | .fwMark => .interface
  | .publicKey | .presharedKey | .endpoint | .allowedIps | .persistentKeepalive => .peer

def key : ConfField → String
  | .privateKey => "privatekey"
  | .address => "address"
  | .dns => "dns"
  | .mtu => "mtu"
  | .listenPort => "listenport"
  | .fwMark => "fwmark"
  | .publicKey => "publickey"
  | .presharedKey => "presharedkey"
  | .endpoint => "endpoint"
  | .allowedIps => "allowedips"
  | .persistentKeepalive => "persistentkeepalive"

def isList : ConfField → Bool
  | .address | .dns | .allowedIps => true
  | _ => false

def entries : ConfField → List Char → List (List Char)
  | .dns, value => (cidrEntries value).map withoutLength
  | _, value => cidrEntries value

/-- The result holds what the value says. It has no place for a port to listen on and for
a mark. -/
def Takes (base64 : List Char → List Nat) (conf : WireGuardConf) (value : List Char) :
    ConfField → Prop
  | .privateKey => conf.privateKey = base64 value
  | .address => conf.addresses = address.entries value
  | .dns => conf.dns = dns.entries value
  | .mtu => integerIn 1280 1500 value = some conf.mtu
  | .listenPort | .fwMark => True
  | .publicKey => conf.peer.publicKey = base64 value
  | .presharedKey => conf.peer.presharedKey = some (base64 value)
  | .endpoint => parseEndpoint value = .ok conf.peer.endpoint
  | .allowedIps => conf.peer.allowedIps = allowedIps.entries value
  | .persistentKeepalive => conf.peer.persistentKeepalive =
      if value = "off".toList then none else integerIn 1 65535 value

end ConfField

def WireGuardConf.list (conf : WireGuardConf) : ConfField → List (List Char)
  | .address => conf.addresses
  | .dns => conf.dns
  | .allowedIps => conf.peer.allowedIps
  | _ => []

def Directive.Sets (directive : Directive) (field : ConfField) : Prop :=
  directive.owner = field.owner ∧ directive.key = field.key.toList
  deriving Decidable

def written (directives : List Directive) (field : ConfField) : List (List Char) :=
  (directives.filter fun directive => directive.Sets field).map Directive.value

/-- Each line is of a key of its section, lists are joined, and all else is set once and
held by the result. -/
structure Reflected (base64 : List Char → List Nat) (directives : List Directive)
    (conf : WireGuardConf) : Prop where
  known : ∀ directive ∈ directives, ∃ field, directive.Sets field
  joined : ∀ field : ConfField, field.isList = true →
    conf.list field = (written directives field).flatMap field.entries
  once : ∀ field : ConfField, field.isList = false → (written directives field).length ≤ 1
  held : ∀ field : ConfField, field.isList = false → ∀ value ∈ written directives field,
    field.Takes base64 conf value

/-- Each line is of a key of its section, and only lists without entries are set again. -/
def SetOnce (directives : List Directive) : Prop :=
  (∀ directive ∈ directives, ∃ field, directive.Sets field) ∧
    ∀ field : ConfField, ∀ value ∈ (written directives field).dropLast,
      field.isList = true ∧ field.entries value = []
  deriving Decidable

section Lines
variable (lc : LowerCase)

def sectionNamed (name : List Char) : Option ConfSection :=
  if lc.lower (trim name) = "interface".toList then some .interface
  else if lc.lower (trim name) = "peer".toList then some .peer
  else none

def sectionAfter (current : Option ConfSection) (raw : List Char) : Option ConfSection :=
  match confLine raw with
  | .header name => sectionNamed lc name
  | _ => current

def directiveAt (current : Option ConfSection) (raw : List Char) : Option Directive :=
  match confLine raw, current with
  | .pair directive value, some owner => some ⟨owner, lc.lower directive, value⟩
  | _, _ => none

def directivesFrom (current : Option ConfSection) : List (List Char) → List Directive
  | [] => []
  | raw :: lines =>
    (directiveAt lc current raw).toList ++ directivesFrom (sectionAfter lc current raw) lines

def directives (text : List Char) : List Directive := directivesFrom lc none (confLines text)

end Lines

def sectionFields (owner : ConfSection) (directives : List Directive) :
    List (List Char × List Char) :=
  (directives.filter fun directive => directive.owner = owner).map fun directive =>
    (directive.key, directive.value)

theorem sectionFields_append (owner : ConfSection) (ds ds' : List Directive) :
    sectionFields owner (ds ++ ds') = sectionFields owner ds ++ sectionFields owner ds' := by
  simp [sectionFields]

theorem fieldOf_sectionFields (ds : List Directive) (field : ConfField) :
    fieldOf (sectionFields field.owner ds) field.key = (written ds field).getLast? := by
  rw [fieldOf, lookupLast, sectionFields, written, List.filter_map, List.filter_filter,
    ← List.getLast?_map, List.map_map]
  congr 2
  apply List.filter_congr
  intro d _
  simp [Directive.Sets, and_comm]

variable {peers : List (List (List Char × List Char))} {raw value : List Char}

section Scanning
variable {lc : LowerCase}

def ConfScan.Open (scan : ConfScan) : Prop := scan.current = some .peer → scan.peers ≠ []

def ConfScan.fields (scan : ConfScan) : ConfSection → List (List Char × List Char)
  | .interface => scan.interfaceFields
  | .peer => scan.peers.flatten

/-- What a line does: it opens its section and writes its directive. -/
structure ConfScan.Reads (lc : LowerCase) (scan : ConfScan) (raw : List Char) (next : ConfScan) :
    Prop where
  isOpen : next.Open
  current : next.current = sectionAfter lc scan.current raw
  fields : ∀ owner, next.fields owner =
    scan.fields owner ++ sectionFields owner (directiveAt lc scan.current raw).toList

theorem flatten_setLast (h : peers ≠ []) (entry : List Char × List Char) :
    (setLast peers entry).flatten = peers.flatten ++ [entry] := by
  have hsplit := List.dropLast_append_getLast h
  rw [setLast, List.getLast?_eq_some_getLast h]
  conv_rhs => rw [← hsplit]
  simp

variable {scan next : ConfScan} {index : Nat}

theorem reads_openSection {name : List Char} (hline : confLine raw = .header name)
    (h : scan.openSection lc index name = .ok next) : scan.Reads lc raw next := by
  rw [ConfScan.openSection] at h
  have hafter : sectionAfter lc scan.current raw = sectionNamed lc name := by
    simp [sectionAfter, hline]
  have hnone : directiveAt lc scan.current raw = none := by simp [directiveAt, hline]
  split_ifs at h with hinterface hmore hpeer
  · cases h
    refine ⟨by simp [ConfScan.Open], by simp [hafter, sectionNamed, hinterface], fun owner => ?_⟩
    cases owner <;> simp [hnone, ConfScan.fields, sectionFields]
  · cases h
    refine ⟨by simp [ConfScan.Open], ?_, fun owner => ?_⟩
    · rw [hafter, sectionNamed, if_neg hinterface, if_pos hpeer]
    · cases owner <;> simp [hnone, ConfScan.fields, sectionFields]

theorem reads_set {directive : List Char}
    (hopen : scan.Open) (hline : confLine raw = .pair directive value)
    (h : scan.set lc index directive value = .ok next) : scan.Reads lc raw next := by
  rw [ConfScan.set] at h
  split_ifs at h
  cases hcurrent : scan.current with
  | none => simp [hcurrent] at h
  | some owner =>
    cases owner with
    | interface =>
      simp only [hcurrent] at h
      cases h
      refine ⟨by simp [ConfScan.Open], by simp [sectionAfter, hline, hcurrent], fun owner => ?_⟩
      cases owner <;> simp [directiveAt, hline, hcurrent, ConfScan.fields, sectionFields]
    | peer =>
      simp only [hcurrent] at h
      cases h
      have hpeers := hopen hcurrent
      refine ⟨fun _ => by simp [setLast, List.getLast?_eq_some_getLast hpeers], by simp [sectionAfter, hline, hcurrent],
        fun owner => ?_⟩
      cases owner
      · simp [directiveAt, hline, hcurrent, ConfScan.fields, sectionFields]
      · simp [directiveAt, hline, hcurrent, ConfScan.fields, sectionFields, flatten_setLast hpeers]

theorem reads_step (hopen : scan.Open)
    (h : scan.step lc index raw = .ok next) : scan.Reads lc raw next := by
  cases hline : confLine raw with
  | blank =>
    simp only [ConfScan.step, hline] at h
    cases h
    refine ⟨hopen, by simp [sectionAfter, hline], fun owner => ?_⟩
    simp [directiveAt, hline, sectionFields]
  | header name =>
    simp only [ConfScan.step, hline] at h
    exact reads_openSection hline h
  | pair directive value =>
    simp only [ConfScan.step, hline] at h
    exact reads_set hopen hline h
  | other => simp [ConfScan.step, hline] at h

theorem fields_readLines {lines : List (List Char)} {last : ConfScan}
    (hopen : scan.Open) (h : readLines lc scan index lines = .ok last) (owner : ConfSection) :
    last.fields owner =
      scan.fields owner ++ sectionFields owner (directivesFrom lc scan.current lines) := by
  induction lines generalizing scan index with
  | nil =>
    cases h
    simp [directivesFrom, sectionFields]
  | cons raw lines ih =>
    rw [readLines, bind_eq_ok_iff] at h
    obtain ⟨next, hstep, hrest⟩ := h
    have hreads := reads_step hopen hstep
    rw [ih hreads.isOpen hrest, hreads.fields owner, hreads.current, directivesFrom,
      sectionFields_append, List.append_assoc]

theorem fields_of_text {text : List Char} {last : ConfScan}
    (h : readLines lc {} 0 (confLines text) = .ok last) (owner : ConfSection) :
    last.fields owner = sectionFields owner (directives lc text) := by
  have hopen : ({} : ConfScan).Open := by simp [ConfScan.Open]
  rw [fields_readLines hopen h owner]
  cases owner <;> rfl

end Scanning

section Fields

theorem requiredField_eq_ok_iff {fields : List (List Char × List Char)} {key message : String} :
    requiredField fields key message = .ok value ↔ fieldOf fields key = some value := by
  cases h : fieldOf fields key <;> simp [requiredField, h]

variable {base64 : List Char → List Nat}

theorem parseKey_ok {what : String} {raw : List Nat}
    (h : parseKey base64 value what = .ok raw) : raw = base64 value := by
  simp only [parseKey] at h
  split_ifs at h
  cases h
  rfl

theorem parseCidrList_ok {what : String} {list : List (List Char)}
    (h : parseCidrList value what = .ok list) : list = cidrEntries value := by
  simp only [parseCidrList] at h
  split_ifs at h
  · cases h
  · rw [bind_eq_ok_iff] at h
    obtain ⟨_, _, h⟩ := h
    cases h
    rfl

variable {fields : List (List Char × List Char)}

theorem parseDns_ok {dns : List (List Char)} {raw : Option (List Char)}
    (h : parseDns fields = .ok dns) (hraw : fieldOf fields "dns" = raw) :
    dns = (raw.map ConfField.dns.entries).getD [] := by
  cases raw with
  | none =>
    simp only [parseDns, hraw] at h
    cases h
    rfl
  | some value =>
    simp only [parseDns, hraw, map_eq_ok_iff] at h
    obtain ⟨list, hlist, rfl⟩ := h
    rw [parseCidrList_ok hlist]
    rfl

theorem parseMtu_ok {mtu : Nat} (h : parseMtu fields = .ok mtu)
    (hraw : fieldOf fields "mtu" = some raw) : integerIn 1280 1500 raw = some mtu := by
  simp only [parseMtu, hraw] at h
  cases hmtu : integerIn 1280 1500 raw with
  | none => simp [hmtu] at h
  | some n => simpa [hmtu] using h

theorem parsePresharedKey_ok {key : Option (List Nat)}
    (h : parsePresharedKey base64 fields = .ok key)
    (hraw : fieldOf fields "presharedkey" = some raw) : key = some (base64 raw) := by
  simp only [parsePresharedKey, hraw, map_eq_ok_iff] at h
  obtain ⟨bytes, hbytes, rfl⟩ := h
  rw [parseKey_ok hbytes]

theorem parseKeepalive_ok {keepalive : Option Nat} (h : parseKeepalive fields = .ok keepalive)
    (hraw : fieldOf fields "persistentkeepalive" = some raw) :
    keepalive = if raw = "off".toList then none else integerIn 1 65535 raw := by
  simp only [parseKeepalive, hraw] at h
  split_ifs at h ⊢
  · cases h
    rfl
  · cases hseconds : integerIn 1 65535 raw with
    | none => simp [hseconds] at h
    | some n => simpa [hseconds, eq_comm] using h

theorem onlyPeer_ok (h : onlyPeer peers = .ok fields) : peers = [fields] := by
  match peers, h with
  | [_], h =>
    cases h
    rfl

end Fields

/-- Each field that is set takes its value, and a list that is not set is empty. -/
structure ReadBy (base64 : List Char → List Nat) (get : ConfField → Option (List Char))
    (conf : WireGuardConf) : Prop where
  taken : ∀ field value, get field = some value → field.Takes base64 conf value
  unset : ∀ field : ConfField, field.isList = true → get field = none → conf.list field = []

section Acceptance
variable {lc : LowerCase} {base64 : List Char → List Nat} {text : List Char} {conf : WireGuardConf}

theorem readBy_of_parse (h : parseWireGuardConf lc base64 text = .ok conf) :
    ReadBy base64 (fun field => (written (directives lc text) field).getLast?) conf := by
  simp only [parseWireGuardConf, bind_eq_ok_iff, requiredField_eq_ok_iff] at h
  obtain ⟨scan, hscan, privateRaw, hprivateRaw, privateKey, hprivate, addressRaw, haddressRaw,
    addresses, haddresses, dns, hdns, mtu, hmtu, peer, hpeer, publicRaw, hpublicRaw, publicKey,
    hpublic, endpointRaw, hendpointRaw, endpoint, hendpoint, allowedRaw, hallowedRaw, allowed,
    hallowed, preshared, hpreshared, keepalive, hkeepalive, hconf⟩ := h
  cases hconf
  have hinterface : scan.interfaceFields = sectionFields .interface (directives lc text) :=
    fields_of_text hscan .interface
  have hpeerFields : peer = sectionFields .peer (directives lc text) := by
    rw [← fields_of_text hscan .peer, ConfScan.fields, onlyPeer_ok hpeer]
    simp
  simp only [← fieldOf_sectionFields]
  rw [hinterface] at hprivateRaw haddressRaw hdns hmtu
  rw [hpeerFields] at hpublicRaw hendpointRaw hallowedRaw hpreshared hkeepalive
  constructor
  · intro field value hvalue
    cases field with
    | privateKey =>
      cases hprivateRaw.symm.trans hvalue
      exact parseKey_ok hprivate
    | address =>
      cases haddressRaw.symm.trans hvalue
      exact parseCidrList_ok haddresses
    | dns => exact parseDns_ok hdns hvalue
    | mtu => exact parseMtu_ok hmtu hvalue
    | listenPort => trivial
    | fwMark => trivial
    | publicKey =>
      cases hpublicRaw.symm.trans hvalue
      exact parseKey_ok hpublic
    | presharedKey => exact parsePresharedKey_ok hpreshared hvalue
    | endpoint =>
      cases hendpointRaw.symm.trans hvalue
      exact hendpoint
    | allowedIps =>
      cases hallowedRaw.symm.trans hvalue
      exact parseCidrList_ok hallowed
    | persistentKeepalive => exact parseKeepalive_ok hkeepalive hvalue
  · intro field hlist hunset
    cases field with
    | address => cases haddressRaw.symm.trans hunset
    | allowedIps => cases hallowedRaw.symm.trans hunset
    | dns => exact parseDns_ok hdns hunset
    | _ => rfl

theorem list_eq_last {get : ConfField → Option (List Char)} (h : ReadBy base64 get conf)
    {field : ConfField} (hlist : field.isList = true) :
    conf.list field = ((get field).map field.entries).getD [] := by
  cases hget : get field with
  | none => exact h.unset field hlist hget
  | some value =>
    have htaken := h.taken field value hget
    cases field with
    | address => exact htaken
    | dns => exact htaken
    | allowedIps => exact htaken
    | _ => cases hlist

variable (lc base64 text conf)

theorem accepted_reflected_iff (accepted : parseWireGuardConf lc base64 text = .ok conf) :
    Reflected base64 (directives lc text) conf ↔ SetOnce (directives lc text) := by
  have hread := readBy_of_parse accepted
  constructor
  · intro h
    refine ⟨h.known, fun field value hvalue => ?_⟩
    cases hlist : field.isList with
    | true =>
      have hjoined := h.joined field hlist
      rw [list_eq_last hread hlist, getLast_eq_flatMap_iff] at hjoined
      exact ⟨rfl, hjoined value hvalue⟩
    | false =>
      have hlength := h.once field hlist
      have hpos := List.length_pos_of_mem hvalue
      rw [List.length_dropLast] at hpos
      omega
  · rintro ⟨hknown, hset⟩
    -- a field that is no list has no line before its last
    have hone : ∀ field : ConfField, field.isList = false →
        (written (directives lc text) field).length ≤ 1 := by
      intro field hlist
      by_contra hmore
      have hpos : 0 < (written (directives lc text) field).dropLast.length := by
        rw [List.length_dropLast]
        omega
      obtain ⟨value, hvalue⟩ := List.exists_mem_of_length_pos hpos
      rw [(hset field value hvalue).1] at hlist
      cases hlist
    refine ⟨hknown, fun field hlist => ?_, hone, fun field hlist value hvalue => ?_⟩
    · rw [list_eq_last hread hlist, getLast_eq_flatMap_iff]
      exact fun value hvalue => (hset field value hvalue).2
    · apply hread.taken field value
      have hlength := hone field hlist
      obtain ⟨before, after, heq⟩ := List.append_of_mem hvalue
      rw [heq, List.length_append, List.length_cons] at hlength
      have hafter : after = [] := List.length_eq_zero_iff.mp (by omega)
      rw [heq, hafter, List.getLast?_concat]

end Acceptance

/-! ## Configurations of a gateway -/

def sextet (c : Char) : Option Nat :=
  if 'A' ≤ c ∧ c ≤ 'Z' then some (c.toNat - 65)
  else if 'a' ≤ c ∧ c ≤ 'z' then some (c.toNat - 71)
  else if '0' ≤ c ∧ c ≤ '9' then some (c.toNat + 4)
  else if c = '+' ∨ c = '-' then some 62
  else if c = '/' ∨ c = '_' then some 63
  else none

def sextetBytes : List Nat → List Nat
  | a :: b :: c :: d :: rest =>
    (a * 4 + b / 16) :: (b % 16 * 16 + c / 4) :: (c % 4 * 64 + d) :: sextetBytes rest
  | [a, b, c] => [a * 4 + b / 16, b % 16 * 16 + c / 4]
  | [a, b] => [a * 4 + b / 16]
  | _ => []

def base64Bytes (t : List Char) : List Nat :=
  sextetBytes ((t.takeWhile fun c => c != '=').filterMap sextet)

def gatewayText (lines : List String) : List Char :=
  (["[Interface]", "PrivateKey = AAAAAAAAAAAAAAAAAAAAAAAAAAAAAAAAAAAAAAAAAAA="] ++ lines ++
    ["[Peer] # the gateway", "PublicKey = AAAAAAAAAAAAAAAAAAAAAAAAAAAAAAAAAAAAAAAAAAA=",
      "Endpoint = vpn:51820", "AllowedIPs = 10.0.0.0/8"]).flatMap fun line => line.toList ++ ['\n']

def gatewayConf (addresses : List (List Char)) (mtu : Nat) : WireGuardConf :=
  ⟨List.replicate 32 0, addresses, [], mtu,
    ⟨List.replicate 32 0, none, ("vpn".toList, 51820), ["10.0.0.0/8".toList], none⟩⟩

theorem accepted_reflected_once :
    let text := gatewayText ["Address = ,", "Address = 10.0.0.2", "MTU = 1400", "FwMark = 1"]
    SetOnce (directives asciiLower text) ∧
      Reflected base64Bytes (directives asciiLower text)
        (gatewayConf ["10.0.0.2".toList] 1400) := by
  intro text
  have hset : SetOnce (directives asciiLower text) := by decide +kernel
  exact ⟨hset, (accepted_reflected_iff asciiLower base64Bytes text
    (gatewayConf ["10.0.0.2".toList] 1400) (by decide +kernel)).mpr hset⟩

/-- A key that no section has is accepted, a first list of addresses is lost, and an MTU is
set twice. -/
theorem accepted_not_reflected :
    let text := gatewayText ["Address = 10.0.0.2", "Address = fd00::2", "MTU = 1300",
      "MTU = 1400", "Jitter = 4"]
    let conf := gatewayConf ["fd00::2".toList] 1400
    parseWireGuardConf asciiLower base64Bytes text = .ok conf ∧
      ¬ Reflected base64Bytes (directives asciiLower text) conf ∧
      ⟨.interface, "jitter".toList, "4".toList⟩ ∈ directives asciiLower text ∧
      written (directives asciiLower text) .address = ["10.0.0.2".toList, "fd00::2".toList] ∧
      written (directives asciiLower text) .mtu = ["1300".toList, "1400".toList] := by
  intro text conf
  have hlines : ⟨.interface, "jitter".toList, "4".toList⟩ ∈ directives asciiLower text ∧
      written (directives asciiLower text) .address = ["10.0.0.2".toList, "fd00::2".toList] ∧
      written (directives asciiLower text) .mtu = ["1300".toList, "1400".toList] := by
    decide +kernel
  refine ⟨by decide +kernel, fun h => ?_, hlines⟩
  have honce := h.once .mtu rfl
  rw [hlines.2.2] at honce
  exact absurd honce (by decide)

end Indexterity
