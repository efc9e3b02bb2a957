import Indexterity.AdoSegments

/-!
# What a rewritten string of SQL Server says

The segments of the rewritten string are those that were kept and the new ones, as long
as no brace is left open before a new one. Then every field but the rewritten ones is read
as before.
-/

namespace Indexterity

open Library

/-- Segments that may be joined again, with so many units of text added behind them: a brace
is open behind the last at most, and only if nothing is added; the server is still found;
and the text does not start as a URL does. -/
def Rejoins (segments : List (List Char)) (extra : Nat) : Prop :=
  (extra ≠ 0 → ∀ s ∈ segments, Closed s) ∧ utf16Length (joinAdo segments) + extra ≤ 4096 ∧
    (∃ s ∈ segments, mentionsServer true s = true) ∧ segments.head?.any startsAsUrl = false
  deriving Decidable

/-- A value that braces hold together: on one line, and without a semicolon behind a closing
brace. -/
def Braceable (t : List Char) : Prop :=
  braceRun true t ≠ none ∧ ∀ c ∈ t, isLineEnd c = false
  deriving Decidable

/-- The name of a server as a segment can carry it: without a comma, blanks around it or the
prefix of a protocol. -/
def ServerName (host : List Char) : Prop :=
  host ≠ [] ∧ ',' ∉ host ∧ trim host = host ∧ withoutProtocol host = host
  deriving Decidable

/-- The server and the port fit into the segment they are written to, and the segment into
the string: if other segments follow, no brace is open behind the name. -/
def ServerFits (lc : LowerCase) (value host : List Char) (port : Nat) : Prop :=
  ServerName host ∧ (0 < port ∧ port < 65536) ∧ braceRun false host ≠ none ∧
    (Closed host ∨ keptAdo lc setsServer value = []) ∧
    ((keptAdo lc setsServer value).map fun s => utf16Length s + 1).sum +
      utf16Length host + (Nat.toDigits 10 port).length + 8 ≤ 4096
  deriving Decidable

variable {new segments : List (List Char)} {name t : List Char}

section Parsing
variable {lc : LowerCase} {urls : UrlLibrary} {value : List Char}
  {parsed : ParsedMssqlConnString}

theorem parse_joinAdo (hurls : urls.SchemeFirst) (hseparate : Separate segments)
    (hmention : ∃ s ∈ segments, mentionsServer true s = true)
    (hplain : segments.head?.any startsAsUrl = false)
    (hfits : utf16Length (joinAdo segments) ≤ 4096)
    (hfields : (fieldsOf (adoEntries lc segments)).parsed = parsed) (hhost : parsed.host ≠ []) :
    parseMssqlConnString lc urls (joinAdo segments) = .ok (some parsed) := by
  have hform : parsed.form = .ado := by
    rw [← hfields]
    rfl
  have hserver := mentionsServer_joinAdo hmention
  have hne : joinAdo segments ≠ [] := by
    intro hnil
    rw [hnil] at hserver
    exact absurd hserver (by decide)
  rw [parseMssql_ado_iff hform, parseAdo_eq_some_iff, hseparate.split]
  refine ⟨⟨utf16Length_ne_zero hne, hfits⟩, ?_, hserver, hfields, hhost⟩
  apply urlOf_eq_none hurls
  cases segments with
  | nil => simp at hmention
  | cons first segments => exact startsAsUrl_joinAdo (by simpa using hplain)

theorem separate_rejoined {keeps : List Char → Bool} (hseparate : Separate segments)
    (hkept : Rejoins (segments.filter keeps) (new.map fun s => utf16Length s + 1).sum)
    (hnew : ∀ s ∈ new, Closed s) : Separate (segments.filter keeps ++ new) := by
  obtain ⟨hclosed, -, ⟨server, hserver, -⟩, -⟩ := hkept
  cases new with
  | nil =>
    rw [List.append_nil]
    exact hseparate.filter (List.ne_nil_of_mem hserver)
  | cons first new =>
    apply separate_of_closed (by simp)
    intro s hs
    rcases List.mem_append.mp hs with hs | hs
    · exact hclosed (by simp) s hs
    · exact hnew s hs

theorem parse_rejoined (hurls : urls.SchemeFirst) {drops : List Char → Bool}
    (hseparate : Separate segments)
    (hkept : Rejoins (segments.filter (keepsAdo lc drops)) (new.map fun s => utf16Length s + 1).sum)
    (hnew : ∀ s ∈ new, Closed s)
    (hfields : (fieldsOf (((adoEntries lc segments).filter fun entry => !drops entry.1) ++
      adoEntries lc new)).parsed = parsed) (hhost : parsed.host ≠ []) :
    parseMssqlConnString lc urls (joinAdo (segments.filter (keepsAdo lc drops) ++ new)) =
      .ok (some parsed) := by
  have hrejoined := separate_rejoined hseparate hkept hnew
  obtain ⟨-, hfits, ⟨server, hserver, hmention⟩, hplain⟩ := hkept
  have hne := List.ne_nil_of_mem hserver
  apply parse_joinAdo hurls hrejoined
  · exact ⟨server, List.mem_append_left _ hserver, hmention⟩
  · rw [List.head?_append_of_ne_nil _ hne]
    exact hplain
  · rw [utf16Length_joinAdo_append hne]
    exact hfits
  · rw [← hfields, ← adoEntries_filter, adoEntries, List.filterMap_append]
    rfl
  · exact hhost

variable (hparsed : parseMssqlConnString lc urls value = .ok (some parsed))
    (hform : parsed.form = .ado)
include hparsed hform

theorem rewriteMssql_ado (inUrl : WebUrl → WebUrl) (inAdo : List Char) :
    rewriteMssql lc urls value inUrl inAdo = .ok inAdo := by
  rw [rewriteMssql, hparsed]
  simp only [Except.map, hform]

theorem fields_of_parse :
    (fieldsOf (adoEntries lc (splitAdoSegments value))).parsed = parsed ∧ parsed.host ≠ [] :=
  ((parseAdo_eq_some_iff lc).mp ((parseMssql_ado_iff hform).mp hparsed).2.2).2

end Parsing

section Credentials
variable {lc : LowerCase} {urls : UrlLibrary} {value user password : List Char}
  {parsed : ParsedMssqlConnString}

theorem unquoted_inBraces (h : ∀ c ∈ t, isLineEnd c = false) :
    unquoted (trim (inBraces t)) = t := by
  have htrim : trim (inBraces t) = inBraces t := by
    apply trim_eq_self
    · intro c hc
      cases hc
      decide
    · intro c hc
      rw [inBraces, List.cons_append, List.getLast?_cons, List.getLast?_concat] at hc
      cases hc
      decide
  have hall : t.all (fun c => !isLineEnd c) = true := by
    rw [List.all_eq_true]
    intro c hc
    simp [h c hc]
  rw [htrim, unquoted, inBraces, List.cons_append, unwrap, if_pos ⟨rfl, by simp, by simpa using hall⟩]
  simp

theorem adoOf_inBraces {key : List Char} (hname : '=' ∉ name) (hkey : lc.lower (trim name) = key)
    (h : ∀ c ∈ t, isLineEnd c = false) : adoOf lc (name ++ '=' :: inBraces t) = some (key, t) := by
  simp only [adoOf, splitFirst_append_cons hname, Option.map_some, unquoted_inBraces h, hkey]

theorem closed_inBraces (hname : ∀ c ∈ name, c ≠ ';' ∧ c ≠ '\x7b' ∧ c ≠ '\x7d')
    (h : braceRun true t ≠ none) : Closed (name ++ '=' :: inBraces t) := by
  obtain ⟨braced, hbraced⟩ := Option.ne_none_iff_exists'.mp h
  have hinside : braceRun false ('=' :: inBraces t) = braceRun true (t ++ ['\x7d']) := rfl
  rw [Closed, braceRun_append, braceRun_plain hname, Option.bind_some, hinside, braceRun_append,
    hbraced]
  rfl

theorem credentialSegments_eq (user password : List Char) : credentialSegments user password =
    ["User Id".toList ++ '=' :: inBraces user, "Password".toList ++ '=' :: inBraces password] :=
  rfl

section
variable (huser : Braceable user) (hpassword : Braceable password)
include huser hpassword

theorem adoEntries_credentials :
    adoEntries lc (credentialSegments user password) =
      [("user id".toList, user), ("password".toList, password)] := by
  have hu : adoOf lc ("User Id".toList ++ '=' :: inBraces user) = some ("user id".toList, user) :=
    adoOf_inBraces (by decide) (lc.ascii _ (by decide)) huser.2
  have hp : adoOf lc ("Password".toList ++ '=' :: inBraces password) =
      some ("password".toList, password) :=
    adoOf_inBraces (by decide) (lc.ascii _ (by decide)) hpassword.2
  rw [credentialSegments_eq, adoEntries, List.filterMap_cons_some hu,
    List.filterMap_cons_some hp, List.filterMap_nil]

theorem closed_credentials :
    ∀ s ∈ credentialSegments user password, Closed s := by
  intro s hs
  rw [credentialSegments_eq] at hs
  rcases List.mem_pair.mp hs with rfl | rfl
  · exact closed_inBraces (by decide) huser.1
  · exact closed_inBraces (by decide) hpassword.1

end

theorem utf16Length_inBraces (t : List Char) : utf16Length (inBraces t) = utf16Length t + 2 := by
  rw [inBraces, utf16Length_append, utf16Length_cons]
  have hone : utf16Length ['\x7b'] = 1 ∧ utf16Length ['\x7d'] = 1 := ⟨rfl, rfl⟩
  omega

theorem utf16Length_credentials (user password : List Char) :
    ((credentialSegments user password).map fun s => utf16Length s + 1).sum =
      utf16Length user + utf16Length password + 23 := by
  have hname : utf16Length "User Id=".toList = 8 ∧ utf16Length "Password=".toList = 9 := ⟨rfl, rfl⟩
  simp only [credentialSegments, List.map_cons, List.map_nil, List.sum_cons, List.sum_nil,
    utf16Length_append, utf16Length_inBraces, hname]
  omega

theorem filter_options {sets : List Char → Bool}
    (hsets : ∀ key, ADO_ALIASES key = none → sets key = false)
    (entries : List (List Char × List Char)) :
    (entries.filter fun entry => !sets entry.1).filter (fun entry => ADO_ALIASES entry.1 = none) =
      entries.filter fun entry => ADO_ALIASES entry.1 = none := by
  rw [List.filter_filter]
  apply List.filter_congr
  intro entry _
  by_cases halias : ADO_ALIASES entry.1 = none <;> simp [halias, hsets]

theorem fieldsOf_credentials (entries : List (List Char × List Char)) :
    (fieldsOf ((entries.filter fun entry => !setsCredentials entry.1) ++
        [("user id".toList, user), ("password".toList, password)])).parsed =
      { (fieldsOf entries).parsed with user := user, password := password } := by
  have hother : ∀ field, field = .server ∨ field = .database →
      lastValue ADO_ALIASES ((entries.filter fun entry => !setsCredentials entry.1) ++
        [("user id".toList, user), ("password".toList, password)]) field =
      lastValue ADO_ALIASES entries field := by
    intro field hfield
    rw [lastValue_append, lastValue_filter]
    · rcases hfield with rfl | rfl <;> rfl
    · intro entry halias
      rcases hfield with rfl | rfl <;> simp [setsCredentials, halias]
  have hset : ∀ rest, lastValue ADO_ALIASES (rest ++ [("user id".toList, user),
        ("password".toList, password)]) .user = some user ∧
      lastValue ADO_ALIASES (rest ++ [("user id".toList, user),
        ("password".toList, password)]) .password = some password := by
    intro rest
    rw [lastValue_append, lastValue_append]
    exact ⟨rfl, rfl⟩
  have hparams : ((entries.filter fun entry => !setsCredentials entry.1) ++
      [("user id".toList, user), ("password".toList, password)]).filter
        (fun entry => ADO_ALIASES entry.1 = none) = entries.filter fun entry => ADO_ALIASES entry.1 = none := by
    rw [List.filter_append, filter_options fun key hkey => by simp [setsCredentials, hkey]]
    exact List.append_nil _
  simp only [fieldsOf, AdoFields.parsed, hother _ (Or.inl rfl), hother _ (Or.inr rfl), hset, hparams,
    Option.getD_some]

end Credentials

section Retargeting
variable {lc : LowerCase} {urls : UrlLibrary} {value host : List Char} {port : Nat}
  {parsed : ParsedMssqlConnString}

theorem serverSegment_eq (host : List Char) (port : Nat) : serverSegment host port =
    "Server".toList ++ '=' :: (host ++ ',' :: Nat.toDigits 10 port) := by
  unfold serverSegment
  simp

theorem braceRun_serverSegment (host : List Char) (port : Nat) :
    braceRun false (serverSegment host port) = braceRun false host := by
  have hdigits : ∀ c ∈ ',' :: Nat.toDigits 10 port, c ≠ ';' ∧ c ≠ '\x7b' ∧ c ≠ '\x7d' := by
    intro c hc
    rcases List.mem_cons.mp hc with rfl | hc
    · decide
    · refine ⟨?_, ?_, ?_⟩ <;> rintro rfl <;> exact absurd (isDigit_of_mem_toDigits hc) (by decide)
  have hname : braceRun false "Server".toList = some false := by decide
  have hmark : ∀ t, braceRun false ('=' :: t) = braceRun false t := fun t => rfl
  rw [serverSegment_eq, braceRun_append, hname, Option.bind_some, hmark, braceRun_append]
  cases hrun : braceRun false host with
  | none => rfl
  | some braced => exact braceRun_plain hdigits braced

theorem utf16Length_serverSegment (host : List Char) (port : Nat) :
    utf16Length (serverSegment host port) =
      utf16Length host + (Nat.toDigits 10 port).length + 8 := by
  have hdigits : utf16Length (Nat.toDigits 10 port) = (Nat.toDigits 10 port).length := by
    apply utf16Length_eq_length
    intro c hc
    have hdigit := isDigit_iff.mp (isDigit_of_mem_toDigits hc)
    omega
  have hname : utf16Length "Server".toList = 6 := rfl
  have hmarks : utf16Length ['='] = 1 ∧ utf16Length [','] = 1 := ⟨rfl, rfl⟩
  rw [serverSegment_eq, utf16Length_append, utf16Length_cons, utf16Length_append,
    utf16Length_cons ',', hdigits, hname]
  omega

theorem mssqlPortOf_toDigits (hport : 0 < port ∧ port < 65536) :
    mssqlPortOf (some (Nat.toDigits 10 port)) = port := by
  rw [mssqlPortOf, Option.bind_some, integer?_toNumber_toDigits (by omega)]
  simp only [Int.toNat_natCast]
  rw [if_pos (by omega)]

theorem length_of_dropWord {word rest : List Char} (h : dropWord word t = some rest) :
    t.length = word.length + rest.length := by
  unfold dropWord at h
  split_ifs at h with hword
  cases h
  have hlen := congrArg List.length hword
  rw [List.length_map, List.length_take] at hlen
  rw [List.length_drop]
  omega

theorem dropWord_of_withoutProtocol (h : withoutProtocol host = host) :
    ∀ word ∈ ["tcp:".toList, "np:".toList, "lpc:".toList], dropWord word host = none := by
  rw [← List.findSome?_eq_none_iff]
  rw [withoutProtocol] at h
  cases hfind : ["tcp:".toList, "np:".toList, "lpc:".toList].findSome? fun word =>
      dropWord word host with
  | none => rfl
  | some rest =>
    obtain ⟨word, hword, hdrop⟩ := List.exists_of_findSome?_eq_some hfind
    rw [hfind, Option.getD_some] at h
    have hlen := length_of_dropWord hdrop
    have hpos : 0 < word.length := by
      simp only [List.mem_cons, List.not_mem_nil, or_false] at hword
      rcases hword with rfl | rfl | rfl <;> decide
    rw [h] at hlen
    omega

theorem withoutProtocol_append (h : withoutProtocol host = host) (t : List Char) :
    withoutProtocol (host ++ ',' :: t) = host ++ ',' :: t := by
  have hwords := dropWord_of_withoutProtocol h
  have hnone : (["tcp:".toList, "np:".toList, "lpc:".toList].findSome? fun word =>
      dropWord word (host ++ ',' :: t)) = none := by
    rw [List.findSome?_eq_none_iff]
    intro word hword
    have hcomma : ','.toLower ∉ word := by
      simp only [List.mem_cons, List.not_mem_nil, or_false] at hword
      rcases hword with rfl | rfl | rfl <;> decide
    have hdrop := hwords word hword
    rw [dropWord, ite_eq_right_iff] at hdrop ⊢
    intro hstart
    exact absurd (hdrop ((lowered_take_append hcomma host t).mp hstart)) (by simp)
  rw [withoutProtocol, hnone]
  rfl

theorem splitAdoServer_name (hname : ServerName host) (hport : 0 < port ∧ port < 65536) :
    splitAdoServer (host ++ ',' :: Nat.toDigits 10 port) = (host, port) := by
  obtain ⟨-, hcomma, htrim, hprotocol⟩ := hname
  have hparts : (host ++ ',' :: Nat.toDigits 10 port).splitOn ',' =
      [host, Nat.toDigits 10 port] := by
    have hdigits : ',' ∉ Nat.toDigits 10 port := fun h =>
      absurd (isDigit_of_mem_toDigits h) (by decide)
    rw [List.splitOn_append_cons_self_of_not_mem hcomma, List.splitOn_eq_singleton hdigits]
  rw [splitAdoServer, withoutProtocol_append hprotocol, hparts]
  simp only [List.headD_cons, htrim, List.getElem?_cons_succ, List.getElem?_cons_zero,
    mssqlPortOf_toDigits hport]

theorem unwrap_eq_none {first last : Char} (h : ∀ c ∈ t.getLast?, c ≠ last) :
    unwrap first last t = none := by
  cases t with
  | nil => rfl
  | cons c t =>
    rw [unwrap, if_neg]
    rintro ⟨-, hlast, -⟩
    have hmem : last ∈ (c :: t).getLast? := by
      rw [List.getLast?_cons, hlast]
      rfl
    exact h last hmem rfl

theorem adoOf_serverSegment (hname : ServerName host) :
    adoOf lc (serverSegment host port) =
      some ("server".toList, host ++ ',' :: Nat.toDigits 10 port) := by
  obtain ⟨hne, -, htrim, -⟩ := hname
  have hlast : ∀ c ∈ (host ++ ',' :: Nat.toDigits 10 port).getLast?, isDigit c = true := by
    intro c hc
    rw [List.getLast?_append_of_ne_nil _ (by simp),
      List.getLast?_cons_of_ne_nil (toDigits_ne_nil port)] at hc
    exact isDigit_of_mem_toDigits (List.mem_of_mem_getLast? hc)
  have hraw : trim (host ++ ',' :: Nat.toDigits 10 port) = host ++ ',' :: Nat.toDigits 10 port := by
    apply trim_eq_self
    · rw [List.head?_append_of_ne_nil _ hne]
      exact head_of_trim_eq_self htrim
    · intro c hc
      exact isSpace_of_isHexDigit (isHexDigit_of_isDigit (hlast c hc))
  have hunquoted : unquoted (host ++ ',' :: Nat.toDigits 10 port) =
      host ++ ',' :: Nat.toDigits 10 port := by
    rw [unquoted, unwrap_eq_none, unwrap_eq_none]
    · rfl
    all_goals
      rintro c hc rfl
      exact absurd (hlast _ hc) (by decide)
  have hkey : lc.lower (trim "Server".toList) = "server".toList := lc.ascii _ (by decide)
  have hnot : '=' ∉ "Server".toList := by decide
  simp only [adoOf, serverSegment_eq, splitFirst_append_cons hnot, Option.map_some, hraw, hunquoted, hkey]

theorem fieldsOf_server (hname : ServerName host) (hport : 0 < port ∧ port < 65536)
    (entries : List (List Char × List Char)) :
    (fieldsOf (("server".toList, host ++ ',' :: Nat.toDigits 10 port) ::
        entries.filter fun entry => !setsServer entry.1)).parsed =
      { (fieldsOf entries).parsed with host := host, port := port } := by
  rw [← List.singleton_append]
  have hserver : lastValue ADO_ALIASES ([("server".toList, host ++ ',' :: Nat.toDigits 10 port)] ++
      entries.filter fun entry => !setsServer entry.1) .server =
      some (host ++ ',' :: Nat.toDigits 10 port) := by
    rw [lastValue_append, lastValue_filter_eq_none]
    · rfl
    · intro entry halias
      simp [setsServer, halias]
  have hother : ∀ field, field ≠ .server →
      lastValue ADO_ALIASES ([("server".toList, host ++ ',' :: Nat.toDigits 10 port)] ++
        entries.filter fun entry => !setsServer entry.1) field = lastValue ADO_ALIASES entries field := by
    intro field hfield
    rw [lastValue_append, lastValue_filter, lastValue_singleton, if_neg]
    · cases lastValue ADO_ALIASES entries field <;> rfl
    · intro halias
      exact hfield (Option.some.inj halias).symm
    · intro entry halias
      simp [setsServer, halias, hfield]
  have hparams : ([("server".toList, host ++ ',' :: Nat.toDigits 10 port)] ++
      entries.filter fun entry => !setsServer entry.1).filter (fun entry => ADO_ALIASES entry.1 = none) =
      entries.filter fun entry => ADO_ALIASES entry.1 = none := by
    rw [List.filter_append, filter_options fun key hkey => by simp [setsServer, hkey]]
    rfl
  simp only [fieldsOf, AdoFields.parsed, hserver, hother .database (by decide),
    hother .user (by decide), hother .password (by decide), hparams, Option.map_some,
    Option.getD_some, splitAdoServer_name hname hport]

end Retargeting

section Options
variable {lc : LowerCase} {urls : UrlLibrary} {value key : List Char}
  {replacement : Option (List Char)} {parsed : ParsedMssqlConnString}

def ParsedMssqlConnString.withOption (parsed : ParsedMssqlConnString) (key : List Char)
    (replacement : Option (List Char)) : ParsedMssqlConnString :=
  { parsed with params := withEntry parsed.params key replacement }

theorem get_withOption_self (parsed : ParsedMssqlConnString) (key : List Char)
    (replacement : Option (List Char)) : (parsed.withOption key replacement).get key =
      replacement :=
  lookupLast_withEntry_self replacement

theorem get_withOption_of_ne {other : List Char} (h : other ≠ key)
    (parsed : ParsedMssqlConnString) (replacement : Option (List Char)) :
    (parsed.withOption key replacement).get other = parsed.get other :=
  congrArg (Option.map Prod.snd) (lookupLast_withEntry_of_ne h replacement)

theorem fieldsOf_withOption (halias : ADO_ALIASES key = none)
    (entries : List (List Char × List Char)) :
    (fieldsOf ((entries.filter fun entry => !(entry.1 == key)) ++
        (replacement.map fun entry => (key, entry)).toList)).parsed =
      (fieldsOf entries).parsed.withOption key replacement := by
  have hother : ∀ field, lastValue ADO_ALIASES ((entries.filter fun entry => !(entry.1 == key)) ++
      (replacement.map fun entry => (key, entry)).toList) field = lastValue ADO_ALIASES entries field := by
    intro field
    rw [lastValue_append, lastValue_filter]
    · cases replacement with
      | none => rfl
      | some entry => simp [lastValue_singleton, halias]
    · intro entry hentry
      have hne : entry.1 ≠ key := by
        rintro rfl
        rw [halias] at hentry
        cases hentry
      simpa using hne
  have hparams : ((entries.filter fun entry => !(entry.1 == key)) ++
      (replacement.map fun entry => (key, entry)).toList).filter
        (fun entry => ADO_ALIASES entry.1 = none) =
      withEntry (entries.filter fun entry => ADO_ALIASES entry.1 = none) key replacement := by
    have hdrop : (fun entry : List Char × List Char => !(entry.1 == key)) =
        fun entry => decide (entry.1 ≠ key) := by
      funext entry
      by_cases h : entry.1 = key <;> simp [h]
    rw [List.filter_append, List.filter_comm, withEntry, hdrop]
    cases replacement <;> simp [halias]
  simp only [fieldsOf, AdoFields.parsed, ParsedMssqlConnString.withOption, hother, hparams]

def optionSegment (key : List Char) (replacement : Option (List Char)) : List (List Char) :=
  (replacement.map fun entry => key ++ '=' :: entry).toList

def encryptSegments (lc : LowerCase) (value : List Char) (parsed : ParsedMssqlConnString)
    (overrides : TlsOverrides) : List (List Char) :=
  if overrides.insecure then
    keptAdo lc (fun name => name == "encrypt".toList) value ++ ["encrypt=false".toList]
  else if encryptModeOf lc parsed = .off then
    keptAdo lc (fun name => name == "encrypt".toList) value
  else splitAdoSegments value

/-- The segments that stay may be joined again, in the step of each of the two options. -/
def TlsRejoins (lc : LowerCase) (value : List Char) (parsed : ParsedMssqlConnString)
    (overrides : TlsOverrides) : Prop :=
  (overrides.insecure = true ∨ encryptModeOf lc parsed = .off →
    Rejoins (keptAdo lc (fun name => name == "encrypt".toList) value)
      (if overrides.insecure then 14 else 0)) ∧
  Rejoins ((encryptSegments lc value parsed overrides).filter
      (keepsAdo lc fun name => name == "trustservercertificate".toList))
    (if overrides.allowInvalidCertificates then 28 else 0)
  deriving Decidable

/-- The options agree but for those of the transport, which concede no more than was
agreed to. -/
structure TlsAgrees (lc : LowerCase) (overrides : TlsOverrides)
    (parsed parsed' : ParsedMssqlConnString) : Prop where
  fields : { parsed' with params := parsed.params } = parsed
  options : ∀ key, key ≠ "encrypt".toList → key ≠ "trustservercertificate".toList →
    parsed'.get key = parsed.get key
  encrypt : encryptModeOf lc parsed' = .off → overrides.insecure = true
  trust : trustsServerCertificate lc parsed' = true → overrides.allowInvalidCertificates = true

theorem adoEntries_option {entry : List Char} (hmark : '=' ∉ key)
    (hascii : ∀ c ∈ trim key, c.toNat < 128) (hkey : (trim key).map Char.toLower = key)
    (hentry : unquoted (trim entry) = entry) :
    adoEntries lc (optionSegment key (some entry)) = [(key, entry)] := by
  have hado : adoOf lc (key ++ '=' :: entry) = some (key, entry) := by
    simp only [adoOf, splitFirst_append_cons hmark, Option.map_some, hentry, lc.ascii _ hascii, hkey]
  rw [optionSegment, Option.map_some, Option.toList_some, adoEntries,
    List.filterMap_cons_some hado, List.filterMap_nil]

end Options

section Rewrites
variable {lc : LowerCase} {urls : UrlLibrary} {value : List Char} {parsed : ParsedMssqlConnString}
  (hurls : urls.SchemeFirst) (hparsed : parseMssqlConnString lc urls value = .ok (some parsed))
  (hform : parsed.form = .ado)
include hurls hparsed hform

theorem parse_withMssqlCredentials {user password : List Char}
    (hkept : Rejoins (keptAdo lc setsCredentials value)
      (utf16Length user + utf16Length password + 23))
    (huser : Braceable user) (hpassword : Braceable password) :
    ∃ result, withMssqlCredentials lc urls value user password = .ok result ∧
      parseMssqlConnString lc urls result =
        .ok (some { parsed with user := user, password := password }) := by
  refine ⟨_, rewriteMssql_ado hparsed hform _ _, ?_⟩
  obtain ⟨hfields, hhost⟩ := fields_of_parse hparsed hform
  have hnonblank : ∀ s ∈ keptAdo lc setsCredentials value ++ credentialSegments user password,
      trim s ≠ [] := by
    intro s hs
    rcases List.mem_append.mp hs with hs | hs
    · exact nonblank_of_keeps (List.mem_filter.mp hs).2
    · have hmem : '=' ∈ s := by
        rw [credentialSegments_eq] at hs
        rcases List.mem_pair.mp hs with rfl | rfl <;> simp
      exact trim_ne_nil hmem (by decide)
  dsimp only
  rw [filter_nonblank hnonblank]
  apply parse_rejoined hurls (separate_splitAdoSegments value)
  · rw [utf16Length_credentials]
    exact hkept
  · exact closed_credentials huser hpassword
  · rw [adoEntries_credentials huser hpassword, fieldsOf_credentials, hfields]
  · exact hhost

theorem parse_retargetMssqlConnString {host : List Char} {port : Nat}
    (hserver : ServerFits lc value host port) :
    ∃ result, retargetMssqlConnString lc urls value host port = .ok result ∧
      parseMssqlConnString lc urls result =
        .ok (some { parsed with host := host, port := port }) := by
  refine ⟨_, rewriteMssql_ado hparsed hform _ _, ?_⟩
  obtain ⟨hname, hport, hwhole, hclosed, hfits⟩ := hserver
  obtain ⟨hfields, -⟩ := fields_of_parse hparsed hform
  have hkeeps : ∀ s ∈ keptAdo lc setsServer value, trim s ≠ [] := fun s hs =>
    nonblank_of_keeps (List.mem_filter.mp hs).2
  dsimp only
  rw [filter_nonblank hkeeps]
  apply parse_joinAdo hurls
  · by_cases hnil : keptAdo lc setsServer value = []
    · rw [hnil]
      refine ⟨[], _, rfl, by simp, ?_⟩
      rw [Whole, braceRun_serverSegment]
      exact hwhole
    · have hhost := hclosed.resolve_right hnil
      apply Separate.cons
      · rw [Closed, braceRun_serverSegment]
        exact hhost
      · exact (separate_splitAdoSegments value).filter hnil
  · refine ⟨_, List.mem_cons_self, ?_⟩
    rw [serverSegment_eq]
    have hkey : mentionsServer true ("Server".toList ++ ['=']) = true := by decide
    rw [← List.singleton_append, ← List.append_assoc]
    exact mentionsServer_append hkey _
  · rw [List.head?_cons, Option.any_some, serverSegment_eq, Bool.eq_false_iff]
    intro hstart
    exact absurd (startsAsUrl_of_append (Or.inr rfl) hstart) (by decide)
  · have hlen := utf16Length_joinAdo (List.cons_ne_nil (serverSegment host port)
      (keptAdo lc setsServer value))
    rw [List.map_cons, List.sum_cons, utf16Length_serverSegment] at hlen
    omega
  · have hentries : adoEntries lc (serverSegment host port :: keptAdo lc setsServer value) =
        ("server".toList, host ++ ',' :: Nat.toDigits 10 port) ::
          (adoEntries lc (splitAdoSegments value)).filter fun entry => !setsServer entry.1 := by
      rw [← adoEntries_filter, adoEntries,
        List.filterMap_cons_some (adoOf_serverSegment hname)]
      rfl
    rw [hentries, fieldsOf_server hname hport, hfields]
  · exact hname.1

theorem parse_withParam (key : List Char) (replacement : Option (List Char)) {extra : Nat}
    (halias : ADO_ALIASES key = none)
    (hentries : adoEntries lc (optionSegment key replacement) =
      (replacement.map fun entry => (key, entry)).toList)
    (hclosed : ∀ s ∈ optionSegment key replacement, Closed s)
    (hextra : ((optionSegment key replacement).map fun s => utf16Length s + 1).sum = extra)
    (hkept : Rejoins (keptAdo lc (fun name => name == key) value) extra) :
    ∃ result, withParam lc urls value key replacement = .ok result ∧
      splitAdoSegments result = keptAdo lc (fun name => name == key) value ++
        optionSegment key replacement ∧
      parseMssqlConnString lc urls result = .ok (some (parsed.withOption key replacement)) := by
  obtain ⟨hfields, hhost⟩ := fields_of_parse hparsed hform
  rw [← hextra] at hkept
  have hseparate := separate_rejoined (separate_splitAdoSegments value) hkept hclosed
  have hresult : withParam lc urls value key replacement =
      .ok (joinAdo (keptAdo lc (fun name => name == key) value ++ optionSegment key replacement)) := by
    rw [withParam, rewriteMssql_ado hparsed hform]
    cases replacement with
    | none => simp [optionSegment]
    | some entry =>
      obtain ⟨-, -, ⟨server, hserver, -⟩, -⟩ := hkept
      have hjoin := joinAdo_append_singleton (List.ne_nil_of_mem hserver) (key ++ '=' :: entry)
      simp only [optionSegment, Option.map_some, Option.toList_some, hjoin]
      simp
  refine ⟨_, hresult, hseparate.split, ?_⟩
  apply parse_rejoined hurls (separate_splitAdoSegments value) hkept hclosed
  · rw [hentries, fieldsOf_withOption halias, hfields]
  · exact hhost

theorem parse_encrypt (overrides : TlsOverrides)
    (hkept : overrides.insecure = true ∨ encryptModeOf lc parsed = .off →
      Rejoins (keptAdo lc (fun name => name == "encrypt".toList) value)
        (if overrides.insecure then 14 else 0)) :
    ∃ result parsed', withEncrypt lc urls value parsed overrides = .ok result ∧
      splitAdoSegments result = encryptSegments lc value parsed overrides ∧
      parseMssqlConnString lc urls result = .ok (some parsed') ∧
      { parsed' with params := parsed.params } = parsed ∧
      (∀ key, key ≠ "encrypt".toList → parsed'.get key = parsed.get key) ∧
      (encryptModeOf lc parsed' = .off → overrides.insecure = true) := by
  rw [encryptSegments, withEncrypt]
  by_cases hinsecure : overrides.insecure = true
  · rw [if_pos hinsecure, if_pos hinsecure]
    have hrejoins := hkept (Or.inl hinsecure)
    rw [if_pos hinsecure] at hrejoins
    obtain ⟨result, hresult, hsplit, hparse⟩ := parse_withParam hurls hparsed hform
      "encrypt".toList (some "false".toList) rfl
      (adoEntries_option (by decide) (by decide) (by decide) (by decide)) (by decide) rfl hrejoins
    exact ⟨result, _, hresult, hsplit, hparse, rfl, fun other hother =>
      get_withOption_of_ne hother parsed _, fun _ => hinsecure⟩
  · rw [if_neg hinsecure, if_neg hinsecure]
    by_cases hoff : encryptModeOf lc parsed = .off
    · rw [if_pos hoff, if_pos hoff]
      have hrejoins := hkept (Or.inr hoff)
      rw [if_neg hinsecure] at hrejoins
      obtain ⟨result, hresult, hsplit, hparse⟩ := parse_withParam hurls hparsed hform
        "encrypt".toList none rfl rfl (by simp [optionSegment]) rfl hrejoins
      refine ⟨result, _, hresult, ?_, hparse, rfl, fun other hother =>
        get_withOption_of_ne hother parsed _, ?_⟩
      · simpa [optionSegment] using hsplit
      · rw [encryptModeOf, get_withOption_self]
        intro hcontra
        cases hcontra
    · rw [if_neg hoff, if_neg hoff]
      exact ⟨value, parsed, rfl, rfl, hparsed, rfl, fun _ _ => rfl, fun h => absurd h hoff⟩

theorem parse_applyMssqlTlsOverrides (overrides : TlsOverrides) (hkept : TlsRejoins lc value parsed overrides) :
    ∃ result parsed', applyMssqlTlsOverrides lc urls value overrides = .ok result ∧
      parseMssqlConnString lc urls result = .ok (some parsed') ∧
      TlsAgrees lc overrides parsed parsed' := by
  obtain ⟨first, encrypted, hfirst, hsplit, hencrypted, hfields, hoptions, hencrypt⟩ :=
    parse_encrypt hurls hparsed hform overrides hkept.1
  have hform' : encrypted.form = .ado := by
    rw [← hform, ← hfields]
  have hrejoins := hkept.2
  rw [← hsplit] at hrejoins
  have happly : applyMssqlTlsOverrides lc urls value overrides =
      withParam lc urls first "trustservercertificate".toList
        (if overrides.allowInvalidCertificates then some "true".toList else none) := by
    rw [applyMssqlTlsOverrides, hparsed]
    simp only [bind, Except.bind, hfirst]
  have hagrees : ∀ replacement, (replacement ≠ none → overrides.allowInvalidCertificates = true) →
      TlsAgrees lc overrides parsed
        (encrypted.withOption "trustservercertificate".toList replacement) := by
    intro replacement hreplacement
    refine ⟨hfields, ?_, ?_, ?_⟩
    · intro key hencryptKey htrustKey
      rw [get_withOption_of_ne htrustKey, hoptions key hencryptKey]
    · rw [encryptModeOf, get_withOption_of_ne (by decide)]
      exact hencrypt
    · rw [trustsServerCertificate, get_withOption_self]
      intro htrusts
      apply hreplacement
      rintro rfl
      cases htrusts
  rw [happly]
  by_cases hallow : overrides.allowInvalidCertificates = true
  · rw [if_pos hallow] at hrejoins ⊢
    obtain ⟨result, hresult, -, hparse⟩ := parse_withParam hurls hencrypted hform'
      "trustservercertificate".toList (some "true".toList) rfl
      (adoEntries_option (by decide) (by decide) (by decide) (by decide)) (by decide) rfl hrejoins
    exact ⟨result, _, hresult, hparse, hagrees _ fun _ => hallow⟩
  · rw [if_neg hallow] at hrejoins ⊢
    obtain ⟨result, hresult, -, hparse⟩ := parse_withParam hurls hencrypted hform'
      "trustservercertificate".toList none rfl rfl (by simp [optionSegment]) rfl hrejoins
    exact ⟨result, _, hresult, hparse, hagrees _ fun h => absurd rfl h⟩

end Rewrites

/-- Each rewrite of a string of segments gives a string that says the new values and
otherwise what was said before, as long as the parts that are joined stay apart. -/
theorem ado_rewrites_agree (lc : LowerCase) (urls : UrlLibrary) (hurls : urls.SchemeFirst)
    (value : List Char) (parsed : ParsedMssqlConnString)
    (hparsed : parseMssqlConnString lc urls value = .ok (some parsed))
    (hform : parsed.form = .ado) :
    (∀ user password, Rejoins (keptAdo lc setsCredentials value)
        (utf16Length user + utf16Length password + 23) → Braceable user → Braceable password →
      ∃ result, withMssqlCredentials lc urls value user password = .ok result ∧
        parseMssqlConnString lc urls result =
          .ok (some { parsed with user := user, password := password })) ∧
    (∀ host port, ServerFits lc value host port →
      ∃ result, retargetMssqlConnString lc urls value host port = .ok result ∧
        parseMssqlConnString lc urls result =
          .ok (some { parsed with host := host, port := port })) ∧
    (∀ overrides, TlsRejoins lc value parsed overrides →
      ∃ result parsed', applyMssqlTlsOverrides lc urls value overrides = .ok result ∧
        parseMssqlConnString lc urls result = .ok (some parsed') ∧
        TlsAgrees lc overrides parsed parsed') := by
  refine ⟨?_, ?_, ?_⟩
  · intro user password hkept huser hpassword
    exact parse_withMssqlCredentials hurls hparsed hform hkept huser hpassword
  · intro host port hserver
    exact parse_retargetMssqlConnString hurls hparsed hform hserver
  · intro overrides hkept
    exact parse_applyMssqlTlsOverrides hurls hparsed hform overrides hkept

theorem ado_rewrites_agree_braced :
    let value := "Server=h,1433;Database=db;User Id=sa;Password=\x7ba;b\x7d;Encrypt=false".toList
    let parsed : ParsedMssqlConnString := ⟨.ado, "h".toList, 1433, "db".toList, "sa".toList,
      "a;b".toList, [("encrypt".toList, "false".toList)]⟩
    (∃ result, withMssqlCredentials asciiLower noUrls value "u;1".toList "p=".toList = .ok result ∧
      parseMssqlConnString asciiLower noUrls result =
        .ok (some { parsed with user := "u;1".toList, password := "p=".toList })) ∧
    (∃ result, retargetMssqlConnString asciiLower noUrls value "::1".toList 1444 = .ok result ∧
      parseMssqlConnString asciiLower noUrls result =
        .ok (some { parsed with host := "::1".toList, port := 1444 })) ∧
    (∃ result parsed', applyMssqlTlsOverrides asciiLower noUrls value ⟨true, false, false⟩ =
        .ok result ∧
      parseMssqlConnString asciiLower noUrls result = .ok (some parsed') ∧
      TlsAgrees asciiLower ⟨true, false, false⟩ parsed parsed') := by
  intro value parsed
  have hurls : noUrls.SchemeFirst := fun t url h => by cases h
  have h := ado_rewrites_agree asciiLower noUrls hurls value parsed (by decide +kernel) rfl
  exact ⟨h.1 _ _ (by decide) (by decide) (by decide),
    h.2.1 _ _ (by decide), h.2.2 _ (by decide)⟩

/-- An open brace takes in the new user; a password with a closing brace points the string
at another server; and an open brace takes in an option of the transport. -/
theorem ado_rewrites_disagree :
    (∃ result, withMssqlCredentials asciiLower noUrls "Server=h;App=\x7bx".toList "u".toList
        "p".toList = .ok result ∧
      parseMssqlConnString asciiLower noUrls "Server=h;App=\x7bx".toList =
        .ok (some ⟨.ado, "h".toList, 1433, [], [], [], [("app".toList, "\x7bx".toList)]⟩) ∧
      parseMssqlConnString asciiLower noUrls result = .ok (some ⟨.ado, "h".toList, 1433, [], [],
        "p".toList, [("app".toList, "x;User Id=\x7bu".toList)]⟩)) ∧
    (∃ result, withMssqlCredentials asciiLower noUrls "Server=h".toList "u".toList
        "x\x7d;Server=evil;y=\x7b".toList = .ok result ∧
      parseMssqlConnString asciiLower noUrls result = .ok (some ⟨.ado, "evil".toList, 1433, [],
        "u".toList, "x".toList, [("y".toList, [])]⟩)) ∧
    (∃ result, applyMssqlTlsOverrides asciiLower noUrls "Server=h;App=\x7bx".toList
        ⟨true, false, false⟩ = .ok result ∧
      parseMssqlConnString asciiLower noUrls result = .ok (some ⟨.ado, "h".toList, 1433, [], [], [],
        [("app".toList, "\x7bx;trustservercertificate=true".toList)]⟩)) := by
  refine ⟨⟨_, rfl, ?_, ?_⟩, ⟨_, rfl, ?_⟩, ⟨_, rfl, ?_⟩⟩
  all_goals decide

end Indexterity
