import Indexterity.MssqlConnString

/-!
# Segments between semicolons, split and joined

The scanner of the segments remembers whether it is inside braces. A segment behind which
a brace is still open takes in what is joined to it; all others come back from the joined
text as they were. The fields of a string are what the last entry of each key says.
-/

namespace Indexterity

open Library

variable {scan : AdoScan} {segment : List Char}

section
/-- The state of the braces behind a text, `none` if a semicolon ends a segment in it. -/
def braceRun : Bool → List Char → Option Bool
  | braced, [] => some braced
  | braced, c :: t =>
    if c = ';' ∧ braced = false then none
    else braceRun (if c = '\x7b' then true else if c = '\x7d' then false else braced) t

def Closed (segment : List Char) : Prop :=
  braceRun false segment = some false
  deriving Decidable

def Whole (segment : List Char) : Prop :=
  braceRun false segment ≠ none

theorem Closed.whole (h : Closed segment) : Whole segment := by
  rw [Whole, h]
  exact Option.some_ne_none _

variable {t : List Char} {segments : List (List Char)}

section Scanning

theorem braceRun_append (braced : Bool) (s t : List Char) :
    braceRun braced (s ++ t) = (braceRun braced s).bind fun braced => braceRun braced t := by
  induction s generalizing braced with
  | nil => rfl
  | cons c s ih =>
    rw [List.cons_append, braceRun, braceRun]
    split_ifs
    · rfl
    all_goals exact ih _

theorem braceRun_plain (h : ∀ c ∈ t, c ≠ ';' ∧ c ≠ '\x7b' ∧ c ≠ '\x7d')
    (braced : Bool) : braceRun braced t = some braced := by
  induction t with
  | nil => rfl
  | cons c t ih =>
    obtain ⟨hend, hopen, hclose⟩ := h c List.mem_cons_self
    rw [braceRun, if_neg (fun hc => hend hc.1), if_neg hopen, if_neg hclose]
    exact ih fun c hc => h c (List.mem_cons_of_mem _ hc)

theorem foldl_step_of_run {braced : Bool} (h : braceRun scan.braced t = some braced) :
    t.foldl AdoScan.step scan = { scan with current := scan.current ++ t, braced := braced } := by
  induction t generalizing scan with
  | nil =>
    cases h
    simp
  | cons c t ih =>
    rw [braceRun] at h
    by_cases hend : c = ';' ∧ scan.braced = false
    · rw [if_pos hend] at h
      cases h
    · rw [if_neg hend] at h
      rw [List.foldl_cons, AdoScan.step, if_neg hend, ih h]
      simp

theorem foldl_step_closed {init : List (List Char)} (h : ∀ s ∈ init, Closed s)
    (segments : List (List Char)) :
    (init.flatMap fun s => s ++ [';']).foldl AdoScan.step ⟨segments, [], false⟩ =
      ⟨segments ++ init, [], false⟩ := by
  induction init generalizing segments with
  | nil => simp
  | cons s init ih =>
    have hs : braceRun false s = some false := h s List.mem_cons_self
    have hread : s.foldl AdoScan.step ⟨segments, [], false⟩ = ⟨segments, s, false⟩ :=
      foldl_step_of_run hs
    rw [List.flatMap_cons, List.foldl_append, List.foldl_append, hread, List.foldl_cons,
      List.foldl_nil, AdoScan.step, if_pos ⟨rfl, rfl⟩]
    rw [ih fun s hs => h s (List.mem_cons_of_mem _ hs)]
    simp

theorem joinAdo_cons_cons (s next : List Char) (segments : List (List Char)) :
    joinAdo (s :: next :: segments) = s ++ ';' :: joinAdo (next :: segments) := by
  simp [joinAdo]

theorem joinAdo_concat (init : List (List Char)) (last : List Char) :
    joinAdo (init ++ [last]) = (init.flatMap fun s => s ++ [';']) ++ last := by
  induction init with
  | nil => simp [joinAdo]
  | cons s init ih =>
    have hcons : joinAdo (s :: (init ++ [last])) = s ++ ';' :: joinAdo (init ++ [last]) := by
      cases init with
      | nil => exact joinAdo_cons_cons s last []
      | cons next init => exact joinAdo_cons_cons s next (init ++ [last])
    rw [List.cons_append, hcons, ih]
    simp

theorem joinAdo_append_singleton (hne : segments ≠ [])
    (s : List Char) : joinAdo (segments ++ [s]) = joinAdo segments ++ ';' :: s := by
  obtain ⟨init, last, rfl⟩ : ∃ init last, segments = init ++ [last] :=
    ⟨_, _, (List.dropLast_append_getLast hne).symm⟩
  rw [joinAdo_concat (init ++ [last]), joinAdo_concat]
  simp

/-- A list of segments that can be told apart when they are joined: all but the last are
closed. -/
def Separate (segments : List (List Char)) : Prop :=
  ∃ init last, segments = init ++ [last] ∧ (∀ s ∈ init, Closed s) ∧ Whole last

theorem Separate.split (h : Separate segments) :
    splitAdoSegments (joinAdo segments) = segments := by
  obtain ⟨init, last, rfl, hinit, hlast⟩ := h
  obtain ⟨braced, hbraced⟩ := Option.ne_none_iff_exists'.mp hlast
  rw [splitAdoSegments, joinAdo_concat, List.foldl_append, foldl_step_closed hinit,
    foldl_step_of_run hbraced]
  simp

theorem separate_of_closed (hne : segments ≠ [])
    (h : ∀ s ∈ segments, Closed s) : Separate segments := by
  refine ⟨_, _, (List.dropLast_append_getLast hne).symm, ?_, (h _ (List.getLast_mem hne)).whole⟩
  exact fun s hs => h s (List.dropLast_subset _ hs)

theorem Separate.filter (h : Separate segments) {keeps : List Char → Bool}
    (hne : segments.filter keeps ≠ []) : Separate (segments.filter keeps) := by
  obtain ⟨init, last, rfl, hinit, hlast⟩ := h
  have hkept : ∀ s ∈ init.filter keeps, Closed s := fun s hs => hinit s (List.mem_filter.mp hs).1
  rw [List.filter_append] at hne ⊢
  cases hkeeps : keeps last with
  | true =>
    rw [List.filter_cons_of_pos hkeeps, List.filter_nil]
    exact ⟨_, _, rfl, hkept, hlast⟩
  | false =>
    rw [List.filter_cons_of_neg (by simp [hkeeps]), List.filter_nil, List.append_nil] at hne ⊢
    exact separate_of_closed hne hkept

theorem Separate.cons {s : List Char} (hs : Closed s)
    (h : Separate segments) : Separate (s :: segments) := by
  obtain ⟨init, last, rfl, hinit, hlast⟩ := h
  exact ⟨s :: init, last, rfl, List.forall_mem_cons.mpr ⟨hs, hinit⟩, hlast⟩

/-- What the scanner has read: closed segments, and the open one. -/
structure AdoScan.Reads (scan : AdoScan) (t : List Char) : Prop where
  closed : ∀ s ∈ scan.segments, Closed s
  current : braceRun false scan.current = some scan.braced
  text : joinAdo (scan.segments ++ [scan.current]) = t

theorem AdoScan.Reads.step (h : scan.Reads t) (c : Char) : (scan.step c).Reads (t ++ [c]) := by
  obtain ⟨hclosed, hcurrent, rfl⟩ := h
  rw [AdoScan.step]
  by_cases hend : c = ';' ∧ scan.braced = false
  · rw [if_pos hend]
    refine ⟨?_, congrArg some hend.2.symm, ?_⟩
    · intro s hs
      rcases List.mem_append.mp hs with hs | hs
      · exact hclosed s hs
      · rw [List.mem_singleton.mp hs, Closed, hcurrent, hend.2]
    · rw [joinAdo_concat, joinAdo_concat, hend.1]
      simp
  · rw [if_neg hend]
    refine ⟨hclosed, ?_, ?_⟩
    · rw [braceRun_append, hcurrent, Option.bind_some, braceRun, if_neg hend]
      rfl
    · rw [joinAdo_concat, joinAdo_concat]
      simp

theorem reads_foldl (t : List Char) : (t.foldl AdoScan.step {}).Reads t := by
  induction t using List.reverseRecOn with
  | nil => exact ⟨by simp, rfl, rfl⟩
  | append_singleton t c ih =>
    rw [List.foldl_append]
    exact ih.step c

theorem separate_splitAdoSegments (value : List Char) : Separate (splitAdoSegments value) := by
  obtain ⟨hclosed, hcurrent, -⟩ := reads_foldl value
  exact ⟨_, _, rfl, hclosed, by simp [Whole, hcurrent]⟩

end Scanning

section Lengths

theorem utf16Length_joinAdo (hne : segments ≠ []) :
    utf16Length (joinAdo segments) + 1 = (segments.map fun s => utf16Length s + 1).sum := by
  obtain ⟨init, last, rfl⟩ : ∃ init last, segments = init ++ [last] :=
    ⟨_, _, (List.dropLast_append_getLast hne).symm⟩
  rw [joinAdo_concat, utf16Length_append]
  induction init with
  | nil => simp [utf16Length]
  | cons s init ih =>
    have hstep := ih (by simp)
    simp only [List.flatMap_cons, utf16Length_append, List.cons_append, List.map_cons,
      List.sum_cons] at hstep ⊢
    have hmark : utf16Length [';'] = 1 := rfl
    omega

theorem utf16Length_joinAdo_append (hne : segments ≠ [])
    (new : List (List Char)) : utf16Length (joinAdo (segments ++ new)) =
      utf16Length (joinAdo segments) + (new.map fun s => utf16Length s + 1).sum := by
  have hall : utf16Length (joinAdo (segments ++ new)) + 1 = _ := utf16Length_joinAdo (by simp [hne])
  have hfirst := utf16Length_joinAdo hne
  rw [List.map_append, List.sum_append] at hall
  omega

end Lengths

variable {c : Char}

section Mentioning

theorem dropWord_append {word rest : List Char} (h : dropWord word t = some rest)
    (z : List Char) : dropWord word (t ++ z) = some (rest ++ z) := by
  unfold dropWord at h ⊢
  by_cases hword : (t.take word.length).map Char.toLower = word
  · rw [if_pos hword] at h
    have hlen := congrArg List.length hword
    rw [List.length_map, List.length_take] at hlen
    have hle : word.length ≤ t.length := by omega
    rw [List.take_append_of_le_length hle, if_pos hword, List.drop_append_of_le_length hle]
    cases h
    rfl
  · rw [if_neg hword] at h
    cases h

theorem head_dropWhile_append {z : List Char} (h : (t.dropWhile isSpace).head? = some c) :
    ((t ++ z).dropWhile isSpace).head? = some c := by
  rw [List.dropWhile_append]
  cases hdrop : t.dropWhile isSpace with
  | nil => simp [hdrop] at h
  | cons x rest => simpa [hdrop] using h

theorem isServerKey_append (h : isServerKey t = true) (z : List Char) :
    isServerKey (t ++ z) = true := by
  rw [isServerKey, List.any_eq_true] at h ⊢
  obtain ⟨word, hword, hkey⟩ := h
  refine ⟨word, hword, ?_⟩
  have hne : word ≠ [] := by
    rintro rfl
    exact absurd hword (by decide)
  cases hdrop : dropWord word (t.dropWhile isSpace) with
  | none => simp [hdrop] at hkey
  | some rest =>
    have htext : (t.dropWhile isSpace).isEmpty = false := by
      cases htext : t.dropWhile isSpace with
      | nil =>
        rw [htext] at hdrop
        simp [dropWord, Ne.symm hne] at hdrop
      | cons c t => rfl
    rw [List.dropWhile_append, htext]
    simp only [hdrop, beq_iff_eq] at hkey
    simp only [Bool.false_eq_true, if_false, dropWord_append hdrop, beq_iff_eq]
    exact head_dropWhile_append hkey

theorem mentionsServer_append {atStart : Bool} (h : mentionsServer atStart t = true)
    (z : List Char) : mentionsServer atStart (t ++ z) = true := by
  induction t generalizing atStart with
  | nil =>
    simp only [mentionsServer, Bool.and_eq_true] at h
    exact absurd h.2 (by decide)
  | cons c t ih =>
    simp only [mentionsServer, List.cons_append, Bool.or_eq_true, Bool.and_eq_true] at h ⊢
    rcases h with ⟨hstart, hkey⟩ | hrest
    · left
      exact ⟨hstart, isServerKey_append hkey z⟩
    · exact Or.inr (ih hrest)

theorem mentionsServer_behind (h : mentionsServer true t = true) (a : List Char)
    (atStart : Bool) : mentionsServer atStart (a ++ ';' :: t) = true := by
  induction a generalizing atStart with
  | nil => simp [mentionsServer, h]
  | cons c a ih => simp [mentionsServer, ih]

theorem mentionsServer_joinAdo (h : ∃ s ∈ segments, mentionsServer true s = true) :
    mentionsServer true (joinAdo segments) = true := by
  induction segments with
  | nil => simp at h
  | cons first segments ih =>
    simp only [List.mem_cons, exists_eq_or_imp] at h
    cases segments with
    | nil => simpa [joinAdo] using h
    | cons next segments =>
      rcases h with hfirst | hrest
      · exact mentionsServer_append hfirst _
      · exact mentionsServer_behind (ih hrest) first true

end Mentioning

section Schemes

/-- A text as the reader of a URL sees it: leading blanks and controls, tabs and line ends
are dropped. -/
def schemeText (t : List Char) : List Char :=
  (t.dropWhile fun c => c.toNat ≤ 32).filter fun c => c.toNat ≠ 9 ∧ c.toNat ≠ 10 ∧ c.toNat ≠ 13

def startsAsUrl (t : List Char) : Bool :=
  ["mssql:".toList, "sqlserver:".toList].any fun word =>
    ((schemeText t).take word.length).map Char.toLower == word

/-- What is assumed of the library of URLs: a URL has the protocol its text starts with. -/
def UrlLibrary.SchemeFirst (urls : UrlLibrary) : Prop :=
  ∀ t url, urls.parse t = some url → isMssqlProtocol url.protocol = true → startsAsUrl t = true

theorem schemeText_append (hc : 32 < c.toNat) (a t : List Char) :
    ∃ rest, schemeText (a ++ c :: t) = schemeText a ++ c :: rest := by
  refine ⟨t.filter fun c => c.toNat ≠ 9 ∧ c.toNat ≠ 10 ∧ c.toNat ≠ 13, ?_⟩
  have hdrop : (a ++ c :: t).dropWhile (fun c => decide (c.toNat ≤ 32)) =
      a.dropWhile (fun c => decide (c.toNat ≤ 32)) ++ c :: t := by
    induction a with
    | nil => simp [Nat.not_le.mpr hc]
    | cons x a ih =>
      by_cases hx : x.toNat ≤ 32
      · simpa [hx] using ih
      · simp [hx]
  rw [schemeText, hdrop, List.filter_append, List.filter_cons_of_pos (by simp; omega)]
  rfl

theorem startsAsUrl_of_append {a : List Char} (hc : c = ';' ∨ c = '=')
    (h : startsAsUrl (a ++ c :: t) = true) : startsAsUrl a = true := by
  obtain ⟨rest, hrest⟩ : ∃ rest, schemeText (a ++ c :: t) = schemeText a ++ c :: rest :=
    schemeText_append (by rcases hc with rfl | rfl <;> decide) a t
  rw [startsAsUrl, List.any_eq_true] at h ⊢
  obtain ⟨word, hword, hstart⟩ := h
  refine ⟨word, hword, ?_⟩
  have hnot : c.toLower ∉ word := by
    rcases hc with rfl | rfl <;> rcases List.mem_pair.mp hword with rfl | rfl <;> decide
  rw [beq_iff_eq, hrest, lowered_take_append hnot] at hstart
  rw [beq_iff_eq]
  exact hstart

theorem startsAsUrl_joinAdo {first : List Char}
    (h : startsAsUrl first = false) : startsAsUrl (joinAdo (first :: segments)) = false := by
  cases segments with
  | nil => simpa [joinAdo] using h
  | cons next segments =>
    rw [joinAdo_cons_cons, Bool.eq_false_iff]
    intro hstart
    rw [startsAsUrl_of_append (Or.inl rfl) hstart] at h
    cases h

theorem urlOf_eq_none {urls : UrlLibrary} (hurls : urls.SchemeFirst) {value : List Char}
    (h : startsAsUrl value = false) : urlOf urls value = none := by
  rw [urlOf]
  cases hparse : urls.parse value with
  | none => rfl
  | some url =>
    by_cases hprotocol : isMssqlProtocol url.protocol = true
    · rw [hurls value url hparse hprotocol] at h
      cases h
    · simp [hprotocol]

end Schemes

end

/-!
## Entries of a string of SQL Server

A segment with a key is an entry. The fields of a string are what its entries say, the last
of each field; and dropping segments by their keys is dropping entries.
-/

section Fields
variable (lc : LowerCase)

def adoEntries (segments : List (List Char)) : List (List Char × List Char) :=
  segments.filterMap (adoOf lc)

def fieldsOf (entries : List (List Char × List Char)) : AdoFields where
  host := ((lastValue ADO_ALIASES entries .server).map fun value => (splitAdoServer value).1).getD []
  port := ((lastValue ADO_ALIASES entries .server).map fun value => (splitAdoServer value).2).getD
    DEFAULT_MSSQL_PORT
  database := (lastValue ADO_ALIASES entries .database).getD []
  user := (lastValue ADO_ALIASES entries .user).getD []
  password := (lastValue ADO_ALIASES entries .password).getD []
  params := entries.filter fun entry => ADO_ALIASES entry.1 = none

def AdoFields.parsed (fields : AdoFields) : ParsedMssqlConnString :=
  ⟨.ado, fields.host, fields.port, fields.database, fields.user, fields.password, fields.params⟩

theorem foldl_read (segments : List (List Char)) :
    segments.foldl (AdoFields.read lc) {} = fieldsOf (adoEntries lc segments) := by
  induction segments using List.reverseRecOn with
  | nil => rfl
  | append_singleton segments segment ih =>
    rw [List.foldl_append, ih, adoEntries, adoEntries, List.filterMap_append]
    generalize segments.filterMap (adoOf lc) = entries
    simp only [List.foldl_cons, List.foldl_nil, AdoFields.read]
    cases hentry : adoOf lc segment with
    | none => simp [hentry]
    | some entry =>
      obtain ⟨key, value⟩ := entry
      simp only [List.filterMap_cons_some hentry, List.filterMap_nil, fieldsOf, lastValue_append,
        lastValue_singleton, List.filter_append]
      obtain ⟨field, halias⟩ : ∃ field, ADO_ALIASES key = field := ⟨_, rfl⟩
      cases field with
      | none => simp [halias]
      | some field => cases field <;> simp [halias]

theorem parseAdo_eq_some_iff {value : List Char} {parsed : ParsedMssqlConnString} :
    parseAdo lc value = some parsed ↔ mentionsServer true value = true ∧
      (fieldsOf (adoEntries lc (splitAdoSegments value))).parsed = parsed ∧ parsed.host ≠ [] := by
  rw [parseAdo]
  by_cases hmention : mentionsServer true value = true
  · rw [if_neg (by simp [hmention]), foldl_read]
    generalize fieldsOf (adoEntries lc (splitAdoSegments value)) = fields
    by_cases hhost : fields.host = []
    · simp only [hhost, List.length_nil, if_true, hmention, true_and]
      constructor
      · intro h
        cases h
      · rintro ⟨rfl, hne⟩
        exact absurd hhost hne
    · rw [if_neg (by simpa using hhost)]
      simp only [Option.some.injEq, hmention, true_and]
      constructor
      · rintro rfl
        exact ⟨rfl, hhost⟩
      · rintro ⟨rfl, -⟩
        rfl
  · simp [hmention]

variable {lc} {urls : UrlLibrary} {value : List Char} {parsed : ParsedMssqlConnString}

theorem form_of_parseUrl (h : parseUrl lc urls value = .ok (some parsed)) : parsed.form = .url := by
  rw [parseUrl] at h
  cases hurl : urlOf urls value with
  | none => simp [hurl] at h
  | some url =>
    simp only [hurl, bind_eq_ok_iff] at h
    obtain ⟨host, -, database, -, user, -, password, -, h⟩ := h
    cases h
    rfl

theorem parseUrl_eq_none_iff : parseUrl lc urls value = .ok none ↔ urlOf urls value = none := by
  rw [parseUrl]
  cases hurl : urlOf urls value with
  | none => simp
  | some url =>
    simp only [bind_eq_ok_iff, reduceCtorEq, iff_false]
    rintro ⟨host, -, database, -, user, -, password, -, h⟩
    cases h

theorem parseMssql_ado_iff (hform : parsed.form = .ado) :
    parseMssqlConnString lc urls value = .ok (some parsed) ↔
      Readable value ∧ urlOf urls value = none ∧ parseAdo lc value = some parsed := by
  unfold parseMssqlConnString Readable
  split_ifs with hlen
  · constructor
    · intro h
      cases h
    · rintro ⟨⟨hne, hle⟩, -⟩
      omega
  · rw [bind_eq_ok_iff]
    constructor
    · rintro ⟨outcome, houtcome, h⟩
      refine ⟨by omega, ?_⟩
      cases outcome with
      | some url =>
        cases h
        rw [form_of_parseUrl houtcome] at hform
        cases hform
      | none =>
        injection h with h
        exact ⟨parseUrl_eq_none_iff.mp houtcome, h⟩
    · rintro ⟨-, hnone, hado⟩
      exact ⟨none, parseUrl_eq_none_iff.mpr hnone, by rw [hado]; rfl⟩

end Fields

section Keeping
variable {lc : LowerCase} {drops : List Char → Bool}

theorem adoKeyOf_eq (segment : List Char) :
    adoKeyOf lc segment = (adoOf lc segment).map Prod.fst := by
  rw [adoKeyOf, adoOf]
  cases splitFirst '=' segment <;> rfl

theorem adoEntries_filter (segments : List (List Char)) :
    adoEntries lc (segments.filter (keepsAdo lc drops)) =
      (adoEntries lc segments).filter fun entry => !drops entry.1 := by
  apply filterMap_filter_of_read
  intro segment entry hentry
  rw [keepsAdo, adoKeyOf_eq, hentry]
  rfl

theorem nonblank_of_keeps (h : keepsAdo lc drops segment = true) : trim segment ≠ [] := by
  rw [keepsAdo] at h
  cases hkey : adoKeyOf lc segment with
  | none =>
    rw [hkey] at h
    intro hnil
    simp [hnil] at h
  | some key =>
    have hmem : '=' ∈ segment := by
      by_contra hnot
      rw [adoKeyOf, splitFirst_eq_none_iff.mpr hnot] at hkey
      cases hkey
    exact trim_ne_nil hmem (by decide)

theorem filter_nonblank {segments : List (List Char)} (h : ∀ s ∈ segments, trim s ≠ []) :
    segments.filter (fun segment => decide ((trim segment).length > 0)) = segments := by
  rw [List.filter_eq_self]
  intro s hs
  have hne := h s hs
  rw [decide_eq_true_iff, gt_iff_lt, List.length_pos_iff]
  exact hne

end Keeping

end Indexterity
