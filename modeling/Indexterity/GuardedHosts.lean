import Indexterity.GuardCategory
import Indexterity.MssqlConnString

/-!
# The hosts that are parsed and the hosts that are judged

The parsers take an address out of its brackets, and the list for the guard joins it to
its port with a colon. The guard cuts at the first colon again. A dotted address comes
through; of an address of the wide family the guard sees the first group, as the name of
a host, or nothing.
-/

namespace Indexterity

open Library

section Judging
variable {net : Resolver} {host ip : List Char}

theorem assertAddress_eq_ok_iff :
    assertAddress host ip ⟨false⟩ = .ok () ↔ (classifyAddress ip).category = .PUBLIC := by
  simp only [assertAddress]
  split_ifs with hpublic hprivate
  · simp [hpublic]
  · simp at hprivate
  · simp [hpublic]

theorem cutAt_append (host rest : List Char) : (cutAt ':' (host ++ ':' :: rest)).1 =
    (cutAt ':' host).1 := by
  unfold cutAt
  cases hcut : splitFirst ':' host with
  | none => rw [splitFirst_append_cons (splitFirst_eq_none_iff.mp hcut)]
  | some cut =>
    obtain ⟨hmem, rfl⟩ := splitFirst_eq_some_iff.mp hcut
    rw [List.append_assoc, List.cons_append, splitFirst_append_cons hmem]

theorem headD_splitOn (t : List Char) : (t.splitOn ':').headD t = (cutAt ':' t).1 := by
  rw [splitOn_eq_of_splitFirst, cutAt]
  cases splitFirst ':' t <;> rfl

theorem hostOfTarget_hostPort (h : '[' ∉ host) (port : Nat) :
    hostOfTarget (hostPort host port) = (cutAt ':' host).1 := by
  have hbracketed : bracketed (hostPort host port) = none := by
    cases host with
    | nil => rfl
    | cons c host =>
      have hc : c ≠ '[' := fun heq => h (heq ▸ List.mem_cons_self)
      simp [hostPort, bracketed, hc]
  rw [hostOfTarget, hbracketed]
  exact (headD_splitOn _).trans (cutAt_append host _)

theorem hostOfTarget_of_v4 {n : Nat} (h : v4Value host = some n) (port : Nat) :
    hostOfTarget (hostPort host port) = host := by
  have hnot : ∀ c, isDigit c = false → c ≠ '.' → c ∉ host := by
    intro c hdigit hdot hmem
    rcases mem_v4_literal (by simp [h]) hmem with hd | hd
    · exact Bool.false_ne_true (hdigit.symm.trans hd)
    · exact hdot hd
  rw [hostOfTarget_hostPort (hnot '[' (by decide) (by decide)), cutAt,
    splitFirst_eq_none_iff.mpr (hnot ':' (by decide) (by decide))]

/-- The guard stops at the first colon, and a literal of the wide family has one. -/
theorem hostOfTarget_ne_of_v6 (h : isIP host = 6) (port : Nat) :
    hostOfTarget (hostPort host port) ≠ host := by
  obtain ⟨groups, hgroups⟩ : ∃ groups, v6Literal host = some groups := by
    unfold isIP at h
    split_ifs at h with hv4 hv6
    · cases h
    · obtain ⟨v, hv⟩ := Option.isSome_iff_exists.mp hv6
      exact (v6Value_eq_some.mp hv).imp fun _ => And.left
  have hbracket : '[' ∉ host := fun hmem =>
    absurd (mem_v6_literal hgroups hmem) (by decide)
  have hcolon : ':' ∈ host := by
    rw [← splitZone_append host]
    exact List.mem_append_left _ (colon_mem_of_v6Groups (v6Literal_eq_some.mp hgroups).2)
  rw [hostOfTarget_hostPort hbracket, cutAt]
  cases hcut : splitFirst ':' host with
  | none => exact absurd hcolon (splitFirst_eq_none_iff.mp hcut)
  | some cut =>
    intro heq
    exact (splitFirst_eq_some_iff.mp hcut).1 (heq ▸ hcolon)

theorem v4_or_v6_of_isIP (h : isIP host ≠ 0) : (∃ n, v4Value host = some n) ∨ isIP host = 6 := by
  by_cases hv4 : (v4Value host).isSome
  · exact .inl (Option.isSome_iff_exists.mp hv4)
  · right
    unfold isIP at h ⊢
    split_ifs at h ⊢ with hv6
    · rfl
    · exact absurd rfl h

end Judging

def Refused (net : Resolver) (hosts : Except String (List (List Char) × Bool)) : Prop :=
  ∃ targets isSrv message, hosts = .ok (targets, isSrv) ∧
    assertTargetsAllowed net targets isSrv ⟨false⟩ = .error message

theorem refused_of_v4 {net : Resolver} {targets : List PgHost} {target : PgHost}
    (hmem : target ∈ targets) {n : Nat} (hv4 : v4Value target.host = some n)
    (hcategory : (classifyAddress target.host).category ≠ .PUBLIC) :
    Refused net (.ok (targets.map fun target => hostPort target.host target.port, false)) := by
  cases hresult : assertTargetsAllowed net
      (targets.map fun target => hostPort target.host target.port) false ⟨false⟩ with
  | error message => exact ⟨_, false, message, rfl, hresult⟩
  | ok _ =>
    have hpassed := forM_eq_ok_iff.mp hresult _ (List.mem_map_of_mem hmem)
    have hne : target.host ≠ [] := by
      intro hnil
      have hnone : v4Value target.host = none := by
        rw [hnil]
        decide
      rw [hnone] at hv4
      cases hv4
    rw [assertTarget, hostOfTarget_of_v4 hv4] at hpassed
    simp only [List.length_eq_zero_iff, hne, isIP_of_v4 hv4, if_false, ne_eq, OfNat.ofNat_ne_zero,
      not_false_eq_true, if_true] at hpassed
    exact absurd (assertAddress_eq_ok_iff.mp hpassed) hcategory

theorem not_refused {net : Resolver} {hosts : Except String (List (List Char) × Bool)}
    (targets : List (List Char)) (hhosts : hosts = .ok (targets, false))
    (hpass : assertTargetsAllowed net targets false ⟨false⟩ = .ok ()) : ¬Refused net hosts := by
  rintro ⟨targets', isSrv, message, hok, herror⟩
  rw [hhosts] at hok
  cases hok
  rw [hpass] at herror
  cases herror

/-- Every host that is an address literal is judged as itself, and the list is refused where one
of them is not public. -/
def LiteralsJudged (net : Resolver) (hosts : Except String (List (List Char) × Bool))
    (targets : List PgHost) : Prop :=
  ∀ target ∈ targets, isIP target.host ≠ 0 →
    hostOfTarget (hostPort target.host target.port) = target.host ∧
      ((classifyAddress target.host).category ≠ .PUBLIC → Refused net hosts)

theorem literalsJudged_iff (net : Resolver) (targets : List PgHost) :
    LiteralsJudged net (.ok (targets.map fun target => hostPort target.host target.port, false))
      targets ↔ ∀ target ∈ targets, isIP target.host ≠ 6 := by
  constructor
  · intro h target hmem hwide
    exact hostOfTarget_ne_of_v6 hwide target.port (h target hmem (by omega)).1
  · intro h target hmem hip
    rcases v4_or_v6_of_isIP hip with ⟨n, hv4⟩ | hwide
    · exact ⟨hostOfTarget_of_v4 hv4 target.port, refused_of_v4 hmem hv4⟩
    · exact absurd hwide (h target hmem)

/-- The literals of a parsed string are judged as they stand, and refused where they are not
public, exactly when none of its hosts is a literal of the wide family. -/
theorem guard_judges_literals_iff (lc : LowerCase) (urls : UrlLibrary) (net : Resolver)
    (value : List Char) :
    (∀ parsed, parsePgConnString lc value = .ok (some parsed) →
      (LiteralsJudged net (pgHosts lc value) parsed.hosts ↔
        ∀ target ∈ parsed.hosts, isIP target.host ≠ 6)) ∧
    (∀ parsed, parseMssqlConnString lc urls value = .ok (some parsed) →
      (LiteralsJudged net (mssqlHosts lc urls value) [⟨parsed.host, parsed.port⟩] ↔
        isIP parsed.host ≠ 6)) := by
  constructor
  · intro parsed hparsed
    have hhosts : pgHosts lc value =
        .ok (parsed.hosts.map fun target => hostPort target.host target.port, false) := by
      rw [pgHosts, hparsed]
      rfl
    rw [hhosts]
    exact literalsJudged_iff net parsed.hosts
  · intro parsed hparsed
    have hhosts : mssqlHosts lc urls value = .ok ([(⟨parsed.host, parsed.port⟩ : PgHost)].map
        fun target => hostPort target.host target.port, false) := by
      rw [mssqlHosts, hparsed]
      rfl
    rw [hhosts, literalsJudged_iff]
    simp

def noNames : Resolver where
  lookup := fun _ => none
  resolveSrv := fun _ => none

theorem guard_judges_literals_private :
    let value := "postgresql://10.0.0.1,db.example:5433/db".toList
    let hosts : List PgHost := [⟨"10.0.0.1".toList, 5432⟩, ⟨"db.example".toList, 5433⟩]
    let ado := "Server=10.0.0.1,1433".toList
    (parsePgConnString asciiLower value = .ok (some ⟨.uri, hosts, "db".toList, [], [], []⟩) ∧
      LiteralsJudged noNames (pgHosts asciiLower value) hosts) ∧
    (parseMssqlConnString asciiLower noUrls ado =
        .ok (some ⟨.ado, "10.0.0.1".toList, 1433, [], [], [], []⟩) ∧
      LiteralsJudged noNames (mssqlHosts asciiLower noUrls ado) [⟨"10.0.0.1".toList, 1433⟩]) :=
  ⟨⟨by decide +kernel, ((guard_judges_literals_iff asciiLower noUrls noNames _).1
      ⟨.uri, [⟨"10.0.0.1".toList, 5432⟩, ⟨"db.example".toList, 5433⟩], "db".toList, [], [], []⟩
      (by decide +kernel)).mpr (by decide +kernel)⟩,
    ⟨by decide +kernel, ((guard_judges_literals_iff asciiLower noUrls noNames _).2
      ⟨.ado, "10.0.0.1".toList, 1433, [], [], [], []⟩ (by decide +kernel)).mpr (by decide +kernel)⟩⟩

/-- The loopback address passes, whatever the names of the world resolve to, and a unique
local address is taken for the name of its first group. -/
theorem guard_skips_wide_literals :
    (parsePgConnString asciiLower "postgresql://[::1]:5432/db".toList =
        .ok (some ⟨.uri, [⟨"::1".toList, 5432⟩], "db".toList, [], [], []⟩) ∧
      (classifyAddress "::1".toList).category = .PRIVATE ∧
      ∀ net, ¬Refused net (pgHosts asciiLower "postgresql://[::1]:5432/db".toList)) ∧
    (parseMssqlConnString asciiLower noUrls "Server=::1,1433".toList =
        .ok (some ⟨.ado, "::1".toList, 1433, [], [], [], []⟩) ∧
      ∀ net, ¬Refused net (mssqlHosts asciiLower noUrls "Server=::1,1433".toList)) ∧
    (pgHosts asciiLower "postgresql://[fd00::1]:5432/db".toList =
        .ok (["fd00::1:5432".toList], false) ∧
      (classifyAddress "fd00::1".toList).category = .PRIVATE ∧
      hostOfTarget "fd00::1:5432".toList = "fd00".toList ∧
      ¬Refused noNames (pgHosts asciiLower "postgresql://[fd00::1]:5432/db".toList)) := by
  refine ⟨⟨by decide +kernel, by decide +kernel, ?_⟩, ⟨by decide +kernel, ?_⟩,
    ⟨by decide +kernel, by decide +kernel, by decide +kernel, ?_⟩⟩
  · intro net
    exact not_refused ["::1:5432".toList] (by decide +kernel) (by rfl)
  · intro net
    exact not_refused ["::1:1433".toList] (by decide +kernel) (by rfl)
  · exact not_refused ["fd00::1:5432".toList] (by decide +kernel) (by decide +kernel)

end Indexterity
