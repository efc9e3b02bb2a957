import Indexterity.Library.Steps

/-!
# The connections to a replica set's members

The list of dials is published empty and filled behind the awaits of the guard and of the
connections, each time through `this.dialled`. A second caller takes the list as it stands, and a
close that ends in between takes it away from the call that fills it.
-/

namespace Indexterity

open Library

inductive MemberDialState
  | answered
  | unreachable
  | refused
  deriving DecidableEq, Repr

structure MemberDial where
  host : String
  state : MemberDialState
  connection : Option Nat
  deriving DecidableEq, Repr

/-- A call and the await it is at. A call of `all` or `profiledNodes` is the call of `dials` it
makes. -/
inductive MemberCall
  | asking
  | guarding (host : String) (rest : List String)
  | connecting (host : String) (rest : List String)
  | returned (list : Option Nat)
  | rejected
  | closing (list index connection : Nat)
  | closed
  deriving DecidableEq, Repr

/-- Arrays and connections are numbered in the order they are made and opened. -/
structure MemberConnections where
  dialled : Option Nat
  lists : List (List MemberDial)
  opened : Nat
  closed : List Nat
  calls : List MemberCall

inductive DialsEvent
  | dials
  | close
  /-- The promise a call awaits is fulfilled, or rejected. -/
  | settled (call : Nat) (fulfilled : Bool)

def MemberCall.remaining (hosts : List String) : MemberCall → Option (List String)
  | .asking => some hosts
  | .guarding host rest | .connecting host rest => some (host :: rest)
  | _ => none

def MemberCall.over : MemberCall → Bool
  | .returned _ | .rejected | .closed => true
  | _ => false

def nextConnection : List MemberDial → Nat → Option (Nat × Nat)
  | [], _ => none
  | dial :: rest, index =>
    match dial.connection with
    | some connection => some (index + 1, connection)
    | none => nextConnection rest (index + 1)

variable {call : MemberCall} {i index : Nat} {rest : List String}

namespace MemberConnections

variable {hosts : List String} {s : MemberConnections} {event : DialsEvent}

def new : MemberConnections := ⟨none, [], 0, [], []⟩

def contents (s : MemberConnections) (list : Nat) : List MemberDial := s.lists[list]?.getD []

def start (s : MemberConnections) (call : MemberCall) : MemberConnections :=
  { s with calls := s.calls ++ [call] }

def become (s : MemberConnections) (i : Nat) (call : MemberCall) : MemberConnections :=
  { s with calls := s.calls.set i call }

/-- The loop over the hosts of `dials`, up to its next await or its return. -/
def goOn (s : MemberConnections) (i : Nat) : List String → MemberConnections
  | [] => s.become i (.returned s.dialled)
  | host :: rest => s.become i (.guarding host rest)

/-- A push finds no array once a close has set it to null. Inside the `try` the handler's own push
throws as well. -/
def push (s : MemberConnections) (i : Nat) (dial : MemberDial) (rest : List String) :
    MemberConnections :=
  match s.dialled with
  | none => s.become i .rejected
  | some list => goOn { s with lists := s.lists.modify list (· ++ [dial]) } i rest

def dials (s : MemberConnections) : MemberConnections :=
  match s.dialled with
  | some list => s.start (.returned (some list))
  | none =>
    { s with dialled := some s.lists.length, lists := s.lists ++ [[]] }.start .asking

/-- The rest of the walk of `close`, up to its next await or its end. -/
def walk (s : MemberConnections) (list index : Nat) : Option Nat × MemberCall :=
  match nextConnection ((s.contents list).drop index) index with
  | some (index, connection) => (s.dialled, .closing list index connection)
  | none => (none, .closed)

def close (s : MemberConnections) : MemberConnections :=
  match s.dialled with
  | none => s.start .closed
  | some list => { s with dialled := (s.walk list 0).1 }.start (s.walk list 0).2

def step (hosts : List String) (s : MemberConnections) : DialsEvent → MemberConnections
  | .dials => s.dials
  | .close => s.close
  | .settled i fulfilled =>
    match s.calls[i]? with
    | some .asking =>
      if hosts.length ≤ 1 then s.become i (.returned s.dialled) else s.goOn i hosts
    | some (.guarding host rest) =>
      if fulfilled then s.become i (.connecting host rest)
      else s.push i ⟨host, .refused, none⟩ rest
    | some (.connecting host rest) =>
      if fulfilled then
        { s with opened := s.opened + 1 }.push i ⟨host, .answered, some s.opened⟩ rest
      else s.push i ⟨host, .unreachable, none⟩ rest
    | some (.closing list index connection) =>
      { s with closed := connection :: s.closed, dialled := (s.walk list index).1 }.become i
        (s.walk list index).2
    | _ => s

def unfilled (hosts : List String) (s : MemberConnections) : List (List String) :=
  s.calls.filterMap (·.remaining hosts)

def walkedOut (s : MemberConnections) : DialsEvent → Option Nat
  | .dials => none
  | .close => s.dialled.filter fun list => (s.walk list 0).2 = .closed
  | .settled i _ =>
    match s.calls[i]? with
    | some (.closing list index _) => if (s.walk list index).2 = .closed then some list else none
    | _ => none

/-- No call of `dials` begins while one is in progress; and a close ends while none is, with the
list it has walked still the current one, if there is one. -/
def InTurn (hosts : List String) (s : MemberConnections) (event : DialsEvent) : Prop :=
  (event matches .dials → s.unfilled hosts = []) ∧
    ∀ list ∈ s.walkedOut event, s.unfilled hosts = [] ∧ ∀ current ∈ s.dialled, current = list
  deriving Decidable

/-- Every list a call of `dials` has returned has the hosts in their order. -/
def MembersListed (hosts : List String) (s : MemberConnections) : Prop :=
  ∀ call ∈ s.calls, ∀ list, call = .returned list →
    ∃ dials, list.bind (s.lists[·]?) = some dials ∧ dials.map MemberDial.host = hosts

def ClosedLast (s : MemberConnections) : Prop :=
  s.calls.getLast? = some .closed ∧ ∀ call ∈ s.calls, call.over = true

structure Kept (hosts : List String) (s : MemberConnections) : Prop where
  one : (s.unfilled hosts).length ≤ 1
  filling : ∀ rest ∈ s.unfilled hosts, rest ≠ [] ∧ s.dialled ≠ none
  current : ∀ list, s.dialled = some list → ∃ dials, s.lists[list]? = some dials ∧
    dials.map MemberDial.host ++ (s.unfilled hosts).flatten = hosts
  listed : MembersListed hosts s
  walked : ∀ list index connection, .closing list index connection ∈ s.calls →
    ∃ dials, s.lists[list]? = some dials ∧ index ≤ dials.length ∧
      ∀ dial ∈ dials.take index, ∀ other, dial.connection = some other →
        other = connection ∨ other ∈ s.closed
  reached : ∀ connection < s.opened, connection ∈ s.closed ∨
    ∃ list, s.dialled = some list ∧ ∃ dial ∈ s.contents list, dial.connection = some connection
  last : s.calls.getLast? = some .closed → s.dialled = none

theorem nextConnection_eq_none {dials : List MemberDial} :
    nextConnection dials index = none ↔ ∀ dial ∈ dials, dial.connection = none := by
  induction dials generalizing index with
  | nil => simp [nextConnection]
  | cons dial rest ih =>
    rw [nextConnection]
    split <;> simp [*]

theorem nextConnection_eq_some {dials : List MemberDial} {next connection : Nat}
    (h : nextConnection dials index = some (next, connection)) :
    ∃ k ≤ dials.length, next = index + k ∧
      ∀ dial ∈ dials.take k, ∀ other, dial.connection = some other → other = connection := by
  induction dials generalizing index with
  | nil => cases h
  | cons dial rest ih =>
    rw [nextConnection] at h
    split at h
    · rename_i hconnection
      cases h
      exact ⟨1, by simp, rfl, by simp [hconnection, eq_comm]⟩
    · rename_i hconnection
      obtain ⟨k, hk, hnext, hall⟩ := ih h
      refine ⟨k + 1, by simpa using hk, by omega, ?_⟩
      simpa [hconnection] using hall

theorem walk_cases {list : Nat} {dials : List MemberDial} (hdials : s.lists[list]? = some dials)
    (hindex : index ≤ dials.length) :
    (∃ next connection, s.walk list index = (s.dialled, .closing list next connection) ∧
      next ≤ dials.length ∧ ∀ dial ∈ dials.take next, dial ∈ dials.take index ∨
        ∀ other, dial.connection = some other → other = connection) ∨
    s.walk list index = (none, .closed) ∧
      ∀ dial ∈ dials, dial ∈ dials.take index ∨ dial.connection = none := by
  simp only [walk, contents, hdials, Option.getD_some]
  split
  · rename_i next connection hnext
    obtain ⟨k, hk, rfl, hnew⟩ := nextConnection_eq_some hnext
    rw [List.length_drop] at hk
    refine .inl ⟨index + k, connection, rfl, by omega, fun dial hdial => ?_⟩
    rw [List.take_add, List.mem_append] at hdial
    exact hdial.imp_right (hnew dial)
  · rename_i hnext
    refine .inr ⟨rfl, fun dial hdial => ?_⟩
    rw [← List.take_append_drop index dials, List.mem_append] at hdial
    exact hdial.imp_right (nextConnection_eq_none.mp hnext dial)

theorem exists_around (h : s.calls[i]? = some call) :
    ∃ before after, s.calls = before ++ call :: after ∧
      ∀ new, s.calls.set i new = before ++ new :: after := by
  obtain ⟨hlt, hget⟩ := List.getElem?_eq_some_iff.mp h
  refine ⟨s.calls.take i, s.calls.drop (i + 1), ?_, fun new => ?_⟩
  · rw [← hget, ← List.drop_eq_getElem_cons hlt, List.take_append_drop]
  · rw [List.set_eq_take_append_cons_drop, if_pos hlt]

theorem getLast?_of_become {i : Nat} {call other : MemberCall}
    (h : (s.become i call).calls.getLast? = some other) (hne : other ≠ call) :
    s.calls.getLast? = some other := by
  simp only [MemberConnections.become, List.getLast?_eq_getElem?, List.length_set] at h ⊢
  grind

namespace Kept

variable (h : Kept hosts s)
include h

theorem filled {before after : List MemberCall} (hcalls : s.calls = before ++ call :: after)
    (hrest : call.remaining hosts = some rest) :
    before.filterMap (·.remaining hosts) = [] ∧ after.filterMap (·.remaining hosts) = [] ∧
      ∃ list dials, s.dialled = some list ∧ s.lists[list]? = some dials ∧
        dials.map MemberDial.host ++ rest = hosts := by
  have hone := h.one
  have hcurrent := h.current
  have hfilling := h.filling rest
  simp only [unfilled, hcalls, List.filterMap_append, List.filterMap_cons, hrest,
    List.length_append, List.length_cons] at hone hcurrent hfilling
  have hbefore : before.filterMap (·.remaining hosts) = [] := List.length_eq_zero_iff.mp (by omega)
  have hafter : after.filterMap (·.remaining hosts) = [] := List.length_eq_zero_iff.mp (by omega)
  obtain ⟨list, hlist⟩ := Option.ne_none_iff_exists'.mp (hfilling (by simp)).2
  obtain ⟨dials, hdials, heq⟩ := hcurrent list hlist
  exact ⟨hbefore, hafter, list, dials, hlist, hdials, by simpa [hbefore, hafter] using heq⟩

theorem become {next : MemberCall} (hcall : s.calls[i]? = some call)
    (hrest : call.remaining hosts = some rest) (hnext : next.remaining hosts = some rest) :
    Kept hosts (s.become i next) := by
  obtain ⟨before, after, hcalls, hset⟩ := exists_around hcall
  have hunfilled : (s.become i next).unfilled hosts = s.unfilled hosts := by
    simp only [unfilled, MemberConnections.become, hset]
    simp [hcalls, hrest, hnext]
  have hmem : ∀ other ∈ (s.become i next).calls, other.remaining hosts = none → other ∈ s.calls :=
    fun other hother hnone => (List.mem_or_eq_of_mem_set hother).resolve_right fun heq => by
      rw [heq, hnext] at hnone; cases hnone
  refine ⟨hunfilled ▸ h.one, hunfilled ▸ h.filling, hunfilled ▸ h.current, ?_, ?_, h.reached, ?_⟩
  · exact fun other hother list heq => h.listed other (hmem other hother (heq ▸ rfl)) list heq
  · exact fun list index connection hmem' => h.walked list index connection (hmem _ hmem' rfl)
  · exact fun hlast => h.last (getLast?_of_become hlast fun heq => by simp [← heq] at hnext; cases hnext)

theorem push {dial : MemberDial} (hcall : s.calls[i]? = some call)
    (hrest : call.remaining hosts = some (dial.host :: rest)) {opened : Nat}
    (hopened : ∀ connection < opened, connection < s.opened ∨ dial.connection = some connection) :
    Kept hosts ({ s with opened := opened }.push i dial rest) := by
  obtain ⟨before, after, hcalls, hset⟩ := exists_around hcall
  obtain ⟨hbefore, hafter, list, dials, hlist, hdials, hhosts⟩ := h.filled hcalls hrest
  have hlists : ∀ other dials', s.lists[other]? = some dials' →
      (s.lists.modify list (· ++ [dial]))[other]? =
        some (if other = list then dials' ++ [dial] else dials') := by
    intro other dials' hother
    rw [List.getElem?_modify, hother]
    by_cases heq : other = list
    · simp [heq]
    · simp [heq, Ne.symm heq]
  have hcontents : (s.lists.modify list (· ++ [dial]))[list]? = some (dials ++ [dial]) := by
    rw [hlists list dials hdials, if_pos rfl]
  obtain ⟨next, hnext, hgo⟩ : ∃ next, (rest = [] ∧ next = .returned (some list) ∨
      rest ≠ [] ∧ next.remaining hosts = some rest) ∧
      ∀ t : MemberConnections, t.dialled = some list → t.goOn i rest = t.become i next := by
    cases rest with
    | nil => exact ⟨_, .inl ⟨rfl, rfl⟩, fun t ht => by rw [goOn, ht]⟩
    | cons host rest => exact ⟨.guarding host rest, .inr ⟨nofun, rfl⟩, fun t _ => rfl⟩
  have hunfilled : ((before ++ next :: after).filterMap (·.remaining hosts)) =
      if rest = [] then [] else [rest] := by
    rw [List.filterMap_append, hbefore, List.filterMap_cons, hafter]
    rcases hnext with ⟨hrest, rfl⟩ | ⟨hrest, hnext⟩
    · simp [hrest, MemberCall.remaining]
    · simp [hrest, hnext]
  simp only [MemberConnections.push, hlist]
  rw [hgo _ rfl]
  constructor
  · simp only [unfilled, MemberConnections.become, hset, hunfilled]
    split <;> simp
  · simp only [unfilled, MemberConnections.become, hset, hunfilled]
    split <;> simp_all
  · rintro _ ⟨⟩
    refine ⟨dials ++ [dial], hcontents, ?_⟩
    simp only [unfilled, MemberConnections.become, hset, hunfilled]
    split <;> simp_all
  · intro other hother shown heq
    rcases List.mem_or_eq_of_mem_set hother with hold | hnew
    · obtain ⟨dials', hdials', hfull⟩ := h.listed other hold shown heq
      obtain ⟨shown, rfl, hshown⟩ := Option.bind_eq_some_iff.mp hdials'
      have hne : shown ≠ list := by
        rintro rfl
        rw [hdials] at hshown
        cases hshown
        rw [← hhosts] at hfull
        simpa using congrArg List.length hfull
      exact ⟨dials', by simpa [MemberConnections.become, hne] using hlists shown dials' hshown, hfull⟩
    · rcases hnext with ⟨hrest, hnext⟩ | ⟨-, hnext⟩
      · rw [hnew, hnext] at heq
        cases heq
        refine ⟨dials ++ [dial], hcontents, ?_⟩
        simpa [hrest] using hhosts
      · rw [← hnew, heq] at hnext
        cases hnext
  · intro walk index connection hmem
    have hold : .closing walk index connection ∈ s.calls :=
      (List.mem_or_eq_of_mem_set hmem).resolve_right fun hnew => by
        rcases hnext with ⟨-, hnext⟩ | ⟨-, hnext⟩ <;> (rw [← hnew] at hnext; cases hnext)
    obtain ⟨dials', hdials', hindex, hclosed⟩ := h.walked walk index connection hold
    refine ⟨_, hlists walk dials' hdials', ?_⟩
    split
    · rw [List.take_append_of_le_length hindex, List.length_append]
      exact ⟨by omega, hclosed⟩
    · exact ⟨hindex, hclosed⟩
  · intro connection hconnection
    rcases hopened connection hconnection with hold | hnew
    · refine (h.reached connection hold).imp id ?_
      rintro ⟨shown, hshown, dial', hdial', hconnection'⟩
      cases hlist.symm.trans hshown
      simp only [contents, hdials, Option.getD_some] at hdial'
      exact ⟨list, rfl, dial', by simp [contents, MemberConnections.become, hcontents, hdial'],
        hconnection'⟩
    · exact .inr ⟨list, rfl, dial, by simp [contents, MemberConnections.become, hcontents], hnew⟩
  · intro hlast
    have hclosed := h.last (@getLast?_of_become s i next .closed hlast fun heq => by
      rcases hnext with ⟨-, hnext⟩ | ⟨-, hnext⟩ <;> (rw [← heq] at hnext; cases hnext))
    cases hlist.symm.trans hclosed

theorem start (hover : (∃ list, call = .returned list) ∨ call = .closed)
    (hreturned : ∀ list, call = .returned list →
      ∃ dials, list.bind (s.lists[·]?) = some dials ∧ dials.map MemberDial.host = hosts)
    (hclosed : call = .closed → s.dialled = none) : Kept hosts (s.start call) := by
  have hunfilled : (s.start call).unfilled hosts = s.unfilled hosts := by
    rcases hover with ⟨list, rfl⟩ | rfl <;> simp [unfilled, MemberConnections.start,
      MemberCall.remaining]
  refine ⟨hunfilled ▸ h.one, hunfilled ▸ h.filling, hunfilled ▸ h.current, ?_, ?_, h.reached,
    fun hlast => hclosed (by simpa [MemberConnections.start] using hlast)⟩
  · intro other hother list heq
    rcases List.mem_append.mp hother with hold | hnew
    · exact h.listed other hold list heq
    · exact hreturned list ((List.mem_singleton.mp hnew).symm.trans heq)
  · intro list index connection hmem
    refine h.walked list index connection ((List.mem_append.mp hmem).resolve_right fun hnew => ?_)
    rcases hover with ⟨_, rfl⟩ | rfl <;> cases List.mem_singleton.mp hnew

theorem dials (hidle : s.unfilled hosts = []) (hhosts : hosts ≠ []) : Kept hosts s.dials := by
  unfold MemberConnections.dials
  split
  · rename_i list hlist
    obtain ⟨dials, hdials, hfull⟩ := h.current list hlist
    refine h.start (.inl ⟨_, rfl⟩) ?_ nofun
    rintro _ ⟨⟩
    exact ⟨dials, hdials, by simpa [hidle] using hfull⟩
  · rename_i hnone
    have hold : ∀ list dials, s.lists[list]? = some dials → (s.lists ++ [[]])[list]? = some dials :=
      fun list dials hdials => by
        rw [List.getElem?_append_left (List.getElem?_eq_some_iff.mp hdials).1, hdials]
    have hunfilled : ({ s with dialled := some s.lists.length, lists := s.lists ++ [[]] }.start
        .asking).unfilled hosts = [hosts] := by
      simpa [unfilled, MemberConnections.start, MemberCall.remaining] using hidle
    refine ⟨by simp [hunfilled], ?_, ?_, ?_, ?_, ?_, by simp [MemberConnections.start]⟩
    · rw [hunfilled]
      simpa [MemberConnections.start] using hhosts
    · rintro _ ⟨⟩
      exact ⟨[], by simp [MemberConnections.start], by simp [hunfilled]⟩
    · intro call hcall shown heq
      obtain ⟨dials, hdials, hfull⟩ := h.listed call (by simp_all [MemberConnections.start]) shown heq
      obtain ⟨shown, rfl, hshown⟩ := Option.bind_eq_some_iff.mp hdials
      exact ⟨dials, hold shown dials hshown, hfull⟩
    · intro walk index connection hmem
      obtain ⟨dials, hdials, hwalked⟩ := h.walked walk index connection (by simpa [MemberConnections.start] using hmem)
      exact ⟨dials, hold walk dials hdials, hwalked⟩
    · intro connection hconnection
      refine .inl ((h.reached connection hconnection).resolve_right ?_)
      simp [hnone]

theorem walk {list : Nat} {dials : List MemberDial} {closed : List Nat} {calls : List MemberCall}
    (hdials : s.lists[list]? = some dials) (hindex : index ≤ dials.length)
    (hpassed : ∀ dial ∈ dials.take index, ∀ other, dial.connection = some other → other ∈ closed)
    (hclosed : s.closed ⊆ closed)
    (hunfilled : calls.filterMap (·.remaining hosts) = s.unfilled hosts)
    (hcalls : ∀ call ∈ calls, call ∈ s.calls ∨ call = (s.walk list index).2)
    (hlast : calls.getLast? = some .closed → s.calls.getLast? = some .closed ∨
      (s.walk list index).2 = .closed)
    (hturn : (s.walk list index).2 = .closed → s.unfilled hosts = [] ∧
      ∀ current ∈ s.dialled, current = list) :
    Kept hosts ⟨(s.walk list index).1, s.lists, s.opened, closed, calls⟩ := by
  have hlisted : MembersListed hosts ⟨(s.walk list index).1, s.lists, s.opened, closed, calls⟩ := by
    intro call hcall shown heq
    refine h.listed call ((hcalls call hcall).resolve_right fun hnew => ?_) shown heq
    rcases walk_cases hdials hindex with ⟨_, _, hwalk, -⟩ | ⟨hwalk, -⟩ <;>
      simp [hwalk, heq] at hnew
  have hwalked : ∀ walk index' connection, .closing walk index' connection ∈ s.calls →
      ∃ dials, s.lists[walk]? = some dials ∧ index' ≤ dials.length ∧
        ∀ dial ∈ dials.take index', ∀ other, dial.connection = some other →
          other = connection ∨ other ∈ closed := by
    intro walk index' connection hmem
    obtain ⟨dials', hdials', hindex', hpassed'⟩ := h.walked walk index' connection hmem
    exact ⟨dials', hdials', hindex', fun dial hdial other hother =>
      (hpassed' dial hdial other hother).imp_right (@hclosed other)⟩
  rcases walk_cases hdials hindex with ⟨next, connection, hwalk, hnext, hnew⟩ | ⟨hwalk, hend⟩
  · rw [hwalk] at hcalls hlast hlisted ⊢
    refine ⟨?_, ?_, ?_, hlisted, ?_, ?_,
      fun hl => h.last ((hlast hl).resolve_right nofun)⟩
    · simp only [unfilled, hunfilled]; exact h.one
    · simp only [unfilled, hunfilled]; exact h.filling
    · simp only [unfilled, hunfilled]; exact h.current
    · intro walk index' connection' hmem
      rcases hcalls _ hmem with hold | hself
      · exact hwalked walk index' connection' hold
      · cases hself
        refine ⟨dials, hdials, hnext, fun dial hdial other hother => ?_⟩
        exact (hnew dial hdial).elim (fun hd => .inr (hpassed dial hd other hother))
          fun hd => .inl (hd other hother)
    · exact fun c hc => (h.reached c hc).imp_left (@hclosed c)
  · rw [hwalk] at hcalls hlisted hturn ⊢
    obtain ⟨hidle, hcurrent⟩ := hturn rfl
    have hnone : calls.filterMap (·.remaining hosts) = [] := hunfilled.trans hidle
    refine ⟨by simp [unfilled, hnone], by simp [unfilled, hnone], nofun, hlisted, ?_, ?_,
      fun _ => rfl⟩
    · intro walk index' connection' hmem
      exact hwalked walk index' connection' ((hcalls _ hmem).resolve_right nofun)
    · intro c hc
      refine .inl ((h.reached c hc).elim (@hclosed c) ?_)
      rintro ⟨shown, hshown, dial, hdial, hconnection⟩
      cases hcurrent shown hshown
      rw [contents, hdials] at hdial
      refine hpassed dial ((hend dial hdial).resolve_right ?_) c hconnection
      simp [hconnection]

theorem step (hturn : InTurn hosts s event) (hhosts : 2 ≤ hosts.length) :
    Kept hosts (s.step hosts event) := by
  have hne : hosts ≠ [] := by rintro rfl; simp at hhosts
  cases event with
  | dials => exact h.dials (hturn.1 rfl) hne
  | close =>
    have hout := hturn.2
    simp only [MemberConnections.step, MemberConnections.close, walkedOut] at hout ⊢
    split
    · exact h.start (.inr rfl) nofun fun _ => by assumption
    · rename_i list hlist
      obtain ⟨dials, hdials, -⟩ := h.current list hlist
      refine h.walk hdials (Nat.zero_le _) (by simp) (List.Subset.refl _) ?_ (by simp)
        (fun hlast => .inr (by simpa using hlast)) ?_
      · rcases walk_cases hdials (Nat.zero_le _) with ⟨_, _, hwalk, -⟩ | ⟨hwalk, -⟩ <;>
          simp [unfilled, hwalk, MemberCall.remaining]
      · exact fun hend => hout list (by simp [hlist, hend])
  | settled i fulfilled =>
    have hout := hturn.2
    simp only [MemberConnections.step, walkedOut] at hout ⊢
    split
    · rename_i hcall
      rw [if_neg (by omega)]
      obtain ⟨host, rest, rfl⟩ := List.exists_cons_of_ne_nil hne
      exact h.become hcall rfl rfl
    · rename_i host rest hcall
      split
      · exact h.become hcall rfl rfl
      · exact h.push hcall rfl fun connection hlt => .inl hlt
    · rename_i host rest hcall
      split
      · refine h.push hcall rfl fun connection hlt => ?_
        rcases Nat.lt_succ_iff_lt_or_eq.mp hlt with hold | hnew
        · exact .inl hold
        · exact .inr (congrArg some hnew.symm)
      · exact h.push hcall rfl fun connection hlt => .inl hlt
    · rename_i list index connection hcall
      obtain ⟨dials, hdials, hindex, hpassed⟩ :=
        h.walked list index connection (List.mem_of_getElem? hcall)
      obtain ⟨before, after, hcalls, hset⟩ := exists_around hcall
      refine h.walk hdials hindex ?_ (List.subset_cons_self _ _) ?_ (fun _ => List.mem_or_eq_of_mem_set)
        ?_ ?_
      · intro dial hdial other hother
        exact List.mem_cons.mpr (hpassed dial hdial other hother)
      · rw [hset, unfilled, hcalls]
        rcases walk_cases hdials hindex with ⟨_, _, hwalk, -⟩ | ⟨hwalk, -⟩ <;>
          simp [hwalk, MemberCall.remaining]
      · intro hlast
        by_cases hend : (s.walk list index).2 = .closed
        · exact .inr hend
        · exact .inl (getLast?_of_become hlast (Ne.symm hend))
      · exact fun hend => hout list (by simp [hcall, hend])
    · exact h

end Kept

theorem kept_new : Kept hosts new :=
  ⟨Nat.zero_le _, nofun, nofun, nofun, nofun, nofun, nofun⟩

/-- Where the calls keep in turn: each list that `dials` has returned has one entry for each host,
in the order of the set; once every call has ended, the last to begin a close, no list is current;
and while none is, every connection that was opened is closed. -/
theorem members_kept (hhosts : 2 ≤ hosts.length) (events : List DialsEvent)
    (hturn : Along (step hosts) (InTurn hosts) new events) :
    Along (step hosts) (fun s event => MembersListed hosts (s.step hosts event) ∧
      (ClosedLast (s.step hosts event) → (s.step hosts event).dialled = none) ∧
      ((s.step hosts event).dialled = none →
        ∀ connection < (s.step hosts event).opened, connection ∈ (s.step hosts event).closed))
      new events := by
  refine Along.of_inv (fun s event h hturn => Kept.step h hturn hhosts) ?_ kept_new hturn
  intro s event h hturn
  have hkept := Kept.step h hturn hhosts
  refine ⟨hkept.listed, fun hlast => hkept.last hlast.1, fun hnone connection hconnection => ?_⟩
  refine (hkept.reached connection hconnection).resolve_right ?_
  simp [hnone]

/-- Two calls one after the other and a close. One member is refused by the guard. -/
def passOfTwo : List DialsEvent :=
  [.dials, .settled 0 true, .settled 0 true, .settled 0 true, .settled 0 false, .dials, .close,
    .settled 2 true]

theorem passOfTwo_kept :
    let s := passOfTwo.foldl (step ["a", "b"]) new
    MembersListed ["a", "b"] s ∧ ∀ connection < s.opened, connection ∈ s.closed := by
  obtain ⟨hlisted, hlast, hclosed⟩ :=
    (@members_kept ["a", "b"] (by decide) passOfTwo (by decide)).2.2.2.2.2.2.2.1
  exact ⟨hlisted, hclosed (hlast ⟨rfl, by decide⟩)⟩

/-- A second caller comes while the second member is being dialled. -/
def secondCaller : List DialsEvent := [.dials, .settled 0 true, .settled 0 false, .dials]

def closedMidway : List DialsEvent :=
  [.dials, .settled 0 true, .settled 0 true, .close, .settled 0 true]

/-- The second caller is given one of the two members; and the connection that opens after the
close stays open, with no call in progress. -/
theorem members_lost :
    let s := secondCaller.foldl (step ["a", "b"]) new
    let t := closedMidway.foldl (step ["a", "b"]) new
    (.returned (some 0) ∈ s.calls ∧ s.lists = [[⟨"a", .refused, none⟩]]) ∧
      ClosedLast t ∧ t.opened = 1 ∧ t.closed = [] := by
  refine ⟨by decide, ⟨rfl, by decide⟩, rfl, rfl⟩

end MemberConnections

end Indexterity
