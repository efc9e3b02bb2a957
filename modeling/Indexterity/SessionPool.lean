import Indexterity.Library.Steps

/-!
# The pool of sessions

`jobs/connection-pool.ts`. The map holds a promise of an entry for each cluster. A promise is
numbered by the dial it stands for, and each call stops at its awaits: any call whose promise
has settled may be the next to go on, and between two of its awaits a call runs alone. A call
that awaits the close of a session goes on at any time.

A promise that fails runs its handler, which takes the cluster out of the map, before anything
that awaits it. The order in which a sweep walks the map is left open.
-/

namespace Indexterity

open Library

def IDLE_MS : Int := 5 * 60000

/-- What a session is opened with. The pool looks at the connection string alone; the engine,
the TLS overrides, the proxy and the tunnel route are the options. -/
@[ext] structure DialArgs (ω : Type) where
  connString : String
  options : ω
deriving DecidableEq

structure PoolEntry where
  refs : Nat
  lastUsed : Int
  doomed : Bool
  closed : Bool
deriving DecidableEq

inductive Outcome where
  | pending
  | failed
  | opened (entry : PoolEntry)
deriving DecidableEq

structure Dial (ω : Type) where
  clusterId : String
  args : DialArgs ω
  outcome : Outcome

/-- A call at the await it has come to, or the lease it returned with. -/
inductive PoolCall (ω : Type) where
  | looking (clusterId : String) (args : DialArgs ω) (pending : Nat)
  | replacing (clusterId : String) (args : DialArgs ω)
  | joining (args : DialArgs ω) (pending : Nat)
  | leased (args : DialArgs ω) (dial : Nat)
  | evicting (clusterId : String) (pending : Nat)
  | sweeping (now : Int)
  | visiting (now : Int) (clusterId : String) (pending : Nat)
  | over
deriving DecidableEq

structure SessionPool (ω : Type) where
  entries : String → Option Nat
  dials : List (Dial ω)
  calls : List (PoolCall ω)

inductive PoolEvent (ω : Type) where
  | acquire (clusterId : String) (args : DialArgs ω)
  | evict (clusterId : String)
  | sweep (now : Int)
  | connected (dial : Nat) (now : Int)
  | refused (dial : Nat)
  /-- A call goes on; a sweep comes to a cluster of the map, or to its end. -/
  | goOn (call : Nat) (now : Int) (next : Option String)
  | release (call : Nat) (now : Int)

/-! ## Entries -/

def PoolEntry.doom (entry : PoolEntry) : PoolEntry :=
  { entry with doomed := true, closed := entry.closed || decide (entry.refs = 0) }

def PoolEntry.close (entry : PoolEntry) : PoolEntry := { entry with closed := true }

def PoolEntry.take (now : Int) (entry : PoolEntry) : PoolEntry :=
  { entry with refs := entry.refs + 1, lastUsed := now }

def PoolEntry.release (now : Int) (entry : PoolEntry) : PoolEntry :=
  { entry with
    refs := entry.refs - 1
    lastUsed := now
    closed := entry.closed || entry.doomed && decide (entry.refs - 1 = 0) }

def Outcome.update (change : PoolEntry → PoolEntry) : Outcome → Outcome
  | .opened entry => .opened (change entry)
  | outcome => outcome

def Outcome.entry : Outcome → Option PoolEntry
  | .opened entry => some entry
  | _ => none

/-! ## Calls -/

namespace SessionPool

variable {ω : Type} (s : SessionPool ω)

def outcome (p : Nat) : Outcome := (s.dials[p]?.map Dial.outcome).getD .pending

def entry (p : Nat) : Option PoolEntry := (s.outcome p).entry

def args (p : Nat) : Option (DialArgs ω) := s.dials[p]?.map Dial.args

def start (call : PoolCall ω) : SessionPool ω := { s with calls := s.calls ++ [call] }

def become (i : Nat) (call : PoolCall ω) : SessionPool ω := { s with calls := s.calls.set i call }

def settle (p : Nat) (change : Outcome → Outcome) : SessionPool ω :=
  { s with dials := s.dials.modify p fun dial => { dial with outcome := change dial.outcome } }

def delete (clusterId : String) : SessionPool ω :=
  { s with entries := Function.update s.entries clusterId none }

/-- `createEntry`, and the promise put into the map; the call awaits it. -/
def createEntry (i : Nat) (clusterId : String) (args : DialArgs ω) : SessionPool ω where
  entries := Function.update s.entries clusterId (some s.dials.length)
  dials := s.dials ++ [⟨clusterId, args, .pending⟩]
  calls := s.calls.set i (.joining args s.dials.length)

def acquireClusterSession (clusterId : String) (args : DialArgs ω) : SessionPool ω :=
  match s.entries clusterId with
  | some p => s.start (.looking clusterId args p)
  | none => (s.start .over).createEntry s.calls.length clusterId args

def look (i : Nat) (clusterId : String) (args : DialArgs ω) (p : Nat) : SessionPool ω :=
  match s.outcome p with
  | .pending => s
  | .failed => (s.delete clusterId).createEntry i clusterId args
  | .opened entry =>
    if (s.args p).map DialArgs.connString = some args.connString then s.become i (.joining args p)
    else if entry.refs = 0 then
      ((s.settle p (.update .doom)).delete clusterId).become i (.replacing clusterId args)
    else (s.settle p (.update .doom)).createEntry i clusterId args

def join (i : Nat) (args : DialArgs ω) (p : Nat) (now : Int) : SessionPool ω :=
  match s.outcome p with
  | .pending => s
  | .failed => s.become i .over
  | .opened _ => (s.settle p (.update (.take now))).become i (.leased args p)

def evictCluster (i : Nat) (clusterId : String) (p : Nat) : SessionPool ω :=
  match s.outcome p with
  | .pending => s
  | .failed => (s.delete clusterId).become i .over
  | .opened entry =>
    if entry.refs = 0 then ((s.settle p (.update .doom)).delete clusterId).become i .over
    else (s.settle p (.update .doom)).become i .over

def isIdle (now : Int) (entry : PoolEntry) : Bool :=
  decide (entry.refs = 0) && (entry.doomed || decide (IDLE_MS ≤ now - entry.lastUsed))

def sweepIdle (i : Nat) (now : Int) (clusterId : String) (p : Nat) : SessionPool ω :=
  match s.outcome p with
  | .pending => s
  | .failed => s.become i (.sweeping now)
  | .opened entry =>
    if isIdle now entry then
      ((s.settle p (.update .close)).delete clusterId).become i (.sweeping now)
    else s.become i (.sweeping now)

def goOn (i : Nat) (now : Int) (next : Option String) : SessionPool ω :=
  match s.calls[i]? with
  | some (.looking clusterId args p) => s.look i clusterId args p
  | some (.replacing clusterId args) => s.createEntry i clusterId args
  | some (.joining args p) => s.join i args p now
  | some (.evicting clusterId p) => s.evictCluster i clusterId p
  | some (.sweeping began) =>
    match next with
    | none => s.become i .over
    | some clusterId =>
      match s.entries clusterId with
      | some p => s.become i (.visiting began clusterId p)
      | none => s
  | some (.visiting began clusterId p) => s.sweepIdle i began clusterId p
  | _ => s

def step (s : SessionPool ω) : PoolEvent ω → SessionPool ω
  | .acquire clusterId args => s.acquireClusterSession clusterId args
  | .evict clusterId =>
    match s.entries clusterId with
    | some p => s.start (.evicting clusterId p)
    | none => s
  | .sweep now => s.start (.sweeping now)
  | .connected p now =>
    match s.outcome p with
    | .pending => s.settle p fun _ => .opened ⟨0, now, false, false⟩
    | _ => s
  | .refused p =>
    match s.dials[p]? with
    | some ⟨clusterId, _, .pending⟩ => (s.settle p fun _ => .failed).delete clusterId
    | _ => s
  | .goOn i now next => s.goOn i now next
  | .release i now =>
    match s.calls[i]? with
    | some (.leased _ p) => (s.settle p (.update (.release now))).become i .over
    | _ => s

/-! ## References -/

end SessionPool

namespace PoolCall

variable {ω : Type}

def holds (p : Nat) : PoolCall ω → Bool
  | .leased _ dial => decide (dial = p)
  | _ => false

end PoolCall

variable {change : PoolEntry → PoolEntry} {clusterId : String}

namespace SessionPool

variable {ω : Type} {s : SessionPool ω}

/-- An entry counts the leases on it, and only what was opened is leased; of a strict pool, on
the arguments it was dialled with, and not closed. -/
structure Held (strict : Prop) (s : SessionPool ω) : Prop where
  refs : ∀ p entry, s.entry p = some entry → entry.refs = s.calls.countP (PoolCall.holds p)
  opened : ∀ args p, .leased args p ∈ s.calls → ∃ entry, s.entry p = some entry ∧
    (strict → s.args p = some args ∧ entry.closed = false)

theorem outcome_settle (p q : Nat) (change : Outcome → Outcome) :
    (s.settle p change).outcome q =
      if p = q ∧ q < s.dials.length then change (s.outcome q) else s.outcome q := by
  simp only [outcome, settle, List.getElem?_modify]
  by_cases hlt : q < s.dials.length
  · by_cases heq : p = q <;> simp [heq, hlt]
  · simp [hlt]

theorem entry_settle (p q : Nat) (change : PoolEntry → PoolEntry) :
    (s.settle p (.update change)).entry q =
      if p = q then (s.entry q).map change else s.entry q := by
  rw [entry, outcome_settle, entry]
  by_cases hlt : q < s.dials.length
  · simp only [hlt, and_true]
    split
    · cases s.outcome q <;> rfl
    · rfl
  · simp [outcome, hlt, Outcome.entry]

theorem args_settle (p q : Nat) (change : Outcome → Outcome) :
    (s.settle p change).args q = s.args q := by
  simp only [args, settle, List.getElem?_modify]
  split <;> simp [Function.comp_def]

theorem entry_of_outcome {p : Nat} {entry : PoolEntry} (h : s.outcome p = .opened entry) :
    s.entry p = some entry := by
  rw [SessionPool.entry, h]
  rfl

theorem dials_createEntry (i : Nat) (clusterId : String) (args : DialArgs ω) (p : Nat) :
    (s.createEntry i clusterId args).dials[p]? =
      if p = s.dials.length then some ⟨clusterId, args, .pending⟩ else s.dials[p]? := by
  split
  · rename_i heq
    subst heq
    exact List.getElem?_concat_length
  · rw [createEntry, List.getElem?_append]
    split
    · rfl
    · rw [List.getElem?_eq_none (by simp; omega), List.getElem?_eq_none (by omega)]

theorem entry_createEntry (i : Nat) (clusterId : String) (args : DialArgs ω) (p : Nat) :
    (s.createEntry i clusterId args).entry p = s.entry p := by
  rw [entry, outcome, dials_createEntry, entry, outcome]
  split
  · rename_i heq
    subst heq
    rw [List.getElem?_eq_none (Nat.le_refl _)]
    rfl
  · rfl

theorem countP_become {i : Nat} {call call' : PoolCall ω} (hi : s.calls[i]? = some call) (p : Nat) :
    (s.become i call').calls.countP (PoolCall.holds p) + (if call.holds p then 1 else 0) =
      s.calls.countP (PoolCall.holds p) + if call'.holds p then 1 else 0 := by
  obtain ⟨hlt, rfl⟩ := List.getElem?_eq_some_iff.mp hi
  have hpos : s.calls[i].holds p = true → 0 < s.calls.countP (PoolCall.holds p) := fun h =>
    List.countP_pos_iff.mpr ⟨_, List.getElem_mem hlt, h⟩
  have hset := @List.countP_set _ (PoolCall.holds p) s.calls i call' hlt
  rw [become]
  cases hhold : s.calls[i].holds p <;> simp only [hhold] at hpos hset ⊢ <;> grind

namespace Held

variable {strict : Prop} {i p : Nat} {call call' : PoolCall ω} (h : Held strict s)
include h

theorem start (hcall : ∀ p, call.holds p = false) :
    Held strict (s.start call) where
  refs p entry hentry := by
    rw [SessionPool.start, List.countP_append, List.countP_singleton, hcall p]
    exact h.refs p entry hentry
  opened args p hlease := by
    rcases List.mem_append.mp hlease with hlease | hlease
    · exact h.opened args p hlease
    · obtain rfl := List.mem_singleton.mp hlease
      simpa [PoolCall.holds] using hcall p

theorem become (hi : s.calls[i]? = some call)
    (hcall : ∀ p, call.holds p = false) (hcall' : ∀ p, call'.holds p = false) :
    Held strict (s.become i call') where
  refs p entry hentry := by
    have hcount := @countP_become _ s i call call' hi p
    simp only [hcall p, hcall' p, Bool.false_eq_true, if_false, Nat.add_zero] at hcount
    rw [hcount]
    exact h.refs p entry hentry
  opened args p hlease := by
    rcases List.mem_or_eq_of_mem_set hlease with hlease | rfl
    · exact h.opened args p hlease
    · simpa [PoolCall.holds] using hcall' p

theorem delete (clusterId : String) : Held strict (s.delete clusterId) :=
  ⟨h.refs, h.opened⟩

section
variable (hi : s.calls[i]? = some call)
include hi

theorem createEntry (hcall : ∀ p, call.holds p = false) (clusterId : String) (args : DialArgs ω) :
    Held strict (s.createEntry i clusterId args) := by
  have hjoin : Held strict (s.become i (.joining args s.dials.length)) :=
    h.become hi hcall fun _ => rfl
  refine ⟨fun p entry hp => hjoin.refs p entry
    ((entry_createEntry i clusterId args p).symm.trans hp), fun given p hlease => ?_⟩
  obtain ⟨entry, hopened, hstrict⟩ := hjoin.opened given p hlease
  refine ⟨entry, (entry_createEntry i clusterId args p).trans hopened, fun h => ⟨?_, (hstrict h).2⟩⟩
  have hargs := (hstrict h).1
  obtain ⟨dial, hdial, -⟩ := Option.map_eq_some_iff.mp hargs
  have hlt : p < s.dials.length := (List.getElem?_eq_some_iff.mp hdial).1
  rw [SessionPool.args, dials_createEntry, if_neg (Nat.ne_of_lt hlt)]
  exact hargs

theorem exchange
    (hchange : ∀ entry, s.entry p = some entry →
      (change entry).refs + (if call.holds p then 1 else 0) =
        entry.refs + (if call'.holds p then 1 else 0) ∧
      ((change entry).closed = true → entry.closed = true ∨ (change entry).refs = 0))
    (hother : ∀ q, p ≠ q → call.holds q = call'.holds q)
    (htaken : ∀ args q, call' = .leased args q → ∃ entry, s.entry q = some entry ∧
      (strict → s.args q = some args ∧ entry.closed = false)) :
    Held strict ((s.settle p (.update change)).become i call') := by
  have hrefs : ∀ q entry, ((s.settle p (.update change)).become i call').entry q = some entry →
      entry.refs =
        ((s.settle p (.update change)).become i call').calls.countP (PoolCall.holds q) := by
    intro q entry hentry
    have hcount := @countP_become _ (s.settle p (.update change)) i call call' hi q
    change (s.settle p (.update change)).entry q = some entry at hentry
    rw [entry_settle] at hentry
    split at hentry
    · rename_i heq
      subst heq
      obtain ⟨old, hold, rfl⟩ := Option.map_eq_some_iff.mp hentry
      have hrefs : old.refs = (s.settle p (.update change)).calls.countP (PoolCall.holds p) :=
        h.refs p old hold
      have hmoved := (hchange old hold).1
      omega
    · rename_i hne
      rw [hother q hne] at hcount
      rw [h.refs q entry hentry]
      exact (Nat.add_right_cancel hcount).symm
  refine ⟨hrefs, fun args q hlease => ?_⟩
  obtain ⟨entry, hentry, hstrict⟩ : ∃ entry, s.entry q = some entry ∧
      (strict → s.args q = some args ∧ entry.closed = false) := by
    rcases List.mem_or_eq_of_mem_set hlease with hlease | rfl
    · exact h.opened args q hlease
    · exact htaken args q rfl
  have hnew : ((s.settle p (.update change)).become i call').entry q =
      if p = q then some (change entry) else some entry := by
    rw [← Option.map_some, ← hentry]
    exact entry_settle p q change
  have hargs : ((s.settle p (.update change)).become i call').args q = s.args q :=
    args_settle p q _
  split at hnew
  · rename_i heq
    subst heq
    refine ⟨_, hnew, fun h => ⟨hargs.trans (hstrict h).1, ?_⟩⟩
    -- somebody holds it, so it was not closed for want of holders
    have hpos : 0 < (change entry).refs := by
      rw [hrefs p _ hnew]
      exact List.countP_pos_iff.mpr ⟨_, hlease, by simp [PoolCall.holds]⟩
    refine Bool.eq_false_iff.mpr fun hclosed => ?_
    rcases (hchange entry hentry).2 hclosed with hclosed | hzero
    · rw [(hstrict h).2] at hclosed
      cases hclosed
    · omega
  · exact ⟨entry, hnew, fun h => ⟨hargs.trans (hstrict h).1, (hstrict h).2⟩⟩

theorem settle (hrefs : ∀ entry, (change entry).refs = entry.refs)
    (hclosed : ∀ entry, s.entry p = some entry → (change entry).closed = true →
      entry.closed = true ∨ entry.refs = 0) (hcall : ∀ p, call.holds p = false) :
    Held strict (s.settle p (.update change)) := by
  have hsame : (s.settle p (.update change)).become i call = s.settle p (.update change) := by
    obtain ⟨hlt, rfl⟩ := List.getElem?_eq_some_iff.mp hi
    simp only [SessionPool.become, SessionPool.settle, List.set_getElem_self]
  rw [← hsame]
  refine h.exchange hi (fun entry hentry => ⟨?_, ?_⟩) (fun _ _ => rfl) ?_
  · rw [hrefs]
  · rw [hrefs]
    exact hclosed entry hentry
  · rintro args q rfl
    simpa [PoolCall.holds] using hcall q

theorem doom (hcall : ∀ p, call.holds p = false) (p : Nat) :
    Held strict (s.settle p (.update .doom)) :=
  h.settle hi (fun _ => rfl) (fun _ _ hclosed => by simpa [PoolEntry.doom] using hclosed) hcall

end

theorem settled (hpending : s.outcome p = .pending) {outcome : Outcome}
    (hfree : ∀ entry, outcome.entry = some entry → entry.refs = 0) :
    Held strict (s.settle p fun _ => outcome) := by
  have hunheld : ∀ args, .leased args p ∉ s.calls := by
    intro args hlease
    obtain ⟨entry, hopened, -⟩ := h.opened args p hlease
    rw [SessionPool.entry, hpending] at hopened
    cases hopened
  have hentry : ∀ q, (s.settle p fun _ => outcome).entry q = s.entry q ∨
      p = q ∧ (s.settle p fun _ => outcome).entry q = outcome.entry := by
    intro q
    rw [SessionPool.entry, outcome_settle]
    split
    · rename_i heq
      exact .inr ⟨heq.1, rfl⟩
    · exact .inl rfl
  refine ⟨fun q entry hq => ?_, fun args q hlease => ?_⟩
  · rcases hentry q with hsame | ⟨rfl, hnew⟩
    · exact h.refs q entry (hsame ▸ hq)
    · rw [hfree entry (hnew.symm.trans hq)]
      refine (List.countP_eq_zero.mpr fun call hcall hholds => ?_).symm
      cases call <;> simp only [PoolCall.holds, decide_eq_true_eq, Bool.false_eq_true] at hholds
      subst hholds
      exact hunheld _ hcall
  · rcases hentry q with hsame | ⟨rfl, -⟩
    · rw [hsame, args_settle]
      exact h.opened args q hlease
    · exact absurd hlease (hunheld args)

end Held

/-- A call that takes up an entry finds it dialled on its own arguments and not closed. -/
def MayTake (s : SessionPool ω) : PoolEvent ω → Prop
  | .goOn i _ _ => ∀ args p entry, s.calls[i]? = some (.joining args p) →
      s.outcome p = .opened entry → s.args p = some args ∧ entry.closed = false
  | _ => True

section Step
variable {strict : Prop} (h : Held strict s)
include h

theorem held_look {i p : Nat} {args : DialArgs ω}
    (hi : s.calls[i]? = some (.looking clusterId args p)) :
    Held strict (s.look i clusterId args p) := by
  have hdoomed := h.doom hi (fun _ => rfl) p
  unfold look
  split
  · exact h
  · exact (h.delete _).createEntry hi (fun _ => rfl) _ _
  · split_ifs
    · exact h.become hi (fun _ => rfl) fun _ => rfl
    · exact (hdoomed.delete _).become hi (fun _ => rfl) fun _ => rfl
    · exact hdoomed.createEntry hi (fun _ => rfl) _ _

theorem held_join {i p : Nat} {args : DialArgs ω} (now : Int)
    (hi : s.calls[i]? = some (.joining args p))
    (hmay : strict → ∀ entry, s.outcome p = .opened entry →
      s.args p = some args ∧ entry.closed = false) : Held strict (s.join i args p now) := by
  unfold join
  split
  · exact h
  · exact h.become hi (fun _ => rfl) fun _ => rfl
  · rename_i entry houtcome
    refine h.exchange hi ?_ (fun q hne => (decide_eq_false hne).symm) ?_
    · intro entry _
      simp [PoolEntry.take, PoolCall.holds]
    · rintro _ _ ⟨⟩
      exact ⟨entry, entry_of_outcome houtcome, fun hs => hmay hs entry houtcome⟩

theorem held_evictCluster {i p : Nat} (hi : s.calls[i]? = some (.evicting clusterId p)) :
    Held strict (s.evictCluster i clusterId p) := by
  have hdoomed := h.doom hi (fun _ => rfl) p
  unfold evictCluster
  split
  · exact h
  · exact (h.delete _).become hi (fun _ => rfl) fun _ => rfl
  · split_ifs
    · exact (hdoomed.delete _).become hi (fun _ => rfl) fun _ => rfl
    · exact hdoomed.become hi (fun _ => rfl) fun _ => rfl

theorem held_sweepIdle {i p : Nat} {now : Int}
    (hi : s.calls[i]? = some (.visiting now clusterId p)) :
    Held strict (s.sweepIdle i now clusterId p) := by
  unfold sweepIdle
  split
  · exact h
  · exact h.become hi (fun _ => rfl) fun _ => rfl
  · rename_i entry houtcome
    split_ifs with hidle
    · have hfree : entry.refs = 0 := of_decide_eq_true (Bool.and_eq_true_iff.mp hidle).1
      have hclosed : Held strict (s.settle p (.update .close)) := by
        refine h.settle hi (fun _ => rfl) (fun other hother _ => .inr ?_) fun _ => rfl
        obtain rfl := Option.some.inj (hother.symm.trans (entry_of_outcome houtcome))
        exact hfree
      exact (hclosed.delete _).become hi (fun _ => rfl) fun _ => rfl
    · exact h.become hi (fun _ => rfl) fun _ => rfl

theorem held_goOn (i : Nat) (now : Int) (next : Option String)
    (hmay : strict → s.MayTake (.goOn i now next)) : Held strict (s.goOn i now next) := by
  unfold goOn
  split
  · exact held_look h ‹_›
  · exact h.createEntry ‹_› (fun _ => rfl) _ _
  · rename_i args p hi
    exact held_join h now hi fun hs entry => hmay hs args p entry hi
  · exact held_evictCluster h ‹_›
  · split
    · exact h.become ‹_› (fun _ => rfl) fun _ => rfl
    · split
      · exact h.become ‹_› (fun _ => rfl) fun _ => rfl
      · exact h
  · exact held_sweepIdle h ‹_›
  · exact h

theorem held_step (event : PoolEvent ω) (hmay : strict → s.MayTake event) :
    Held strict (s.step event) := by
  cases event <;> dsimp only [step]
  case acquire clusterId args =>
    unfold acquireClusterSession
    split
    · exact h.start fun _ => rfl
    · have hstarted : Held strict (s.start .over) := h.start fun _ => rfl
      exact hstarted.createEntry List.getElem?_concat_length (fun _ => rfl) _ _
  case evict clusterId =>
    split
    · exact h.start fun _ => rfl
    · exact h
  case sweep now => exact h.start fun _ => rfl
  case connected p now =>
    split
    · exact h.settled ‹_› fun entry hentry => (Option.some.inj hentry) ▸ rfl
    · exact h
  case refused p =>
    split
    · rename_i hdial
      have hpending : s.outcome p = .pending := by
        rw [outcome, hdial]
        rfl
      have hfailed : Held strict (s.settle p fun _ => .failed) := h.settled hpending nofun
      exact hfailed.delete _
    · exact h
  case goOn i now next => exact held_goOn h i now next hmay
  case release i now =>
    split
    · rename_i args p hi
      refine h.exchange hi (fun entry hentry => ?_) (fun q hne => decide_eq_false hne) nofun
      have hpos : 0 < entry.refs := by
        rw [h.refs p entry hentry]
        exact List.countP_pos_iff.mpr ⟨_, List.mem_of_getElem? hi, by simp [PoolCall.holds]⟩
      simp only [PoolEntry.release, PoolCall.holds, decide_true, if_true, Bool.or_eq_true,
        Bool.and_eq_true, decide_eq_true_eq, Bool.false_eq_true, if_false]
      exact ⟨by omega, fun hclosed => hclosed.imp id And.right⟩
    · exact h

end Step

def empty : SessionPool ω := ⟨fun _ => none, [], []⟩

theorem held_empty {strict : Prop} : Held strict (empty : SessionPool ω) where
  refs _ _ hentry := nomatch hentry
  opened _ _ hlease := absurd hlease List.not_mem_nil

/-- However the calls are interleaved: an entry counts exactly the leases that are out on its
session, and a dial that opened none has no lease. -/
theorem refs_eq_leases (events : List (PoolEvent ω)) (p : Nat) :
    let s := events.foldl step (empty : SessionPool ω)
    (s.entry p).elim 0 PoolEntry.refs = s.calls.countP (PoolCall.holds p) := by
  intro s
  have h : Held False s :=
    List.foldlRecOn events _ held_empty fun _ h event _ => held_step h event False.elim
  cases hentry : s.entry p with
  | some entry => exact h.refs p entry hentry
  | none =>
    refine (List.countP_eq_zero.mpr fun call hcall hholds => ?_).symm
    cases call <;> simp only [PoolCall.holds, decide_eq_true_eq, Bool.false_eq_true] at hholds
    subst hholds
    obtain ⟨entry, hopened, -⟩ := h.opened _ _ hcall
    simp [hentry] at hopened

end SessionPool

end Indexterity
