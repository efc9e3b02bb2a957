import Indexterity.SessionPool

/-!
# What the pool can still reach

A session that was opened and is not closed is held by a lease or stands in the map, as long as
no call takes another call's promise out of the map. Entries are deleted and replaced by the key
of their cluster, behind an await, so a call has to find there what it has awaited.
-/

namespace Indexterity

open Library

/-- A dial on its way, or an entry that is neither doomed nor closed. -/
def Outcome.live : Outcome → Bool
  | .pending => true
  | .failed => false
  | .opened entry => !entry.doomed && !entry.closed

variable {change : Outcome → Outcome} {entry : PoolEntry}

namespace SessionPool

variable {ω : Type} {s : SessionPool ω}

/-- The cluster an event deletes from the map or sets anew there, and the promise that was
awaited for it. -/
def displaces (s : SessionPool ω) : PoolEvent ω → Option (String × Option Nat)
  | .refused p =>
    match s.dials[p]? with
    | some ⟨clusterId, _, .pending⟩ => some (clusterId, some p)
    | _ => none
  | .goOn i _ _ =>
    match s.calls[i]? with
    | some (.looking clusterId args p) =>
      match s.outcome p with
      | .pending => none
      | .failed => some (clusterId, some p)
      | .opened _ =>
        if (s.args p).map DialArgs.connString = some args.connString then none
        else some (clusterId, some p)
    | some (.replacing clusterId _) => some (clusterId, none)
    | some (.evicting clusterId p) =>
      match s.outcome p with
      | .pending => none
      | .failed => some (clusterId, some p)
      | .opened entry => if entry.refs = 0 then some (clusterId, some p) else none
    | some (.visiting now clusterId p) =>
      match s.outcome p with
      | .opened entry => if isIdle now entry then some (clusterId, some p) else none
      | _ => none
    | _ => none
  | _ => none

/-- What an event takes out of the map is the promise it awaited, or one that failed, is doomed
or is closed. -/
def displacesOwn (s : SessionPool ω) (event : PoolEvent ω) : Bool :=
  (s.displaces event).all fun displaced =>
    (s.entries displaced.1).all fun q =>
      decide (displaced.2 = some q) || !(s.outcome q).live

/-- Every session that was opened and is not closed is held by a lease, or is the entry of its
cluster. -/
def Accounted (s : SessionPool ω) : Prop :=
  ∀ p entry, s.entry p = some entry → entry.closed = false →
    (∃ args, .leased args p ∈ s.calls) ∨
      ∃ dial, s.dials[p]? = some dial ∧ s.entries dial.clusterId = some p

structure Reached (s : SessionPool ω) : Prop where
  current : ∀ p dial, s.dials[p]? = some dial → dial.outcome.live = true →
    s.entries dial.clusterId = some p
  doomed : ∀ p entry, s.entry p = some entry → entry.doomed = true →
    entry.closed = true ∨ 0 < entry.refs

theorem outcome_eq {p : Nat} {dial : Dial ω} (h : s.dials[p]? = some dial) :
    s.outcome p = dial.outcome := by
  rw [outcome, h]
  rfl

namespace Reached

theorem accounted (h : Reached s) (hheld : Held False s) : Accounted s := by
  intro p entry hentry hopen
  cases hdoomed : entry.doomed with
  | true =>
    have hrefs := (h.doomed p entry hentry hdoomed).resolve_left (by simp [hopen])
    rw [hheld.refs p entry hentry] at hrefs
    obtain ⟨call, hcall, hholds⟩ := List.countP_pos_iff.mp hrefs
    cases call <;> simp only [PoolCall.holds, decide_eq_true_eq, Bool.false_eq_true] at hholds
    subst hholds
    exact .inl ⟨_, hcall⟩
  | false =>
    cases hdial : s.dials[p]? with
    | none =>
      rw [SessionPool.entry, outcome, hdial] at hentry
      cases hentry
    | some dial =>
      refine .inr ⟨dial, rfl, h.current p dial hdial ?_⟩
      rw [SessionPool.entry, outcome_eq hdial] at hentry
      cases houtcome : dial.outcome <;> rw [houtcome] at hentry <;> cases hentry
      simp [Outcome.live, hdoomed, hopen]

theorem start (h : Reached s) (call : PoolCall ω) : Reached (s.start call) :=
  ⟨h.current, h.doomed⟩

theorem become (h : Reached s) (i : Nat) (call : PoolCall ω) : Reached (s.become i call) :=
  ⟨h.current, h.doomed⟩

variable {clusterId : String} {p : Nat}

section Displaced
variable (h : Reached s)
  (hdead : ∀ q, s.entries clusterId = some q → (s.outcome q).live = false)
include h hdead

theorem ne_of_live {q : Nat} {dial : Dial ω} (hdial : s.dials[q]? = some dial)
    (hlive : dial.outcome.live = true) : dial.clusterId ≠ clusterId := by
  rintro rfl
  have hdied := hdead q (h.current q dial hdial hlive)
  rw [outcome_eq hdial, hlive] at hdied
  cases hdied

theorem delete : Reached (s.delete clusterId) where
  current q dial hdial hlive :=
    (Function.update_of_ne (h.ne_of_live hdead hdial hlive) _ _).trans
      (h.current q dial hdial hlive)
  doomed := h.doomed

theorem createEntry (i : Nat) (args : DialArgs ω) : Reached (s.createEntry i clusterId args) where
  current q dial hdial hlive := by
    rw [dials_createEntry] at hdial
    split at hdial
    · rename_i heq
      rw [heq, ← Option.some.inj hdial]
      exact Function.update_self ..
    · exact (Function.update_of_ne (h.ne_of_live hdead hdial hlive) _ _).trans
        (h.current q dial hdial hlive)
  doomed q entry hentry := h.doomed q entry ((entry_createEntry i clusterId args q).symm.trans hentry)

end Displaced

theorem settle (h : Reached s) (p : Nat)
    (hlive : (change (s.outcome p)).live = true → (s.outcome p).live = true)
    (hdoomed : ∀ entry, (change (s.outcome p)).entry = some entry → entry.doomed = true →
      entry.closed = true ∨ 0 < entry.refs) : Reached (s.settle p change) where
  current q dial hdial hlived := by
    rw [SessionPool.settle, List.getElem?_modify] at hdial
    obtain ⟨old, hold, rfl⟩ := Option.map_eq_some_iff.mp hdial
    by_cases heq : p = q
    · subst heq
      rw [outcome_eq hold] at hlive
      rw [if_pos rfl] at hlived ⊢
      exact h.current p old hold (hlive hlived)
    · rw [if_neg heq] at hlived ⊢
      exact h.current q old hold hlived
  doomed q entry hentry := by
    rw [SessionPool.entry, outcome_settle] at hentry
    split at hentry
    · rename_i heq
      rw [← heq.1] at hentry
      exact hdoomed entry hentry
    · exact h.doomed q entry hentry

end Reached

section Step
variable {event : PoolEvent ω} {clusterId : String} {p : Nat}

section
variable (hown : s.displacesOwn event = true)
    (hdisplaces : s.displaces event = some (clusterId, some p))
include hown hdisplaces

theorem dead_displaced {s' : SessionPool ω} (hentries : s'.entries = s.entries)
    (hself : (s'.outcome p).live = false) (hother : ∀ q, p ≠ q → s'.outcome q = s.outcome q) :
    ∀ q, s'.entries clusterId = some q → (s'.outcome q).live = false := by
  intro q hq
  rw [hentries] at hq
  by_cases heq : p = q
  · rw [← heq]
    exact hself
  · simpa [displacesOwn, hdisplaces, hq, heq, hother q heq] using hown

theorem dead_settled (hlt : p < s.dials.length) (hself : (change (s.outcome p)).live = false) :
    ∀ q, (s.settle p change).entries clusterId = some q →
      ((s.settle p change).outcome q).live = false :=
  dead_displaced hown hdisplaces rfl
    (by rw [outcome_settle, if_pos ⟨rfl, hlt⟩]; exact hself)
    fun q hne => (outcome_settle p q change).trans (if_neg fun h => hne h.1)

end

theorem lt_of_opened (h : s.outcome p = .opened entry) : p < s.dials.length := by
  by_contra hlt
  rw [outcome, List.getElem?_eq_none (Nat.le_of_not_lt hlt)] at h
  cases h

theorem doomed_dead (h : s.outcome p = .opened entry) :
    ((s.outcome p).update .doom).live = false := by
  simp [h, Outcome.update, Outcome.live, PoolEntry.doom]

variable (h : Reached s)
include h

theorem reached_doom (p : Nat) : Reached (s.settle p (.update .doom)) :=
  h.settle p (by cases s.outcome p <;> simp [Outcome.update, Outcome.live, PoolEntry.doom])
    (by cases s.outcome p <;> simp [Outcome.update, Outcome.entry, PoolEntry.doom]; omega)

section GoOn
variable {i : Nat} {now : Int} {next : Option String} (hown : s.displacesOwn (.goOn i now next) = true)
include hown

theorem reached_look {args : DialArgs ω} (hi : s.calls[i]? = some (.looking clusterId args p)) :
    Reached (s.look i clusterId args p) := by
  unfold look
  split
  · exact h
  · rename_i houtcome
    have hdisplaces : s.displaces (.goOn i now next) = some (clusterId, some p) := by
      simp [displaces, hi, houtcome]
    have hdead := dead_displaced hown hdisplaces rfl (by rw [houtcome]; rfl) fun _ _ => rfl
    exact (h.delete hdead).createEntry (fun q hq => by simp [SessionPool.delete] at hq) i args
  · rename_i entry houtcome
    split_ifs with hsame hfree
    · exact h.become i _
    all_goals
      have hdisplaces : s.displaces (.goOn i now next) = some (clusterId, some p) := by
        simp [displaces, hi, houtcome, hsame]
      have hdead := dead_settled hown hdisplaces (lt_of_opened houtcome) (doomed_dead houtcome)
    · exact ((reached_doom h p).delete hdead).become i _
    · exact (reached_doom h p).createEntry hdead i args

theorem reached_evictCluster (hi : s.calls[i]? = some (.evicting clusterId p)) :
    Reached (s.evictCluster i clusterId p) := by
  unfold evictCluster
  split
  · exact h
  · rename_i houtcome
    have hdisplaces : s.displaces (.goOn i now next) = some (clusterId, some p) := by
      simp [displaces, hi, houtcome]
    exact (h.delete (dead_displaced hown hdisplaces rfl (by rw [houtcome]; rfl)
      fun _ _ => rfl)).become i _
  · rename_i entry houtcome
    split_ifs with hfree
    · have hdisplaces : s.displaces (.goOn i now next) = some (clusterId, some p) := by
        simp [displaces, hi, houtcome, hfree]
      have hdead := dead_settled hown hdisplaces (lt_of_opened houtcome) (doomed_dead houtcome)
      exact ((reached_doom h p).delete hdead).become i _
    · exact (reached_doom h p).become i _

theorem reached_sweepIdle {began : Int} (hi : s.calls[i]? = some (.visiting began clusterId p)) :
    Reached (s.sweepIdle i began clusterId p) := by
  unfold sweepIdle
  split
  · exact h
  · exact h.become i _
  · rename_i entry houtcome
    split_ifs with hidle
    · have hdisplaces : s.displaces (.goOn i now next) = some (clusterId, some p) := by
        simp [displaces, hi, houtcome, hidle]
      have hclosed : Reached (s.settle p (.update .close)) :=
        h.settle p (by simp [houtcome, Outcome.update, Outcome.live, PoolEntry.close])
          (by simp [houtcome, Outcome.update, Outcome.entry, PoolEntry.close])
      have hself : ((s.outcome p).update .close).live = false := by
        simp [houtcome, Outcome.update, Outcome.live, PoolEntry.close]
      have hdead := dead_settled hown hdisplaces (lt_of_opened houtcome) hself
      exact (hclosed.delete hdead).become i _
    · exact h.become i _

theorem reached_goOn : Reached (s.goOn i now next) := by
  unfold goOn
  split
  · exact reached_look h hown ‹_›
  · rename_i clusterId args hi
    refine h.createEntry (fun q hq => ?_) i args
    simpa [displacesOwn, displaces, hi, hq] using hown
  · unfold join
    split
    · exact h
    · exact h.become i _
    · rename_i houtcome
      refine Reached.become (h.settle _ ?_ ?_) i _
      · simp [houtcome, Outcome.update, Outcome.live, PoolEntry.take]
      · simp [houtcome, Outcome.update, Outcome.entry, PoolEntry.take]
  · exact reached_evictCluster h hown ‹_›
  · split
    · exact h.become i _
    · split
      · exact h.become i _
      · exact h
  · exact reached_sweepIdle h hown ‹_›
  · exact h

end GoOn

theorem reached_step (hown : s.displacesOwn event = true) : Reached (s.step event) := by
  cases event <;> dsimp only [step]
  case acquire clusterId args =>
    unfold acquireClusterSession
    split
    · exact h.start _
    · rename_i hnone
      exact (h.start _).createEntry (fun q hq => by simp [SessionPool.start, hnone] at hq) _ args
  case evict clusterId => split <;> [exact h.start _; exact h]
  case sweep now => exact h.start _
  case connected p now =>
    split
    · rename_i hpending
      refine h.settle p (fun _ => by rw [hpending]; rfl) fun entry hentry hdoomed => ?_
      rw [← Option.some.inj hentry] at hdoomed
      cases hdoomed
    · exact h
  case refused p =>
    split
    · rename_i clusterId args hdial
      have hdisplaces : s.displaces (.refused p) = some (clusterId, some p) := by
        simp [displaces, hdial]
      have hfailed : Reached (s.settle p fun _ => .failed) :=
        h.settle p (by simp [Outcome.live]) (by simp [Outcome.entry])
      exact hfailed.delete (dead_settled hown hdisplaces (List.getElem?_eq_some_iff.mp hdial).1 rfl)
    · exact h
  case goOn i now next => exact reached_goOn h hown
  case release i now =>
    split
    · refine Reached.become (h.settle _ ?_ ?_) i _
      · cases s.outcome _ <;> simp +contextual [Outcome.update, Outcome.live, PoolEntry.release]
      · cases s.outcome _ <;> simp [Outcome.update, Outcome.entry, PoolEntry.release]
        grind
    · exact h

end Step

/-- Where every call takes only what it awaited out of the map: at every point, so too at those
with no call in progress, each session that was opened and is not closed is held by a lease or is
the entry of its cluster. -/
theorem sessions_accounted (events : List (PoolEvent ω))
    (hown : Along step (fun s event => s.displacesOwn event = true) empty events) :
    Along step (fun s event => Accounted (s.step event)) empty events := by
  refine @Along.of_inv _ _ step _ _ (fun s => Reached s ∧ Held False s) ?_ ?_ _ _
    ⟨⟨nofun, ?_⟩, held_empty⟩ hown
  · exact fun s event h hown => ⟨reached_step h.1 hown, held_step h.2 event False.elim⟩
  · exact fun s event h hown => (reached_step h.1 hown).accounted (held_step h.2 event False.elim)
  · exact fun p entry hentry => nomatch hentry

/-- A leased session outlives the connection string it was opened with, and is closed by its
release; the next one is evicted. -/
def rotatedString : List (PoolEvent Unit) :=
  [.acquire "c" ⟨"s", ()⟩, .connected 0 0, .goOn 0 0 none, .acquire "c" ⟨"t", ()⟩, .goOn 1 0 none,
    .connected 1 0, .goOn 1 0 none, .release 0 0, .release 1 0, .evict "c", .goOn 2 0 none]

theorem rotatedString_accounted :
    Along step (fun s event => Accounted (s.step event)) empty rotatedString :=
  sessions_accounted rotatedString (by decide)

def rotatedTwice : List (PoolEvent Unit) :=
  [.acquire "c" ⟨"s", ()⟩, .connected 0 0, .goOn 0 0 none, .release 0 0, .acquire "c" ⟨"t", ()⟩,
    .acquire "c" ⟨"t", ()⟩, .goOn 1 0 none, .goOn 2 0 none, .goOn 1 0 none, .goOn 2 0 none,
    .connected 1 0, .connected 2 0, .goOn 1 0 none, .goOn 2 0 none, .release 1 0, .release 2 0]

/-- All calls are over and all leases released, and the session that was replaced in the map is
open and held by nobody. -/
theorem rotatedTwice_loses_session :
    let s := rotatedTwice.foldl step empty
    s.calls = [.over, .over, .over] ∧ s.entry 1 = some ⟨0, 0, false, false⟩ ∧
      s.entries "c" = some 2 := by
  decide

end SessionPool

end Indexterity
