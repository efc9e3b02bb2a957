import Indexterity.SessionPool

/-!
# Leases on the session that was asked for

The pool compares the connection string of a call with the one of the entry it finds, once and
ahead of an await. A lease is therefore on the session its call asks for where two things hold of
the schedule: the options of a cluster change only together with its connection string, and no
call is on its way to an entry while another dooms or closes it.
-/

namespace Indexterity

open Library

@[simp] theorem Outcome.entry_update (change : PoolEntry → PoolEntry) (outcome : Outcome) :
    (outcome.update change).entry = outcome.entry.map change := by
  cases outcome <;> rfl

namespace SessionPool

variable {ω : Type} {s : SessionPool ω}

/-- Every lease that is not released yet is on a session opened with the arguments of its call
and not closed. -/
def LeasesKept (s : SessionPool ω) : Prop :=
  ∀ args p, .leased args p ∈ s.calls → ∃ entry, s.entry p = some entry ∧ s.args p = some args ∧
    entry.closed = false

def cluster (s : SessionPool ω) (p : Nat) : Option String := s.dials[p]?.map Dial.clusterId

/-- A call on its way to the entry of a dial: it has found the entry in the map and asks for its
connection string, or awaits the entry to take it up. -/
def heads (s : SessionPool ω) (p : Nat) : PoolCall ω → Bool
  | .looking _ args q =>
    decide (q = p ∧ (s.args p).map DialArgs.connString = some args.connString)
  | .joining _ q => decide (q = p)
  | _ => false

/-- The dial whose entry a call dooms or closes as it goes on. -/
def discards (s : SessionPool ω) (i : Nat) : Option Nat :=
  match s.calls[i]? with
  | some (.looking _ args p) =>
    if (s.args p).map DialArgs.connString = some args.connString then none else some p
  | some (.evicting _ p) => some p
  | some (.visiting now _ p) => if (s.entry p).any (isIdle now) then some p else none
  | _ => none

/-- No call is on its way to an entry that is doomed or closed, and none sets out to one that was
evicted under a lease and so is still in the map. -/
def Undisturbed (s : SessionPool ω) : PoolEvent ω → Prop
  | .acquire clusterId args => ∀ p ∈ s.entries clusterId,
      s.heads p (.looking clusterId args p) = true → ∀ entry ∈ s.entry p, entry.doomed = false
  | .goOn i _ _ => ∀ p ∈ s.discards i, (s.entry p).isSome = true →
      ∀ call ∈ s.calls, s.heads p call = false
  | _ => True

/-- A cluster is reached by the options that belong to its connection string. -/
def RoutedBy (route : String → String → ω) : PoolEvent ω → Prop
  | .acquire clusterId args => args.options = route clusterId args.connString
  | _ => True

instance (event : PoolEvent ω) : Decidable (s.Undisturbed event) := by
  cases event <;> unfold Undisturbed <;> infer_instance

instance [DecidableEq ω] (route : String → String → ω) (event : PoolEvent ω) :
    Decidable (RoutedBy route event) := by
  cases event <;> unfold RoutedBy <;> infer_instance

variable {route : String → String → ω}

def FairCall (route : String → String → ω) (s : SessionPool ω) : PoolCall ω → Prop
  | .looking clusterId args p =>
    args.options = route clusterId args.connString ∧ s.cluster p = some clusterId
  | .replacing clusterId args => args.options = route clusterId args.connString
  | .joining args p => s.args p = some args
  | .visiting _ clusterId p => s.cluster p = some clusterId
  | _ => True

/-- What a call is on its way to was dialled as the call asks, and is neither doomed nor closed. -/
structure Fair (route : String → String → ω) (s : SessionPool ω) : Prop where
  dialled : ∀ dial ∈ s.dials, dial.args.options = route dial.clusterId dial.args.connString
  mapped : ∀ clusterId p, s.entries clusterId = some p → s.cluster p = some clusterId ∧
    ∀ entry ∈ s.entry p, entry.closed = true → entry.doomed = true
  called : ∀ call ∈ s.calls, s.FairCall route call
  fit : ∀ call ∈ s.calls, ∀ p, s.heads p call = true → ∀ entry ∈ s.entry p,
    entry.doomed = false ∧ entry.closed = false

theorem cluster_settle (p q : Nat) (change : Outcome → Outcome) :
    (s.settle p change).cluster q = s.cluster q := by
  simp only [cluster, settle, List.getElem?_modify]
  split <;> simp [Function.comp_def]

theorem mem_entry_settle {p q : Nat} {change : Outcome → Outcome} {entry : PoolEntry}
    (h : entry ∈ (s.settle p change).entry q) :
    entry ∈ s.entry q ∧ p ≠ q ∨ p = q ∧ entry ∈ (change (s.outcome p)).entry := by
  rw [SessionPool.entry, outcome_settle] at h
  split at h
  · rename_i heq
    exact .inr ⟨heq.1, heq.1 ▸ h⟩
  · rename_i hne
    refine .inl ⟨h, ?_⟩
    rintro rfl
    -- beyond the last dial there is no entry
    have hnone : s.dials[p]? = none := List.getElem?_eq_none (by simpa using hne)
    rw [outcome, hnone] at h
    cases h

namespace Fair

variable {i p : Nat} {clusterId : String} {args : DialArgs ω} {call : PoolCall ω}
  (h : Fair route s)
include h

theorem start (hcall : s.FairCall route call)
    (hfit : ∀ p, s.heads p call = true → ∀ entry ∈ s.entry p,
      entry.doomed = false ∧ entry.closed = false) : Fair route (s.start call) where
  dialled := h.dialled
  mapped := h.mapped
  called other hother := by
    rcases List.mem_append.mp hother with hother | hother
    · exact h.called other hother
    · exact List.mem_singleton.mp hother ▸ hcall
  fit other hother := by
    rcases List.mem_append.mp hother with hother | hother
    · exact h.fit other hother
    · exact List.mem_singleton.mp hother ▸ hfit

theorem become (i : Nat) (hcall : s.FairCall route call)
    (hfit : ∀ p, s.heads p call = true → ∀ entry ∈ s.entry p,
      entry.doomed = false ∧ entry.closed = false) : Fair route (s.become i call) where
  dialled := h.dialled
  mapped := h.mapped
  called other hother := (List.mem_or_eq_of_mem_set hother).elim (h.called other) (· ▸ hcall)
  fit other hother := (List.mem_or_eq_of_mem_set hother).elim (h.fit other) (· ▸ hfit)

theorem delete (clusterId : String) : Fair route (s.delete clusterId) where
  dialled := h.dialled
  mapped other p hother := by
    by_cases heq : other = clusterId
    · simp [SessionPool.delete, heq] at hother
    · exact h.mapped other p ((Function.update_of_ne heq _ _).symm.trans hother)
  called := h.called
  fit := h.fit

theorem settle {change : Outcome → Outcome}
    (hmapped : ∀ clusterId, s.entries clusterId = some p →
      ∀ entry ∈ (change (s.outcome p)).entry, entry.closed = true → entry.doomed = true)
    (hfit : ∀ call ∈ s.calls, s.heads p call = true → ∀ entry ∈ (change (s.outcome p)).entry,
      entry.doomed = false ∧ entry.closed = false) : Fair route (s.settle p change) where
  dialled dial hdial := by
    obtain ⟨q, hq⟩ := List.getElem?_of_mem hdial
    rw [SessionPool.settle, List.getElem?_modify] at hq
    obtain ⟨old, hold, rfl⟩ := Option.map_eq_some_iff.mp hq
    have hrouted := h.dialled old (List.mem_of_getElem? hold)
    split <;> exact hrouted
  mapped clusterId q hq := by
    refine ⟨(cluster_settle p q change).trans (h.mapped clusterId q hq).1, fun entry hentry => ?_⟩
    rcases mem_entry_settle hentry with ⟨hsame, -⟩ | ⟨rfl, hnew⟩
    · exact (h.mapped clusterId q hq).2 entry hsame
    · exact hmapped clusterId hq entry hnew
  called call hcall := by
    have hfair := h.called call hcall
    cases call <;> simp only [FairCall, cluster_settle, args_settle] at hfair ⊢ <;> exact hfair
  fit call hcall q hheads entry hentry := by
    have hheads : s.heads q call = true := by
      cases call <;> simpa only [heads, args_settle] using hheads
    rcases mem_entry_settle hentry with ⟨hsame, -⟩ | ⟨rfl, hnew⟩
    · exact h.fit call hcall q hheads entry hsame
    · exact hfit call hcall hheads entry hnew

theorem createEntry (i : Nat) (hroute : args.options = route clusterId args.connString) :
    Fair route (s.createEntry i clusterId args) := by
  have hstays : ∀ {α : Type} (f : Dial ω → α) {q : Nat} {a : α}, s.dials[q]?.map f = some a →
      (s.createEntry i clusterId args).dials[q]?.map f = some a := by
    intro α f q a hq
    obtain ⟨dial, hdial, -⟩ := Option.map_eq_some_iff.mp hq
    have hlt : q < s.dials.length := (List.getElem?_eq_some_iff.mp hdial).1
    rw [dials_createEntry, if_neg (Nat.ne_of_lt hlt), hq]
  have hnew : (s.createEntry i clusterId args).dials[s.dials.length]? =
      some ⟨clusterId, args, .pending⟩ := by
    rw [dials_createEntry, if_pos rfl]
  have hfresh : s.entry s.dials.length = none := by
    rw [SessionPool.entry, outcome, List.getElem?_eq_none (Nat.le_refl _)]
    rfl
  refine ⟨fun dial hdial => ?_, fun other q hq => ?_, fun call hcall => ?_,
    fun call hcall q hheads entry hentry => ?_⟩
  · rcases List.mem_append.mp hdial with hdial | hdial
    · exact h.dialled dial hdial
    · rw [List.mem_singleton.mp hdial]
      exact hroute
  · rw [entry_createEntry]
    by_cases heq : other = clusterId
    · subst heq
      obtain rfl : s.dials.length = q := by
        simpa [SessionPool.createEntry] using hq
      rw [hfresh]
      exact ⟨by rw [cluster, hnew]; rfl, by simp⟩
    · have hold := h.mapped other q ((Function.update_of_ne heq _ _).symm.trans hq)
      exact ⟨hstays _ hold.1, hold.2⟩
  · rcases List.mem_or_eq_of_mem_set hcall with hcall | rfl
    · have hfair := h.called call hcall
      cases call
      case looking => exact ⟨hfair.1, hstays _ hfair.2⟩
      case joining => exact hstays _ hfair
      case visiting => exact hstays _ hfair
      all_goals exact hfair
    · rw [FairCall, SessionPool.args, hnew]
      rfl
  · rw [entry_createEntry] at hentry
    by_cases heq : q = s.dials.length
    · rw [heq, hfresh] at hentry
      cases hentry
    · have hargs : (s.createEntry i clusterId args).args q = s.args q := by
        rw [SessionPool.args, dials_createEntry, if_neg heq, SessionPool.args]
      rcases List.mem_or_eq_of_mem_set hcall with hcall | rfl
      · refine h.fit call hcall q ?_ entry hentry
        cases call <;> simpa only [heads, hargs] using hheads
      · exact absurd (of_decide_eq_true hheads).symm heq

end Fair

section Step
variable {i p : Nat} {clusterId : String} {args : DialArgs ω} (h : Fair route s)
include h

/-- Nobody is on the way to the entry, so it may be doomed. -/
theorem fair_doom (hfree : (s.entry p).isSome = true → ∀ call ∈ s.calls, s.heads p call = false) :
    Fair route (s.settle p (.update .doom)) := by
  refine h.settle (fun _ _ entry hentry _ => ?_) fun call hcall hheads entry hentry => ?_
  · rw [Outcome.entry_update] at hentry
    obtain ⟨old, -, rfl⟩ := Option.map_eq_some_iff.mp hentry
    rfl
  · rw [Outcome.entry_update] at hentry
    obtain ⟨old, hold, -⟩ := Option.map_eq_some_iff.mp hentry
    have hsome : (s.entry p).isSome = true := Option.isSome_iff_exists.mpr ⟨old, hold⟩
    simp [hfree hsome call hcall] at hheads

/-- A change that dooms nothing, and closes only what is doomed. -/
theorem fair_update {change : PoolEntry → PoolEntry}
    (hdoomed : ∀ entry, (change entry).doomed = entry.doomed)
    (hclosed : ∀ entry, (change entry).closed = true → entry.closed = true ∨ entry.doomed = true) :
    Fair route (s.settle p (.update change)) := by
  refine h.settle (fun clusterId hp entry hentry hclose => ?_) fun call hcall hheads entry hentry => ?_
  all_goals
    rw [Outcome.entry_update] at hentry
    obtain ⟨old, hold, rfl⟩ := Option.map_eq_some_iff.mp hentry
    rw [hdoomed]
  · exact (hclosed old hclose).elim ((h.mapped clusterId p hp).2 old hold) id
  · obtain ⟨hnot, hopen⟩ := h.fit call hcall p hheads old hold
    refine ⟨hnot, Bool.eq_false_iff.mpr fun hclose => ?_⟩
    rcases hclosed old hclose with hclose | hdoom
    · simp [hopen] at hclose
    · simp [hnot] at hdoom

theorem fair_look (hi : s.calls[i]? = some (.looking clusterId args p))
    (hfree : ∀ q ∈ s.discards i, (s.entry q).isSome = true → ∀ call ∈ s.calls,
      s.heads q call = false) : Fair route (s.look i clusterId args p) := by
  have hin := List.mem_of_getElem? hi
  obtain ⟨hroute, hcluster⟩ := h.called _ hin
  unfold look
  split
  · exact h
  · exact (h.delete _).createEntry i hroute
  · split_ifs with hsame hrefs
    · refine h.become i ?_ fun q hheads => h.fit _ hin q ?_
      · -- the dial is of the same cluster and string, so of the same options
        obtain ⟨dial, hdial, hof⟩ := Option.map_eq_some_iff.mp hcluster
        rw [SessionPool.args, hdial] at hsame
        have hstring : dial.args.connString = args.connString := Option.some.inj hsame
        have hoptions : dial.args.options = args.options := by
          rw [h.dialled dial (List.mem_of_getElem? hdial), hof, hstring, hroute]
        rw [FairCall, SessionPool.args, hdial, Option.map_some]
        exact congrArg some (DialArgs.ext hstring hoptions)
      · obtain rfl := of_decide_eq_true hheads
        exact decide_eq_true ⟨rfl, hsame⟩
    all_goals
      have hdoomed := fair_doom h (hfree p (by simp [discards, hi, hsame]))
    · exact (hdoomed.delete _).become i hroute fun _ hheads => absurd hheads Bool.false_ne_true
    · exact hdoomed.createEntry i hroute

theorem fair_evictCluster (hi : s.calls[i]? = some (.evicting clusterId p))
    (hfree : ∀ q ∈ s.discards i, (s.entry q).isSome = true → ∀ call ∈ s.calls,
      s.heads q call = false) : Fair route (s.evictCluster i clusterId p) := by
  have hdoomed := fair_doom h (hfree p (by simp [discards, hi]))
  unfold evictCluster
  split
  · exact h
  · exact (h.delete _).become i trivial nofun
  · split_ifs
    · exact (hdoomed.delete _).become i trivial nofun
    · exact hdoomed.become i trivial nofun

theorem fair_sweepIdle {now : Int} (hi : s.calls[i]? = some (.visiting now clusterId p))
    (hfree : ∀ q ∈ s.discards i, (s.entry q).isSome = true → ∀ call ∈ s.calls,
      s.heads q call = false) : Fair route (s.sweepIdle i now clusterId p) := by
  have hcluster : s.cluster p = some clusterId := h.called _ (List.mem_of_getElem? hi)
  unfold sweepIdle
  split
  · exact h
  · exact h.become i trivial nofun
  · rename_i entry houtcome
    have hentry := entry_of_outcome houtcome
    split_ifs with hidle
    · have hunheaded := hfree p (by simp [discards, hi, hentry, hidle]) (by simp [hentry])
      have hclosed : Fair route ((s.delete clusterId).settle p (.update .close)) := by
        refine (h.delete clusterId).settle (fun other hother => ?_) fun call hcall hheads => ?_
        · -- the entry stood in the map under its own cluster alone
          obtain rfl : other = clusterId :=
            Option.some.inj (((h.delete clusterId).mapped other p hother).1.symm.trans hcluster)
          simp [SessionPool.delete] at hother
        · have hnone : s.heads p call = false := hunheaded call hcall
          exact absurd (hnone.symm.trans hheads) (by simp)
      exact hclosed.become i trivial nofun
    · exact h.become i trivial nofun

theorem fair_goOn {now : Int} {next : Option String}
    (hfree : s.Undisturbed (.goOn i now next)) : Fair route (s.goOn i now next) := by
  unfold goOn
  split
  · exact fair_look h ‹_› hfree
  · rename_i clusterId args hi
    exact h.createEntry i (h.called _ (List.mem_of_getElem? hi))
  · unfold join
    split
    · exact h
    · exact h.become i trivial nofun
    · refine Fair.become ?_ i trivial nofun
      exact fair_update h (fun _ => rfl) fun _ => .inl
  · exact fair_evictCluster h ‹_› hfree
  · split
    · exact h.become i trivial nofun
    · split
      · rename_i hp
        exact h.become i (h.mapped _ _ hp).1 nofun
      · exact h
  · exact fair_sweepIdle h ‹_› hfree
  · exact h

theorem fair_step {event : PoolEvent ω} (hroute : RoutedBy route event)
    (hfree : s.Undisturbed event) : Fair route (s.step event) := by
  cases event <;> dsimp only [step]
  case acquire clusterId args =>
    unfold acquireClusterSession
    split
    · rename_i p hp
      refine h.start ⟨hroute, (h.mapped _ _ hp).1⟩ fun q hheads entry hentry => ?_
      obtain rfl : p = q := (of_decide_eq_true hheads).1
      have hnot := hfree p hp hheads entry hentry
      refine ⟨hnot, Bool.eq_false_iff.mpr fun hclosed => ?_⟩
      simp [(h.mapped _ _ hp).2 entry hentry hclosed] at hnot
    · have hstarted : Fair route (s.start .over) := h.start trivial nofun
      exact hstarted.createEntry _ hroute
  case evict clusterId =>
    split
    · exact h.start trivial nofun
    · exact h
  case sweep now => exact h.start trivial nofun
  case connected p now =>
    split
    · refine h.settle (fun _ _ entry hentry hclosed => ?_) fun _ _ _ entry hentry => ?_
      · obtain rfl := Option.some.inj hentry
        cases hclosed
      · obtain rfl := Option.some.inj hentry
        exact ⟨rfl, rfl⟩
    · exact h
  case refused p =>
    split
    · have hfailed : Fair route (s.settle p fun _ => .failed) := h.settle nofun nofun
      exact hfailed.delete _
    · exact h
  case goOn i now next => exact fair_goOn h hfree
  case release i now =>
    split
    · refine Fair.become ?_ i trivial nofun
      refine fair_update h (fun _ => rfl) fun entry hclosed => ?_
      simp only [PoolEntry.release, Bool.or_eq_true, Bool.and_eq_true] at hclosed
      exact hclosed.imp id And.left
    · exact h

theorem mayTake_of_fair (event : PoolEvent ω) : s.MayTake event := by
  cases event <;> try trivial
  rename_i i now next
  intro args p entry hi houtcome
  have hin := List.mem_of_getElem? hi
  exact ⟨h.called _ hin, (h.fit _ hin p (decide_eq_true rfl) entry (entry_of_outcome houtcome)).2⟩

end Step

/-- Where the options of each cluster are those of its connection string, and no call is on its way
to an entry as it is doomed or closed, every lease is on an open session dialled with exactly what
its call asked for. -/
theorem leases_kept (route : String → String → ω) (events : List (PoolEvent ω))
    (hcalm : Along step (fun s event => RoutedBy route event ∧ s.Undisturbed event) empty events) :
    Along step (fun s event => LeasesKept (s.step event)) empty events := by
  refine @Along.of_inv _ _ step _ _ (fun s => Fair route s ∧ Held True s) ?_ ?_ _ _
    ⟨⟨nofun, nofun, nofun, nofun⟩, held_empty⟩ hcalm
  · exact fun s event h hcalm => ⟨fair_step h.1 hcalm.1 hcalm.2,
      held_step h.2 event fun _ => mayTake_of_fair h.1 event⟩
  · intro s event h _ args p hlease
    have hheld := held_step h.2 event fun _ => mayTake_of_fair h.1 event
    obtain ⟨entry, hentry, hstrict⟩ := hheld.opened args p hlease
    exact ⟨entry, hentry, hstrict trivial⟩

/-- The cluster moves behind a tunnel together with its connection string while it is leased, and
is evicted once both leases are released. -/
def movedLease : List (PoolEvent (Option String)) :=
  [.acquire "c" ⟨"s", none⟩, .connected 0 0, .goOn 0 0 none, .acquire "c" ⟨"t", some "tunnel"⟩,
    .goOn 1 0 none, .connected 1 0, .goOn 1 0 none, .release 0 0, .release 1 0, .evict "c",
    .goOn 2 0 none]

theorem movedLease_kept :
    Along step (fun s event => LeasesKept (s.step event)) empty movedLease :=
  leases_kept (fun _ connString => if connString = "t" then some "tunnel" else none) movedLease
    (by decide)

/-! ## Leases lost -/

/-- One session through a cluster's first connection string: a lease is taken and released, and
behind it the route of the cluster changes. -/
def reroutedLease : List (PoolEvent (Option String)) :=
  [.acquire "c" ⟨"s", none⟩, .connected 0 0, .goOn 0 0 none, .release 0 0,
    .acquire "c" ⟨"s", some "tunnel"⟩, .goOn 1 0 none, .goOn 1 0 none]

/-- A cluster is evicted while its session is leased, and leased again once that is released. -/
def evictedLease : List (PoolEvent (Option String)) :=
  [.acquire "c" ⟨"s", none⟩, .connected 0 0, .goOn 0 0 none, .evict "c", .goOn 1 0 none,
    .release 0 0, .acquire "c" ⟨"s", none⟩, .goOn 2 0 none, .goOn 2 0 none]

/-- The one is handed the session of the old route, the other a session that is closed. -/
theorem leases_not_kept :
    let rerouted := reroutedLease.foldl step empty
    let evicted := evictedLease.foldl step empty
    (.leased ⟨"s", some "tunnel"⟩ 0 ∈ rerouted.calls ∧ rerouted.args 0 = some ⟨"s", none⟩) ∧
      .leased ⟨"s", none⟩ 0 ∈ evicted.calls ∧ evicted.entry 0 = some ⟨1, 0, true, true⟩ := by
  decide

end SessionPool

end Indexterity
