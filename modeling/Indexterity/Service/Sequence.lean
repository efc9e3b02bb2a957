import Indexterity.Service.Order

/-!
# Service: one task after another

What happens to a cluster while no two tasks overlap: tasks run, each told call by call what
it hears, up to its end or to where its process stops; builds that were scheduled run by
themselves; somebody else changes the indexes of a collection. A property of single events
holds along a sequence where it holds of each event in the state the event finds.
-/

namespace Indexterity.Service

open Library Program

inductive Event where
  /-- A task, with the replies it gets before it ends or stops. -/
  | turn (task : Task) (replies : List Reply)
  /-- A scheduled build runs. -/
  | jobRun (job : Job) (succeeds : Bool)
  /-- A collection's indexes, and the invalid ones among them, as somebody else leaves them. -/
  | outside (database collection : String) (live : List IndexSpec) (invalid : List String)

abbrev Call := World × Op × Reply

abbrev Call.after (c : Call) : World := machine.after c.1 c.2.1 c.2.2

namespace Event

def calls (s : World) : Event → List Call
  | .turn task replies => Program.calls machine replies task.program s
  | .jobRun _ _ | .outside _ _ _ _ => []

def after (s : World) : Event → World
  | .turn task replies => (run machine replies task.program s).2
  | .jobRun job succeeds => if job ∈ s.jobs then s.jobRuns job succeeds else s
  | .outside database collection live invalid =>
    { s with
      indexes := fun d c => if d = database ∧ c = collection then live else s.indexes d c
      invalid :=
        invalid.map (fun name => (database, collection, name)) ++
          s.invalid.filter fun index => decide ((index.1, index.2.1) ≠ (database, collection)) }

def isOver (s : World) : Event → Bool
  | .turn task replies => (run machine replies task.program s).1.isOver
  | .jobRun _ _ | .outside _ _ _ _ => true

end Event

def runEvents (s : World) (events : List Event) : World := events.foldl Event.after s

def Along (wanted : World → Event → Prop) : World → List Event → Prop
  | _, [] => True
  | s, event :: events => wanted s event ∧ Along wanted (event.after s) events

def AlongCalls (wanted : Call → Prop) : World → List Event → Prop :=
  Along fun s event => ∀ c ∈ event.calls s, wanted c

/-! ## Rules -/

section Rules
variable {wanted wanted' : World → Event → Prop} {Inv : World → Prop} {s : World}
variable {events : List Event}

theorem Along.run (h : Along wanted s events) (hinv : Inv s)
    (hstep : ∀ s event, Inv s → wanted s event → Inv (event.after s)) :
    Inv (runEvents s events) := by
  induction events generalizing s with
  | nil => exact hinv
  | cons event events ih => exact ih h.2 (hstep s event hinv h.1)

theorem along_congr (h : ∀ s event, wanted s event ↔ wanted' s event) :
    Along wanted s events ↔ Along wanted' s events := by
  induction events generalizing s with
  | nil => rfl
  | cons event events ih => exact and_congr (h s event) ih

end Rules

variable {c : Call} {event : Event} {replies : List Reply} {phase : Phase}

section Turns
variable {Inv : Account → Prop} {granted : World → Op → Reply → Prop} {s : World}

def Preserved (Inv : Account → Prop) (granted : World → Op → Reply → Prop) : Prop :=
  ∀ k op reply, Inv k → Allowed k.world k.phase op → granted k.world op reply →
    Inv (protocol.effect k op (k.world.answer op reply))

section
variable (h : Preserved Inv granted)
include h

theorem Preserved.accountsFor :
    AccountsFor protocol machine (fun k s => k.world = s ∧ Inv k) granted := by
  rintro k s op reply ⟨rfl, hinv⟩ hallowed hgranted
  exact ⟨⟨reply, rfl⟩, rfl, h k op reply hinv hallowed hgranted⟩

theorem Preserved.turn (hinv : Inv ⟨s, .idle⟩) {task : Task}
    (hgranted : ∀ c ∈ (Event.turn task replies).calls s, granted c.1 c.2.1 c.2.2) :
    ∃ phase, Inv ⟨(Event.turn task replies).after s, phase⟩ ∧
      (run machine replies task.program s).1.Keeps protocol Ends
        ⟨(Event.turn task replies).after s, phase⟩ := by
  obtain ⟨⟨s', phase⟩, ⟨hworld, hafter⟩, hleft⟩ :=
    (keeps_task task).run h.accountsFor ⟨rfl, hinv⟩ hgranted
  obtain rfl : s' = (Event.turn task replies).after s := hworld
  exact ⟨phase, hafter, hleft⟩

theorem Preserved.calls (hinv : Inv ⟨s, .idle⟩)
    (hgranted : ∀ c ∈ event.calls s, granted c.1 c.2.1 c.2.2) :
    ∀ c ∈ event.calls s, ∃ phase, Inv ⟨c.1, phase⟩ ∧ Allowed c.1 phase c.2.1 := by
  cases event with
  | turn task replies =>
    intro c hc
    obtain ⟨⟨s', phase⟩, ⟨hworld, hk⟩, hallowed⟩ :=
      (keeps_task task).calls h.accountsFor ⟨rfl, hinv⟩ hgranted c hc
    obtain rfl : s' = c.1 := hworld
    exact ⟨phase, hk, hallowed⟩
  | jobRun job succeeds => exact fun _ hc => absurd hc List.not_mem_nil
  | outside database collection live invalid => exact fun _ hc => absurd hc List.not_mem_nil

end

theorem allowed_of_mem_calls (hc : c ∈ event.calls s) : ∃ phase, Allowed c.1 phase c.2.1 := by
  have htrivial : Preserved (fun _ => True) fun _ _ _ => True := fun _ _ _ _ _ _ => trivial
  obtain ⟨phase, -, hallowed⟩ := htrivial.calls trivial (fun _ _ => trivial) c hc
  exact ⟨phase, hallowed⟩

theorem inRole_of_mem_calls {task : Task} (hc : c ∈ (Event.turn task replies).calls s) :
    InRole task.role c.2.1 :=
  (inRole_task task).calls c hc

end Turns

/-! ## Calls still to come -/

/-- The first calls of a list, as many as told, are made and go through. -/
def GoesOn (n : Nat) (calls : List Call) : Prop :=
  n ≤ calls.length ∧ ∀ c ∈ calls.take n, c.2.2.error = none
  deriving Decidable

theorem goesOn_zero (calls : List Call) : GoesOn 0 calls := by simp [GoesOn]

theorem goesOn_cons {n : Nat} {rest : List Call} :
    GoesOn (n + 1) (c :: rest) ↔ c.2.2.error = none ∧ GoesOn n rest := by
  simp only [GoesOn, List.length_cons, Nat.add_le_add_iff_right, List.take_succ_cons,
    List.forall_mem_cons]
  exact and_left_comm

theorem keeps_run_rest {α : Type} {Inv : Account → List Call → Prop}
    {post : Except Thrown α → Account → Prop}
    (hstep : ∀ k op reply rest, Inv k ((k.world, op, reply) :: rest) →
      Allowed k.world k.phase op → Inv (protocol.effect k op (k.world.answer op reply)) rest)
    (replies : List Reply) {program : Prog α} {k : Account}
    (hkeeps : program.Keeps protocol post k) (h : Inv k (calls machine replies program k.world)) :
    ∃ phase, Inv ⟨(run machine replies program k.world).2, phase⟩ [] ∧
      (run machine replies program k.world).1.Keeps protocol post
        ⟨(run machine replies program k.world).2, phase⟩ := by
  induction replies generalizing program k with
  | nil => exact ⟨k.phase, h, hkeeps⟩
  | cons reply replies ih =>
    cases program with
    | done value => exact ⟨k.phase, h, hkeeps⟩
    | raise error => exact ⟨k.phase, h, hkeeps⟩
    | call op next => exact ih (hkeeps.2 _ ⟨reply, rfl⟩) (hstep k op reply _ h hkeeps.1)

theorem table_jobRuns (s : World) (job : Job) (succeeds : Bool) :
    (s.jobRuns job succeeds).table = s.table := by
  unfold World.jobRuns
  split
  · cases succeeds <;> rfl
  · rfl

/-! ## A small cluster -/

def plainRow (type : RecommendationType) (state : RecommendationState) : Recommendation where
  id := "r"
  database := "d"
  collection := "c"
  target := ⟨type, "a_1", none⟩
  state := state
  hiddenAt := none
  observeDays := none
  baselineReadOps := none
  baselineReadLatency := none
  baselineFailedOps := none
  baselineFailedReachMs := none
  targetSpec := none
  urgent := false
  score := 60
  evidenceDays := none
  estimatedBytesSaved := 100
  builtAt := none
  baselineWriteOps := none
  baselineWriteLatency := none

def plainIndex (name : String) (keys : List IndexKey) : IndexSpec :=
  ⟨name, keys, false, false, false, none, false, false, false, none, []⟩

def plainWorld (canHide : Bool) (row : Recommendation) (live : List IndexSpec) : World where
  orgId := "o"
  canHide := canHide
  sharers _ := []
  table := ⟨[row], List.nodup_singleton _⟩
  actions := []
  roi := []
  indexes d c := if d = "d" ∧ c = "c" then live else []
  invalid := []
  jobs := []
  log := []

def plainReply : Reply where
  error := none
  now := 0
  settings := ⟨none, none, 0, 0, []⟩
  readOnly := false
  observedDatabases := none
  watches := []
  listed := false
  hinted := []
  usage _ := 0
  latency := ⟨0, 0⟩
  failedOps := (.NO_SOURCE "", 0)
  readings := []
  windowDays := 7
  noted := false
  outcome := .BUILT
  cronUsable := true
  cronRun := none
  unscheduled := true
  newId := "new"

def lateReply : Reply :=
  { plainReply with
    now := 100 * DAY_MS
    settings := ⟨none, none, 100 * DAY_MS, 100 * DAY_MS, []⟩ }

def hiddenIndex : IndexSpec := { plainIndex "a_1" [⟨"a", .asc⟩] with hidden := true }

def hiddenRow : Recommendation :=
  { plainRow .DROP_UNUSED .HIDDEN with hiddenAt := some 0, observeDays := some 7 }

def approvedWorld : World :=
  plainWorld true (plainRow .DROP_UNUSED .APPROVED) [plainIndex "a_1" [⟨"a", .asc⟩]]

def dueWorld : World := plainWorld true hiddenRow [hiddenIndex]

def buildWorld : World :=
  plainWorld true
    { plainRow .CREATE .APPROVED with targetSpec := some ⟨["a"], [], none, none⟩ } []

/-!
## Service: the states of a row

A row goes from state to state along the pipeline, whichever request or pass writes it, but
for one write: `approve` asks nothing of the state it finds.
-/

def follows : RecommendationState → List RecommendationState
  | .PROPOSED => [.APPROVED]
  | .APPROVED => [.HIDDEN, .BUILDING, .ACTIVE, .PROPOSED, .REJECTED]
  | .HIDDEN => [.DROPPED, .PROPOSED, .REJECTED]
  | .BUILDING => [.ACTIVE, .APPROVED]
  | .ACTIVE => [.ROLLED_BACK]
  | .DROPPED => [.ROLLED_BACK]
  | .OBSERVE | .SCHEDULED | .ROLLED_BACK | .REJECTED => []

/-- No row is lost, and each is in the state it was in or in one that may follow. -/
def Lawful (s s' : World) : Prop :=
  ∀ id rec, s.rowById id = some rec →
    ∃ rec', s'.rowById id = some rec' ∧ (rec'.state = rec.state ∨ rec'.state ∈ follows rec.state)

/-- An approval that is written finds its row proposed, approved already, or building. -/
def FindsApprovable (c : Call) : Prop :=
  ∀ id rec, c.2.1 = .updateRow id .approved → c.2.2.error = none → c.1.rowById id = some rec →
    rec.state ∈ [.PROPOSED, .APPROVED, .BUILDING]

theorem follows_of_patchAllowed {s : World} {rec : Recommendation} {patch : Patch}
    (h : PatchAllowed s phase rec patch) (happroved : patch ≠ .approved) :
    (patch.apply rec).state = rec.state ∨ (patch.apply rec).state ∈ follows rec.state := by
  cases patch with
  | approved => exact absurd rfl happroved
  | withdrawn => simp [Patch.apply, follows, h.2]
  | reproposed => simp [Patch.apply, follows, h.2]
  | built builtAt writes => rcases h with h | h <;> simp [Patch.apply, follows, h.1]
  | graduated => exact .inl rfl
  | shortened days => exact .inl rfl
  | due action =>
    cases action with
    | observing => exact h.elim
    | waiting => exact h.elim
    | _ => simp [Patch.apply, DueAction.onRow, follows, h.1]
  | cancelled => simp [Patch.apply, cancelRow, follows, h.1]
  | _ => simp [Patch.apply, follows, h.1]

theorem lawful_of_allowed (h : Allowed c.1 phase c.2.1) (hfinds : FindsApprovable c) :
    Lawful c.1 c.after := by
  obtain ⟨s, op, reply⟩ := c
  intro id rec hrec
  obtain hsame | ⟨patch, hpatched, hop, value, hanswer⟩ :=
    rowById_after hrec op (s.answer op reply)
  · exact ⟨rec, hsame, .inl rfl⟩
  refine ⟨_, hpatched, ?_⟩
  obtain rfl | ⟨rfl, hstate, -⟩ := hop
  · by_cases happroved : patch = .approved
    · subst happroved
      have hstate := hfinds id rec rfl (gives_error hanswer) hrec
      revert hstate
      cases hstate : rec.state <;> simp [Patch.apply, follows]
    · obtain ⟨row, hrow, hpatch⟩ := allowed_updateRow h happroved
      obtain rfl : rec = row := Option.some.inj (hrec.symm.trans hrow)
      exact follows_of_patchAllowed hpatch happroved
  · rw [hstate]
    exact .inr List.mem_cons_self

theorem findsApprovable_of_lawful (h : Lawful c.1 c.after) : FindsApprovable c := by
  obtain ⟨s, op, reply⟩ := c
  rintro id rec ⟨⟩ herror hrec
  have hafter : machine.after s (.updateRow id .approved) reply = s.updateRow id .approved := by
    change s.effect _ (reply.gives _) = _
    rw [gives_of_error_none herror]
    rfl
  obtain ⟨rec', hrec', hlaw⟩ := h id rec hrec
  obtain rfl := (World.rowById_some hrec).2
  rw [Call.after, hafter, World.rowById_updateRow_self hrec] at hrec'
  obtain rfl := Option.some.inj hrec'
  revert hlaw
  cases hstate : rec.state <;> simp [Patch.apply, follows]

/-- Along any sequence of requests and passes, the states of all rows follow the pipeline
exactly where every approval finds a row it may approve. -/
theorem states_follow_iff (s : World) (events : List Event) :
    AlongCalls (fun c => Lawful c.1 c.after) s events ↔ AlongCalls FindsApprovable s events := by
  refine along_congr fun s event => forall₂_congr fun c hc => ?_
  obtain ⟨phase, hallowed⟩ := allowed_of_mem_calls hc
  exact ⟨findsApprovable_of_lawful, lawful_of_allowed hallowed⟩

def Reaches (s s' : World) : Prop :=
  ∀ id rec, s.rowById id = some rec → ∃ rec', s'.rowById id = some rec' ∧
    Relation.ReflTransGen (fun a b => b ∈ follows a) rec.state rec'.state

theorem Reaches.refl (s : World) : Reaches s s := fun _ rec h => ⟨rec, h, .refl⟩

theorem Reaches.trans {s s' s'' : World} (h : Reaches s s') (h' : Reaches s' s'') :
    Reaches s s'' := by
  intro id rec hrec
  obtain ⟨rec', hrec', hpath⟩ := h id rec hrec
  obtain ⟨rec'', hrec'', hpath'⟩ := h' id rec' hrec'
  exact ⟨rec'', hrec'', hpath.trans hpath'⟩

theorem Lawful.reaches {s s' : World} (h : Lawful s s') : Reaches s s' := by
  intro id rec hrec
  obtain ⟨rec', hrec', hsame | hfollows⟩ := h id rec hrec
  · exact ⟨rec', hrec', hsame ▸ .refl⟩
  · exact ⟨rec', hrec', .single hfollows⟩

theorem reaches_of_lawful {s : World} {events : List Event}
    (h : AlongCalls (fun c => Lawful c.1 c.after) s events) : Reaches s (runEvents s events) := by
  refine @Along.run _ (Reaches s) s events h (Reaches.refl s) fun s' event hreaches hcalls =>
    hreaches.trans ?_
  cases event with
  | turn task replies =>
    exact run_rel machine Reaches.refl Reaches.trans fun c hc => (hcalls c hc).reaches
  | jobRun job succeeds =>
    change Reaches s' (if job ∈ s'.jobs then s'.jobRuns job succeeds else s')
    split
    · intro id rec hrec
      exact ⟨rec, by rwa [World.rowById, table_jobRuns], .refl⟩
    · exact Reaches.refl s'
  | outside database collection live invalid => exact fun id rec hrec => ⟨rec, hrec, .refl⟩

theorem closed_of_lawful {s : World} {events : List Event}
    (h : AlongCalls (fun c => Lawful c.1 c.after) s events) {id : String} {rec : Recommendation}
    (hrec : s.rowById id = some rec) (hclosed : follows rec.state = []) :
    ∃ rec', (runEvents s events).rowById id = some rec' ∧ rec'.state = rec.state := by
  obtain ⟨rec', hrec', hpath⟩ := reaches_of_lawful h id rec hrec
  refine ⟨rec', hrec', ?_⟩
  cases hpath.cases_head with
  | inl heq => exact heq.symm
  | inr hstep =>
    obtain ⟨state, hstate, -⟩ := hstep
    simp [hclosed] at hstate

/-- A closed recommendation is approved again. -/
theorem rejected_row_approved :
    ∃ s events, ¬ AlongCalls (fun c => Lawful c.1 c.after) s events ∧
      (s.rowById "r").map (fun rec => rec.state) = some .REJECTED ∧
      ((runEvents s events).rowById "r").map (fun rec => rec.state) = some .APPROVED := by
  have hrun : ((runEvents (plainWorld true (plainRow .DROP_UNUSED .REJECTED) [])
      [.turn (.approve "r" "o") [plainReply, plainReply]]).rowById "r").map
        (fun rec => rec.state) = some .APPROVED := by
    decide
  refine ⟨plainWorld true (plainRow .DROP_UNUSED .REJECTED) [],
    [.turn (.approve "r" "o") [plainReply, plainReply]], fun h => ?_, rfl, hrun⟩
  obtain ⟨rec, hrec, hstate⟩ := @closed_of_lawful _ _ h "r" _ rfl rfl
  rw [hrec, Option.map_some, hstate] at hrun
  cases hrun

end Indexterity.Service
