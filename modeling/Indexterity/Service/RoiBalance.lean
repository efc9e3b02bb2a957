import Indexterity.Library.Pool
import Indexterity.Service.BuildRecord
import Indexterity.Service.DropRecord

/-!
# Service: the balance of the ROI rows

Requests and passes side by side, each answered call by call with the calls of the others in
between. A finalize pass that was answered a drop owes an ROI row for it, and a rollback that was
answered a create owes one that takes it back; each pays before it ends, if the writes to our own
database go through. So at rest the ROI rows of a recommendation come to the drops that were
answered for it less the rebuilds.

Whether that is what became of the index is another matter: two rollbacks may both find the row
DROPPED, and both be answered.
-/

namespace Indexterity.Service

open Library Program

/-! ## Answered calls -/

/-- A cluster, and the drops and rebuilds that were answered: the recommendation, and `1` for a
drop or `-1` for a rebuild. -/
structure Audited where
  world : World
  answered : List (String × Int)

/-- What an answered call does to the count of a recommendation's indexes. -/
def Op.indexCount : Op → Option (String × Int)
  | .drop .hidden claim => some (claim.id, 1)
  | .create .undo claim _ => some (claim.id, -1)
  | _ => none

def Audited.heard (s : Audited) (op : Op) : Except Thrown op.Ans → List (String × Int)
  | .ok _ => s.answered ++ op.indexCount.toList
  | .error _ => s.answered

def auditedMachine : Machine Op Op.Ans Thrown Audited Reply where
  answer s op reply := s.world.answer op reply
  effect s op answer := ⟨s.world.effect op answer, s.heard op answer⟩

def Audited.net (s : Audited) (id : String) : Int :=
  (s.answered.map fun count => if count.1 = id then count.2 else 0).sum

def roiSum (column : RoiMetric → Int) (rows : List RoiMetric) (id : String) : Int :=
  (rows.map fun metric => if metric.recommendationId = id then column metric else 0).sum

abbrev ServicePool := Pool Op Op.Ans Thrown Unit Audited

/-- What can happen next: a task starts, one that is running makes its next call, a scheduled
build runs, or somebody else changes the indexes of a collection. -/
inductive ServiceMove where
  | start (task : Task)
  | step (i : Nat) (reply : Reply)
  | jobRun (job : Job) (succeeds : Bool)
  | outside (database collection : String) (live : List IndexSpec) (invalid : List String)

def ServiceMove.toMove : ServiceMove → Move Op Op.Ans Thrown Unit Audited Reply
  | .start task => .start task.program
  | .step i reply => .step i reply
  | .jobRun job succeeds => .aside fun s =>
      { s with world := (Event.jobRun job succeeds).after s.world }
  | .outside database collection live invalid => .aside fun s =>
      { s with world := (Event.outside database collection live invalid).after s.world }

def poolOf (s : World) : ServicePool := ⟨⟨s, []⟩, []⟩

def Op.isRecord : Op → Bool
  | .updateRow _ (.due .drop) | .insertAction ⟨_, .DROP, _⟩ | .insertRoi _ => true
  | _ => false

/-! ## What a program owes -/

section Contract
variable (bytes : String → Int)

/-- The ROI row of an answered call, at what the index of a recommendation is worth. -/
def metricOf (count : String × Int) : RoiMetric := ⟨count.1, count.2 * bytes count.1, count.2⟩

def Truthful : (op : Op) → Except Thrown op.Ans → Prop
  | .ownedBy _ _, .ok (some rec) => rec.estimatedBytesSaved = bytes rec.id
  | .selectRows _, .ok rows => ∀ rec ∈ rows, rec.estimatedBytesSaved = bytes rec.id
  | _, _ => True

def owing : Contract Op Op.Ans Thrown (Option RoiMetric) where
  admits _ op answer :=
    (op.isRecord = true → ∃ value, answer = .ok value) ∧ Truthful bytes op answer
  demands owed op :=
    match op with
    | .insertRoi metric => owed = some metric
    | op => op.indexCount.isSome = true → owed = none
  effect owed op answer :=
    match op, answer with
    | .insertRoi _, .ok _ => none
    | op, .ok _ => (op.indexCount.map (metricOf bytes)).or owed
    | _, .error _ => owed

def Paid {α : Type} (_ : Except Thrown α) (owed : Option RoiMetric) : Prop := owed = none

end Contract

abbrev Unpriced (op : Op) : Prop := op.isUnpriced = true

variable {op : Op}

theorem indexCount_of_unpriced (h : Unpriced op) : op.indexCount = none := by
  unfold Op.indexCount
  split
  · cases h
  · cases h
  · rfl

variable {owed : Option RoiMetric}

variable {count : String × Int} {accounts : List (Option RoiMetric)} {move : ServiceMove}
variable {c : Audited × Op × Reply} {claim : Claim}

section Programs
variable {bytes : String → Int} {α : Type} {program : Prog α}

theorem Unpriced.keeps (h : program.Uses Unpriced) (owed : Option RoiMetric) :
    program.Keeps (owing bytes) (fun _ owed' => owed' = owed) owed := by
  refine h.keeps fun op hop => ?_
  have hcount := indexCount_of_unpriced hop
  refine ⟨?_, fun answer => ?_⟩
  · dsimp only [owing]
    split
    · cases hop
    · simp [hcount]
  · dsimp only [owing]
    split
    · cases hop
    · simp [hcount]
    · rfl

theorem unpriced_of_quiet (h : program.Uses fun op => op.isQuiet = true) : program.Uses Unpriced :=
  h.mono fun _ h => (@PlainCall.of_quiet none [] _ h).2

theorem Unpriced.bind {β : Type} {next : α → Prog β}
    (h : program.Uses Unpriced) (hnext : ∀ value, (next value).Keeps (owing bytes) Paid none) :
    (program >>= next).Keeps (owing bytes) Paid none := by
  refine keeps_bind.mpr ((Unpriced.keeps h none).mono ?_)
  rintro r _ rfl
  cases r with
  | ok value => exact hnext value
  | error error => rfl

theorem owing_priced {next : op.Ans → Prog α} (hop : op.indexCount = some count)
    (hnext : ∀ value, (next value).Keeps (owing bytes) Paid (some (metricOf bytes count))) :
    (ask op >>= next).Keeps (owing bytes) Paid none := by
  cases op with
  | drop site claim =>
    refine keeps_ask_bind.mpr ⟨fun _ => rfl, fun value _ => ?_, fun _ _ => rfl⟩
    simpa [owing, hop] using hnext value
  | create site claim spec =>
    refine keeps_ask_bind.mpr ⟨fun _ => rfl, fun value _ => ?_, fun _ _ => rfl⟩
    simpa [owing, hop] using hnext value
  | _ => cases hop

def Through {α : Type} (owed : Option RoiMetric) (r : Except Thrown α) (owed' : Option RoiMetric) :
    Prop :=
  (∃ value, r = .ok value) ∧ owed' = owed

theorem Through.bind {β : Type} {next : α → Prog β}
    {post : Except Thrown β → Option RoiMetric → Prop}
    (h : program.Keeps (owing bytes) (Through owed) owed)
    (hnext : ∀ value, (next value).Keeps (owing bytes) post owed) :
    (program >>= next).Keeps (owing bytes) post owed := by
  refine keeps_bind.mpr (h.mono ?_)
  rintro _ _ ⟨⟨value, rfl⟩, rfl⟩
  exact hnext value

theorem through_record (hop : Unpriced op) (hrecord : op.isRecord = true)
    (owed : Option RoiMetric) : (ask op).Keeps (owing bytes) (Through owed) owed := by
  have hkeeps : (ask op : Prog op.Ans).Keeps (owing bytes) (fun _ owed' => owed' = owed) owed :=
    Unpriced.keeps (uses_ask.mpr hop) owed
  obtain ⟨hdemands, hafter⟩ := keeps_ask.mp hkeeps
  exact keeps_ask.mpr ⟨hdemands, fun answer h => ⟨h.1 hrecord, hafter answer h⟩⟩

theorem owing_insertRoi (metric : RoiMetric) :
    (ask (.insertRoi metric)).Keeps (owing bytes)
      (fun r owed => (∃ value, r = .ok value) ∧ owed = none) (some metric) := by
  refine keeps_ask.mpr ⟨rfl, fun answer h => ?_⟩
  obtain ⟨value, rfl⟩ := h.1 rfl
  exact ⟨⟨value, rfl⟩, rfl⟩

variable {rec : Recommendation}

section
variable (h : rec.estimatedBytesSaved = bytes rec.id)
include h

theorem owing_recordRollback :
    (recordRollback rec).Keeps (owing bytes) Paid (some (metricOf bytes (rec.id, -1))) := by
  have hmetric : metricOf bytes (rec.id, -1) = rollbackCorrection rec := by
    simp [metricOf, rollbackCorrection, h]
  rw [hmetric]
  refine keeps_bind.mpr ((owing_insertRoi _).mono ?_)
  rintro _ _ ⟨⟨value, rfl⟩, rfl⟩
  refine Unpriced.keeps ?_ none
  repeat' first
    | exact uses_raise _
    | exact uses_ask.mpr rfl
    | refine Uses.bind ?_ fun _ => ?_
    | split

theorem owing_recordDrop (spec : Option IndexSpec) :
    (recordDrop rec spec).Keeps (owing bytes) Paid (some (metricOf bytes (rec.id, 1))) := by
  have hmetric : metricOf bytes (rec.id, 1) = ⟨rec.id, rec.estimatedBytesSaved, 1⟩ := by
    simp [metricOf, h]
  rw [hmetric]
  have hsettle (owed : Option RoiMetric) :
      (settleDue rec .drop spec).Keeps (owing bytes) (Through owed) owed :=
    Through.bind (through_record rfl rfl owed) fun _ =>
      through_record rfl rfl owed
  refine Through.bind (hsettle _) fun _ => ?_
  exact (owing_insertRoi _).mono fun _ _ h => h.2

end

theorem owing_rollback (id orgId : String) : (rollback id orgId).Keeps (owing bytes) Paid none := by
  refine keeps_ask_bind.mpr ⟨fun _ => rfl, fun owned hadmits => ?_, fun _ _ => rfl⟩
  cases owned with
  | none => rfl
  | some rec =>
    have hbytes : rec.estimatedBytesSaved = bytes rec.id := hadmits.2
    dsimp only
    split
    · rfl
    refine Unpriced.bind (uses_ask.mpr rfl) fun dropActions => ?_
    split
    · rfl
    split
    · rfl
    refine Unpriced.bind (uses_ask.mpr rfl) fun session => ?_
    split
    · rfl
    · exact owing_priced rfl fun _ => owing_recordRollback hbytes

section
variable (h : rec.estimatedBytesSaved = bytes rec.id)
include h

theorem owing_dropDue (canHide : Bool) (dropped : Nat) :
    (dropDue canHide rec dropped).Keeps (owing bytes) Paid none := by
  refine Unpriced.bind (unpriced_of_quiet (uses_preflight rec)) fun check => ?_
  split
  · refine owing_priced rfl fun _ => keeps_bind.mpr ((owing_recordDrop h check.spec).mono ?_)
    rintro r _ rfl
    cases r <;> rfl
  · refine Unpriced.keeps ?_ none
    repeat' first
      | exact uses_pure _
      | exact uses_ask.mpr rfl
      | refine Uses.bind ?_ fun _ => ?_
      | split

theorem owing_dueRow (pass : PassReads) (dropped : Nat) :
    (dueRow pass dropped rec).Keeps (owing bytes) Paid none := by
  have hback (action : DueAction) : (giveBack rec action).Uses Unpriced := by
    repeat' first
      | exact uses_ask.mpr rfl
      | refine Uses.bind ?_ fun _ => ?_
  unfold dueRow
  split
  · rfl
  split
  · refine Unpriced.bind ?_ fun _ => rfl
    unfold leaveScope settleDue
    repeat' first
      | exact uses_pure _
      | exact uses_ask.mpr rfl
      | refine Uses.bind ?_ fun _ => ?_
      | refine Uses.handle ?_ (fun _ => ?_) fun _ => ?_
      | split
  refine Unpriced.bind (unpriced_of_quiet (uses_judgeDue pass rec _)) fun verdict => ?_
  cases verdict with
  | introduced => exact Unpriced.bind (hback _) fun _ => rfl
  | regressed => exact Unpriced.bind (hback _) fun _ => rfl
  | observing => rfl
  | outstayed =>
    refine Unpriced.bind ?_ fun _ => rfl
    repeat' first
      | exact uses_ask.mpr rfl
      | refine Uses.bind ?_ fun _ => ?_
  | graduated =>
    dsimp only
    split
    · exact owing_dropDue h _ _
    · rfl

end

theorem owing_finalizeRows {due : List Recommendation}
    (hdue : ∀ rec ∈ due, rec.estimatedBytesSaved = bytes rec.id) (settings : Settings)
    (watched : List Recommendation) :
    (finalizeRows settings due watched).Keeps (owing bytes) Paid none := by
  refine Unpriced.bind (uses_ask.mpr rfl) fun session => ?_
  split
  · rfl
  refine Unpriced.bind (uses_ask.mpr rfl) fun watches => ?_
  refine Unpriced.bind ((@plain_withdrawHinted none _).mono fun _ h => h.2) fun _ => ?_
  refine Unpriced.bind (uses_ask.mpr rfl) fun _ => ?_
  refine Unpriced.bind (uses_ask.mpr rfl) fun _ => ?_
  refine Unpriced.bind (uses_eachFrom (fun _ rec _ => (uses_watchRow rec _ _ _).mono fun _ h => h.2) _) fun _ => ?_
  refine keeps_bind.mpr (keeps_eachFrom
    (fun _ rest owed => owed = none ∧ ∀ rec ∈ rest, rec.estimatedBytesSaved = bytes rec.id)
    ?_ ?_ ⟨rfl, hdue⟩)
  · rintro dropped _ ⟨rfl, -⟩
    dsimp only
    split
    · rfl
    · exact Unpriced.keeps (uses_ask.mpr rfl) none
  · rintro dropped rec rest _ ⟨rfl, hrest⟩
    obtain ⟨hrec, hrest⟩ := List.forall_mem_cons.mp hrest
    refine (owing_dueRow hrec _ dropped).mono ?_
    rintro r _ rfl
    cases r with
    | ok dropped => exact ⟨rfl, hrest⟩
    | error error => rfl

theorem owing_finalizeCluster : finalizeCluster.Keeps (owing bytes) Paid none := by
  refine Unpriced.bind (uses_ask.mpr rfl) fun settings => ?_
  refine keeps_ask_bind.mpr ⟨fun _ => rfl, fun hidden hadmits => ?_, fun _ _ => rfl⟩
  have hhidden : ∀ rec ∈ hidden, rec.estimatedBytesSaved = bytes rec.id := hadmits.2
  refine Unpriced.bind (uses_ask.mpr rfl) fun _ => ?_
  refine Unpriced.bind (uses_ask.mpr rfl) fun watched => ?_
  refine Unpriced.bind (uses_ask.mpr rfl) fun listed => ?_
  split
  · rfl
  · exact owing_finalizeRows (fun rec hrec => hhidden rec (List.mem_filter.mp hrec).1) settings _

theorem owing_task (task : Task) : task.program.Keeps (owing bytes) Paid none := by
  cases hplain : task.isUnpriced with
  | true => exact Unpriced.keeps ((plain_task hplain).mono fun _ h => h.2) none
  | false =>
    cases task with
    | rollback id orgId => exact owing_rollback id orgId
    | finalizeCluster => exact owing_finalizeCluster
    | _ => cases hplain

end Programs

/-! ## The balance -/

variable {s : World}

section Balance
variable {bytes : String → Int}

/-- The rows that are written and the rows that are owed are those of the answered calls. -/
def Balanced (bytes : String → Int) (s : Audited) (owed : List (Option RoiMetric)) : Prop :=
  (s.world.roi ++ owed.reduceOption).Perm (s.answered.map (metricOf bytes))

theorem owing_error (owed : Option RoiMetric) (op : Op) (error : Thrown) :
    (owing bytes).effect owed op (.error error) = owed := by
  cases op <;> rfl

theorem owing_ok (hop : ∀ metric, op ≠ .insertRoi metric) (owed : Option RoiMetric)
    (value : op.Ans) :
    (owing bytes).effect owed op (.ok value) = (op.indexCount.map (metricOf bytes)).or owed := by
  cases op with
  | insertRoi metric => exact absurd rfl (hop metric)
  | _ => rfl

theorem owing_demands (hop : op.indexCount = some count) (h : (owing bytes).demands owed op) :
    owed = none := by
  have hsome : op.indexCount.isSome = true := by
    rw [hop]
    rfl
  cases op with
  | insertRoi metric => cases hop
  | _ => exact h hsome

theorem balanced_step {s : Audited} (h : Balanced bytes s accounts) {i : Nat}
    (hi : accounts[i]? = some owed) (hdemands : (owing bytes).demands owed op)
    (answer : Except Thrown op.Ans) :
    Balanced bytes ⟨s.world.effect op answer, s.heard op answer⟩
      (accounts.set i ((owing bytes).effect owed op answer)) := by
  cases answer with
  | error error =>
    rw [owing_error, Pool.set_of_getElem? hi, effect_error]
    exact h
  | ok value =>
    unfold Balanced at h ⊢
    by_cases hroi : ∃ metric, op = .insertRoi metric
    · -- The row that was owed is written.
      obtain ⟨metric, rfl⟩ := hroi
      obtain rfl : owed = some metric := hdemands
      change (s.world.roi ++ [metric] ++ (accounts.set i none).reduceOption).Perm
        ((s.answered ++ []).map _)
      rw [List.append_nil, List.append_assoc]
      exact ((Pool.reduceOption_close hi).symm.append_left _).trans h
    · have hroi (metric : RoiMetric) : op ≠ .insertRoi metric := fun heq => hroi ⟨metric, heq⟩
      have hheard : s.heard op (.ok value) = s.answered ++ op.indexCount.toList := rfl
      rw [owing_ok hroi, roi_effect _ hroi, hheard]
      cases hcount : op.indexCount with
      | none =>
        rw [Option.map_none, Option.none_or, Pool.set_of_getElem? hi, Option.toList_none,
          List.append_nil]
        exact h
      | some count =>
        -- One more call is answered, and its row is owed.
        obtain rfl : owed = none := owing_demands hcount hdemands
        rw [Option.map_some, Option.some_or, Option.toList_some, List.map_append]
        have hopen := (@Pool.reduceOption_open _ _ _ (metricOf bytes count) hi).append_left
          s.world.roi
        exact hopen.trans (List.perm_middle.trans ((h.cons _).trans
          (List.perm_append_singleton _ _).symm))

def Worth (bytes : String → Int) (s : World) : Prop :=
  ∀ rec ∈ s.table.rows, rec.estimatedBytesSaved = bytes rec.id

theorem truthful_answer (h : Worth bytes s) (op : Op) (reply : Reply) :
    Truthful bytes op (s.answer op reply) := by
  cases op with
  | ownedBy id orgId =>
    change Truthful bytes (.ownedBy id orgId) (reply.gives (s.owned id orgId))
    cases hanswer : reply.gives (s.owned id orgId) with
    | error error => trivial
    | ok owned =>
      cases owned with
      | none => trivial
      | some rec =>
        have howned : s.owned id orgId = some rec := gives_ok hanswer
        unfold World.owned at howned
        split at howned
        · exact h rec (List.mem_of_find?_eq_some howned)
        · cases howned
  | selectRows wanted =>
    change Truthful bytes (.selectRows wanted) (reply.gives (s.table.rows.filter wanted.selects))
    cases hanswer : reply.gives (s.table.rows.filter wanted.selects) with
    | error error => trivial
    | ok rows =>
      obtain rfl := gives_ok hanswer
      exact fun rec hrec => h rec (List.mem_filter.mp hrec).1
  | _ => trivial

theorem record_answer (hop : op.isRecord = true) {reply : Reply}
    (hreply : reply.error = none) : ∃ value, s.answer op reply = .ok value := by
  cases op with
  | updateRow id patch => exact ⟨_, gives_of_error_none hreply _⟩
  | insertAction action => exact ⟨_, gives_of_error_none hreply _⟩
  | insertRoi metric => exact ⟨_, gives_of_error_none hreply _⟩
  | _ => cases hop

/-- Scheduled builds and other people leave the rows and what was answered alone. -/
def IsAside (change : Audited → Audited) : Prop :=
  ∀ s, (change s).answered = s.answered ∧ Aside s.world (change s).world

theorem balance_keeper : Pool.Keeper auditedMachine (owing bytes) (@Paid Unit) (Balanced bytes)
    (fun s op reply => (op.isRecord = true → reply.error = none) ∧ Worth bytes s.world)
    (fun program => ∃ task : Task, program = task.program) IsAside where
  start := by
    rintro s accounts _ ⟨task, rfl⟩ h
    refine ⟨none, owing_task task, ?_⟩
    rw [Balanced, List.reduceOption_append, List.reduceOption_cons_of_none, List.reduceOption_nil,
      List.append_nil]
    exact h
  step s accounts i owed op reply h hi hdemands hgranted :=
    ⟨⟨fun hop => record_answer hop (hgranted.1 hop), truthful_answer hgranted.2 op reply⟩,
      balanced_step h hi hdemands _⟩
  aside := by
    intro s accounts change hchange h
    obtain ⟨hanswered, haside⟩ := hchange s
    rw [Balanced, hanswered, haside.roi]
    exact h

end Balance

/-! ## What a row is worth -/

def KeepsEstimates (s s' : World) : Prop :=
  ∀ id rec, s.rowById id = some rec →
    ∃ rec', s'.rowById id = some rec' ∧ rec'.estimatedBytesSaved = rec.estimatedBytesSaved

theorem KeepsEstimates.refl (s : World) : KeepsEstimates s s := fun _ rec h => ⟨rec, h, rfl⟩

variable {s' : World}

theorem KeepsEstimates.trans {s'' : World} (h : KeepsEstimates s s')
    (h' : KeepsEstimates s' s'') : KeepsEstimates s s'' := by
  intro id rec hrec
  obtain ⟨rec', hrec', heq⟩ := h id rec hrec
  obtain ⟨rec'', hrec'', heq'⟩ := h' id rec' hrec'
  exact ⟨rec'', hrec'', heq'.trans heq⟩

theorem KeepsEstimates.of_table (h : s'.table = s.table) : KeepsEstimates s s' := by
  intro id rec hrec
  refine ⟨rec, ?_, rfl⟩
  rw [World.rowById, h]
  exact hrec

theorem Patch.apply_estimatedBytesSaved (patch : Patch) (rec : Recommendation) :
    (patch.apply rec).estimatedBytesSaved = rec.estimatedBytesSaved := by
  cases patch with
  | due action => cases action <;> rfl
  | _ => rfl

theorem keepsEstimates_effect (s : World) (op : Op) (answer : Except Thrown op.Ans) :
    KeepsEstimates s (s.effect op answer) := by
  intro id rec hrec
  obtain hsame | ⟨patch, hpatched, -⟩ := rowById_after hrec op answer
  · exact ⟨rec, hsame, rfl⟩
  · exact ⟨_, hpatched, patch.apply_estimatedBytesSaved rec⟩

/-! ## Interleavings -/

variable {change : Audited → Audited}

theorem ServiceMove.isAside (h : move.toMove = .aside change) : IsAside change := by
  cases move with
  | start task => cases h
  | step i reply => cases h
  | jobRun job succeeds =>
    cases h
    refine fun s => ⟨rfl, ?_⟩
    change Aside s.world (if job ∈ s.world.jobs then s.world.jobRuns job succeeds else s.world)
    split
    · exact aside_jobRuns _ _ _
    · exact .refl _
  | outside database collection live invalid =>
    cases h
    exact fun s => ⟨rfl, rfl, rfl, rfl, [], (List.append_nil _).symm, by simp⟩

/-- Requests and passes side by side, up to a point where none of them is running. The engine has
dropped nothing at the start, and no write of a record fails. -/
structure Interleaving where
  start : World
  roi_nil : start.roi = []
  log_nil : start.log = []
  moves : List ServiceMove
  uncrashed : ∀ c ∈ (poolOf start).calls auditedMachine (moves.map ServiceMove.toMove),
    c.2.1.isRecord = true → c.2.2.error = none
  atRest : ∀ program ∈ ((poolOf start).moves auditedMachine (moves.map ServiceMove.toMove)).running,
    program.isOver = true

namespace Interleaving

def pool (run : Interleaving) : ServicePool :=
  (poolOf run.start).moves auditedMachine (run.moves.map ServiceMove.toMove)

def final (run : Interleaving) : Audited := run.pool.state

def calls (run : Interleaving) : List (Audited × Op × Reply) :=
  (poolOf run.start).calls auditedMachine (run.moves.map ServiceMove.toMove)

def bytes (run : Interleaving) (id : String) : Int :=
  ((run.final.world.rowById id).map Recommendation.estimatedBytesSaved).getD 0

variable (run : Interleaving)

theorem worth_of_keepsEstimates (h : KeepsEstimates s run.final.world) : Worth run.bytes s := by
  intro rec hrec
  obtain ⟨rec', hrec', heq⟩ := h rec.id rec (World.rowById_of_mem hrec)
  rw [bytes, hrec']
  exact heq.symm

theorem mem_aside (h : .aside change ∈ run.moves.map ServiceMove.toMove) : IsAside change := by
  obtain ⟨move, -, hmove⟩ := List.mem_map.mp h
  exact ServiceMove.isAside hmove

theorem worth_of_mem_calls (hc : c ∈ run.calls) : Worth run.bytes c.1.world := by
  refine run.worth_of_keepsEstimates (Pool.calls_rel
    (R := fun s s' : Audited => KeepsEstimates s.world s'.world)
    (fun s => .refl _) .trans ?_ ?_ c hc)
  · exact fun s op reply => keepsEstimates_effect s.world op _
  · exact fun change hchange s => .of_table (run.mem_aside hchange s).2.table

theorem paid_of_isOver {program : Prog Unit} (hover : program.isOver = true) {bytes : String → Int}
    (h : program.Keeps (owing bytes) Paid owed) : owed = none := by
  cases program with
  | done value => exact h
  | raise error => exact h
  | call op next => cases hover

theorem reduceOption_of_paid {bytes : String → Int} {programs : List (Prog Unit)}
    (h : List.Forall₂ (fun program owed => program.Keeps (owing bytes) Paid owed) programs accounts)
    (hover : ∀ program ∈ programs, program.isOver = true) : accounts.reduceOption = [] := by
  induction h with
  | nil => rfl
  | cons hhead _ ih =>
    obtain ⟨hprogram, hprograms⟩ := List.forall_mem_cons.mp hover
    obtain rfl := paid_of_isOver hprogram hhead
    exact ih hprograms

theorem roi_perm : run.final.world.roi.Perm (run.final.answered.map (metricOf run.bytes)) := by
  have hstart : Pool.Accounted (owing run.bytes) (@Paid Unit) (Balanced run.bytes)
      (poolOf run.start) := by
    refine ⟨[], .nil, ?_⟩
    change (run.start.roi ++ []).Perm []
    rw [run.roi_nil]
    exact .refl _
  have hpermits : ∀ m ∈ run.moves.map ServiceMove.toMove,
      Pool.Permits (fun program => ∃ task : Task, program = task.program) IsAside m := by
    intro m hm
    cases m with
    | start program =>
      obtain ⟨move, -, hmove⟩ := List.mem_map.mp hm
      cases move with
      | start task =>
        cases hmove
        exact ⟨task, rfl⟩
      | _ => cases hmove
    | step i reply => trivial
    | aside change => exact run.mem_aside hm
  obtain ⟨accounts, hkeeps, hbalanced⟩ := hstart.moves balance_keeper hpermits fun c hc =>
    ⟨run.uncrashed c hc, run.worth_of_mem_calls hc⟩
  rw [Balanced, reduceOption_of_paid hkeeps run.atRest, List.append_nil] at hbalanced
  exact hbalanced

theorem roiSum_indexCountDelta (id : String) :
    roiSum RoiMetric.indexCountDelta run.final.world.roi id = run.final.net id := by
  rw [roiSum, (run.roi_perm.map _).sum_eq, List.map_map]
  rfl

theorem roiSum_freedBytes (id : String) :
    roiSum RoiMetric.freedBytes run.final.world.roi id = run.final.net id * run.bytes id := by
  rw [roiSum, (run.roi_perm.map _).sum_eq, List.map_map, Audited.net, ← List.sum_map_mul_right]
  congr 1
  refine List.map_congr_left fun count _ => ?_
  change (if count.1 = id then count.2 * run.bytes count.1 else 0) =
    (if count.1 = id then count.2 else 0) * run.bytes id
  split
  · rename_i heq
    rw [heq]
  · exact (zero_mul _).symm

end Interleaving

/-! ## What became of the index -/

/-- What a line of the log says of the index of a recommendation: dropped, or rebuilt. -/
def goneBy (id : String) : ExecutorCall × Claim → Option Bool
  | (.drop .hidden _, claim) => if claim.id = id then some true else none
  | (.create .undo _, claim) => if claim.id = id then some false else none
  | _ => none

/-- The engine dropped the index of a recommendation, and has not rebuilt it since. -/
def World.isGone (s : World) (id : String) : Bool :=
  (s.log.filterMap (goneBy id)).getLast?.getD false

/-- The ROI rows of a recommendation say what became of its index. -/
structure RoiMatches (s : World) (rec : Recommendation) : Prop where
  count : roiSum RoiMetric.indexCountDelta s.roi rec.id = if s.isGone rec.id then 1 else 0
  freed : roiSum RoiMetric.freedBytes s.roi rec.id =
    if s.isGone rec.id then rec.estimatedBytesSaved else 0

/-- The answered drops come to the answered rebuilds, and one more for an index that is gone. -/
def Audited.Even (s : Audited) : Prop :=
  ∀ rec ∈ s.world.table.rows, s.net rec.id = if s.world.isGone rec.id then 1 else 0
  deriving Decidable

theorem matches_iff_even (run : Interleaving) :
    (∀ rec ∈ run.final.world.table.rows, RoiMatches run.final.world rec) ↔ run.final.Even := by
  refine forall₂_congr fun rec hrec => ?_
  have hbytes : rec.estimatedBytesSaved = run.bytes rec.id :=
    run.worth_of_keepsEstimates (.refl _) rec hrec
  refine ⟨fun h => (run.roiSum_indexCountDelta rec.id).symm.trans h.count, fun h => ?_⟩
  refine ⟨(run.roiSum_indexCountDelta rec.id).trans h, ?_⟩
  rw [run.roiSum_freedBytes, h, hbytes]
  split <;> simp

/-! ## Calls in step -/

/-- A drop finds its index there, and not for the second time; a rebuild is made at once, for an
index that is gone. -/
def InStep (c : Audited × Op × Reply) : Prop :=
  match c.2.1 with
  | .drop .hidden claim => c.2.2.error = none →
    (c.1.world.claimed claim).isSome = true ∧ c.1.world.isGone claim.id = false
  | .create .undo claim spec =>
    match c.1.world.createAnswer claim spec c.2.2 with
    | .ok outcome => outcome = .BUILT ∧ c.1.world.isGone claim.id = true
    | .error _ => True
  | _ => True

instance (c : Audited × Op × Reply) : Decidable (InStep c) := by
  unfold InStep
  split
  · infer_instance
  · split <;> infer_instance
  · infer_instance

section InStep

theorem isGone_of_log {entry : Option (ExecutorCall × Claim)} (h : s'.log = s.log ++ entry.toList)
    (id : String) : s'.isGone id = (entry.bind (goneBy id)).getD (s.isGone id) := by
  rw [World.isGone, h, List.filterMap_append, List.getLast?_append, World.isGone]
  cases entry with
  | none => rfl
  | some entry =>
    rw [Option.toList_some, List.filterMap_cons, List.filterMap_nil, Option.bind_some]
    cases goneBy id entry <;> rfl

theorem goneBy_entry (h : op.indexCount = none) (s : World) (answer : Except Thrown op.Ans)
    (id : String) : (s.entry op answer).bind (goneBy id) = none := by
  cases hentry : s.entry op answer with
  | none => rfl
  | some entry =>
    cases logs_of_entry hentry with
    | @drop site _ _ _ _ => cases site <;> first | rfl | cases h
    | @create site _ _ => cases site <;> first | rfl | cases h
    | _ => rfl

theorem net_heard (s : Audited) (world : World) (value : op.Ans) (id : String) :
    Audited.net ⟨world, s.heard op (.ok value)⟩ id = s.net id +
      (op.indexCount.toList.map fun count => if count.1 = id then count.2 else 0).sum := by
  rw [Audited.net, Audited.heard, List.map_append, List.sum_append]
  rfl

/-- The answered calls say what became of each index, and no rebuild is still to be run. -/
structure InBalance (s : Audited) : Prop where
  net : ∀ id, s.net id = if s.world.isGone id then 1 else 0
  jobs : ∀ job ∈ s.world.jobs, job.site ≠ .undo

section
variable {s : Audited} (h : InBalance s)
include h

theorem inBalance_other (hop : op.indexCount = none) (answer : Except Thrown op.Ans) :
    InBalance ⟨s.world.effect op answer, s.heard op answer⟩ := by
  refine ⟨fun id => ?_, fun job hjob => ?_⟩
  · have hanswered : s.heard op answer = s.answered := by
      cases answer with
      | error error => rfl
      | ok value => rw [Audited.heard, hop, Option.toList_none, List.append_nil]
    rw [isGone_of_log (log_effect s.world op answer), goneBy_entry hop, hanswered]
    exact h.net id
  · obtain hold | ⟨rfl, -⟩ := mem_jobs_effect hjob
    · exact h.jobs job hold
    · intro hsite
      rw [hsite] at hop
      cases hop

theorem inBalance_drop (hthere : (s.world.claimed claim).isSome = true)
    (hgone : s.world.isGone claim.id = false) (value : Unit) :
    InBalance ⟨s.world.effect (.drop .hidden claim) (.ok value),
      s.heard (.drop .hidden claim) (.ok value)⟩ := by
  obtain ⟨spec, hspec⟩ := Option.isSome_iff_exists.mp hthere
  have hentry :
      s.world.entry (.drop .hidden claim) (.ok value) = some (.drop .hidden spec, claim) := by
    rw [World.entry, hspec]
    rfl
  refine ⟨fun id => ?_, fun job hjob => ?_⟩
  · rw [isGone_of_log (log_effect s.world _ _), hentry, net_heard, h.net]
    by_cases heq : claim.id = id
    · subst heq
      simp [Op.indexCount, goneBy, hgone]
    · simp [Op.indexCount, goneBy, heq]
  · obtain hold | ⟨hop, -⟩ := mem_jobs_effect hjob
    · exact h.jobs job hold
    · cases hop

theorem inBalance_undo {spec : IndexSpec} (hgone : s.world.isGone claim.id = true) :
    InBalance ⟨s.world.effect (.create .undo claim spec) (.ok .BUILT),
      s.heard (.create .undo claim spec) (.ok .BUILT)⟩ := by
  refine ⟨fun id => ?_, fun job hjob => ?_⟩
  · rw [isGone_of_log (log_effect s.world _ _), net_heard, h.net]
    by_cases heq : claim.id = id
    · subst heq
      simp [World.entry, Op.indexCount, goneBy, hgone]
    · simp [World.entry, Op.indexCount, goneBy, heq]
  · change job ∈ (s.world.created .undo claim spec).jobs at hjob
    unfold World.created at hjob
    split at hjob <;> exact h.jobs job hjob

end

theorem inBalance_call (hstep : InStep c) (h : InBalance c.1) :
    InBalance (auditedMachine.after c.1 c.2.1 c.2.2) := by
  obtain ⟨s, op, reply⟩ := c
  change InBalance ⟨s.world.effect op (s.world.answer op reply),
    s.heard op (s.world.answer op reply)⟩
  cases hcount : op.indexCount with
  | none => exact inBalance_other h hcount _
  | some count =>
    cases hanswer : s.world.answer op reply with
    | error error =>
      rw [effect_error]
      exact h
    | ok value =>
      unfold Op.indexCount at hcount
      split at hcount
      · obtain ⟨hthere, hgone⟩ := hstep (gives_error hanswer)
        exact inBalance_drop h hthere hgone value
      · rename_i claim spec
        have hcreate : s.world.createAnswer claim spec reply = .ok value := hanswer
        unfold InStep at hstep
        dsimp only at hstep
        rw [hcreate] at hstep
        obtain ⟨rfl, hgone⟩ := hstep
        exact inBalance_undo h hgone
      · cases hcount

theorem inBalance_jobRuns {s : Audited} (h : InBalance s) {job : Job} (hjob : job ∈ s.world.jobs)
    (succeeds : Bool) : InBalance { s with world := s.world.jobRuns job succeeds } := by
  unfold World.jobRuns
  split
  · cases succeeds with
    | false => exact ⟨h.net, h.jobs⟩
    | true =>
      refine ⟨fun id => ?_, h.jobs⟩
      have hbuild : goneBy id (.create job.site job.spec, job.claim) = none := by
        cases hsite : job.site with
        | build => rfl
        | undo => exact absurd hsite (h.jobs job hjob)
      rw [@isGone_of_log s.world _ (some (.create job.site job.spec, job.claim)) rfl,
        Option.bind_some, hbuild]
      exact h.net id
  · exact h

theorem inBalance_aside (hmove : move.toMove = .aside change) {s : Audited} (h : InBalance s) :
    InBalance (change s) := by
  cases move with
  | start task => cases hmove
  | step i reply => cases hmove
  | jobRun job succeeds =>
    cases hmove
    change InBalance { s with
      world := if job ∈ s.world.jobs then s.world.jobRuns job succeeds else s.world }
    split
    · rename_i hjob
      exact inBalance_jobRuns h hjob succeeds
    · exact h
  | outside database collection live invalid =>
    cases hmove
    exact ⟨h.net, h.jobs⟩

theorem even_of_inStep (run : Interleaving) (hjobs : ∀ job ∈ run.start.jobs, job.site ≠ .undo)
    (hstep : ∀ c ∈ run.calls, InStep c) : run.final.Even := by
  have hstart : InBalance (poolOf run.start).state := by
    refine ⟨fun id => ?_, hjobs⟩
    change (0 : Int) = if run.start.isGone id then 1 else 0
    rw [World.isGone, run.log_nil]
    rfl
  have hfinal : InBalance run.final := by
    refine Pool.state_moves hstart (fun c hc => inBalance_call (hstep c hc)) ?_
    intro change hchange s h
    obtain ⟨move, -, hmove⟩ := List.mem_map.mp hchange
    exact inBalance_aside hmove h
  exact fun rec _ => hfinal.net rec.id

end InStep

/-- The ROI rows are right at rest exactly where the answered drops and rebuilds even out with what
became of each index, as they do if each call is in step. -/
theorem roi_matches_iff (run : Interleaving) :
    ((∀ rec ∈ run.final.world.table.rows, RoiMatches run.final.world rec) ↔ run.final.Even) ∧
      ((∀ job ∈ run.start.jobs, job.site ≠ .undo) → (∀ c ∈ run.calls, InStep c) →
        ∀ rec ∈ run.final.world.table.rows, RoiMatches run.final.world rec) :=
  ⟨matches_iff_even run, fun hjobs hstep =>
    (matches_iff_even run).mpr (even_of_inStep run hjobs hstep)⟩

/-! ## Undos of one drop -/

def dropMoves : List ServiceMove :=
  .start .finalizeCluster :: List.replicate 17 (.step 0 lateReply)

def undoneOnce : Interleaving where
  start := dueWorld
  roi_nil := rfl
  log_nil := rfl
  moves := dropMoves ++ .start (.rollback "r" "o") :: List.replicate 8 (.step 1 lateReply)
  uncrashed := by decide +kernel
  atRest := by decide +kernel

theorem undo_booked_once :
    ∀ rec ∈ undoneOnce.final.world.table.rows, RoiMatches undoneOnce.final.world rec :=
  (roi_matches_iff undoneOnce).2 (by decide +kernel) (by decide +kernel)

/-- Two undos of the drop run side by side, and both read the row before either writes it. -/
def undoneTwice : Interleaving where
  start := dueWorld
  roi_nil := rfl
  log_nil := rfl
  moves := dropMoves ++ .start (.rollback "r" "o") :: .start (.rollback "r" "o") ::
    (List.replicate 8 [.step 1 lateReply, .step 2 lateReply]).flatten
  uncrashed := by decide +kernel
  atRest := by decide +kernel

/-- The index is back, and the ROI rows count one more of them than there were. -/
theorem undo_booked_twice :
    (¬ ∀ rec ∈ undoneTwice.final.world.table.rows, RoiMatches undoneTwice.final.world rec) ∧
      undoneTwice.final.world.isGone "r" = false ∧
      undoneTwice.final.world.roi = [⟨"r", 100, 1⟩, ⟨"r", -100, -1⟩, ⟨"r", -100, -1⟩] ∧
      undoneTwice.final.world.indexes "d" "c" = [plainIndex "a_1" [⟨"a", .asc⟩]] := by
  refine ⟨fun h => ?_, by decide +kernel⟩
  have hcount := fun rec hrec => (h rec hrec).count
  revert hcount
  decide +kernel

end Indexterity.Service
