import Mathlib.Data.Prod.Lex
import Mathlib.Data.String.Basic
import Indexterity.Pipeline
import Indexterity.MongoIndex

/-!
# Undoing a drop

The way an index goes from the server into a rollback token and back: `listIndexes` of
`mongo/collector.ts`, `serializeSpec` of `mongo/snapshots.ts` under the `jsonb` column of
the actions, `parseStoredSpec`, `analysis/rollback.ts`, the `rollback` of
`recommendations/recommendations.service.ts` and `create` of `mongo/executor.ts`.

The call an undo issues is the dropped index exactly where nothing on the way is lost: the
key's order in an object, the filter in the column, and the collation beside its locale.
-/

namespace Indexterity

open Library

universe u

/-! ## Reading the collection -/

section Listing
variable {τ : Type u} (json : Value τ → String)

def shardKeyIsPrefix (shardKey indexFields : List String) : Bool :=
  if shardKey.length = 0 ∨ indexFields.length < shardKey.length then false
  else shardKey.zipIdx.all fun (field, i) => indexFields[i]? == some field

/-- `listIndexes`; the shard key is `none` where the collection has none or it cannot be
read. -/
def listIndexes (shardKey : Option (List String)) (descriptions : List (IndexDescription τ)) :
    List (ReadIndex τ) :=
  let specs := descriptions.map (toIndexSpec json)
  match shardKey with
  | none => specs
  | some key => specs.map fun index =>
      let isShardKey := shardKeyIsPrefix key index.spec.fields
      { index with spec := { index.spec with isShardKey := isShardKey } }

end Listing

/-! ## The token -/

structure StoredSpec (τ : Type u) where
  name : String
  keys : List IndexKey
  unique : Bool
  ttl : Bool
  isPartial : Bool
  partialFilter : Option (Members τ)
  sparse : Bool
  hidden : Bool
  isShardKey : Bool
  collation : Option String
  includes : List String

inductive RollbackToken (τ : Type u) where
  | spec (stored : StoredSpec τ)
  | indexName (name : String)

section Token
variable {τ : Type u} (json : Value τ → String) (column : JsonColumn τ)

def serializeSpec (index : ReadIndex τ) : StoredSpec τ where
  name := index.spec.name
  keys := index.spec.keys
  unique := index.spec.unique
  ttl := index.spec.ttl
  isPartial := index.spec.isPartial
  partialFilter := index.partialFilter
  sparse := index.spec.sparse
  hidden := index.spec.hidden
  isShardKey := index.spec.isShardKey
  collation := index.spec.collation
  includes := index.spec.includes

/-- A stored spec as the column returns it; only the filter holds objects of the server's. -/
def StoredSpec.reread (stored : StoredSpec τ) : StoredSpec τ :=
  { stored with
    partialFilter := stored.partialFilter.map fun filter =>
      column.arranged (rereadMembers column filter) }

/-- What finalize records of a drop: the token of the index its preflight read, where that
lets the drop through. -/
def dropToken (live : List (ReadIndex τ)) (reads : PreflightReads) (target : DropTarget) :
    Option (RollbackToken τ) :=
  if (preflightDrop (live.map ReadIndex.spec) reads target).safe then
    (live.find? fun index => index.spec.name == target.indexName).map fun index =>
      .spec (serializeSpec index)
  else none

def parseStoredSpec (stored : StoredSpec τ) : ReadIndex τ :=
  let filter := stored.partialFilter.map recordEntries
  { spec :=
      { name := stored.name
        keys := stored.keys
        unique := stored.unique
        ttl := stored.ttl
        isPartial := stored.isPartial
        partialFilter := filter.map fun members =>
          members.map fun member => (member.1, filterValue json member.2)
        sparse := stored.sparse
        hidden := stored.hidden
        isShardKey := stored.isShardKey
        collation := stored.collation
        includes := stored.includes }
    partialFilter := filter }

end Token

/-! ## The undo -/

/-- What the driver's `createIndex` is called with. A collation is the document with its
locale alone. -/
structure CreateIndexCall (τ : Type u) where
  keys : List (String × KeyDirection)
  name : String
  unique : Bool
  sparse : Bool
  partialFilterExpression : Option (Members τ)
  collation : Option String

inductive ErrorCode where
  | NOT_FOUND
  | CONFLICT
deriving DecidableEq

structure Refusal where
  code : ErrorCode
  message : String
deriving DecidableEq

/-- The loop of `rebuildKeys`: the assignments to its object, unless a key has no order. -/
def rebuildEntries : List IndexKey → Option (List (String × KeyDirection))
  | [] => some []
  | key :: keys =>
    match key.direction with
    | .asc => (rebuildEntries keys).map ((key.field, .number 1) :: ·)
    | .desc => (rebuildEntries keys).map ((key.field, .number (-1)) :: ·)
    | _ => none

def rebuildKeys (spec : IndexSpec) : Option (List (String × KeyDirection)) :=
  match rebuildEntries spec.keys with
  | none => none
  | some entries => if spec.keys = [] then none else some (ownEntries (assignAll entries))

section Undo
variable {τ : Type u} (json : Value τ → String) (column : JsonColumn τ)

/-- `rebuildOptions`, and what `create` of the executor passes on of it. -/
def rebuildCall (keys : List (String × KeyDirection)) (index : ReadIndex τ) :
    CreateIndexCall τ where
  keys := keys
  name := index.spec.name
  unique := index.spec.unique
  sparse := index.spec.sparse
  partialFilterExpression := index.partialFilter
  collation := index.spec.collation

def specToken : RollbackToken τ → Option (StoredSpec τ)
  | .spec stored => some stored
  | .indexName _ => none

/-- The create call of `rollback`, for a recommendation in a state, the tokens of its drop
actions with the newest first, and the cluster's mode. -/
def rollback (state : Option RecommendationState) (tokens : List (Option (RollbackToken τ)))
    (readOnly : Bool) : Except Refusal (CreateIndexCall τ) :=
  match state with
  | none => .error ⟨.NOT_FOUND, "recommendation not found"⟩
  | some state =>
    if state ≠ .DROPPED then .error ⟨.CONFLICT, "only a dropped index can be undone"⟩
    else
      match (tokens.filterMap fun token => token.bind specToken).head? with
      | none => .error ⟨.CONFLICT, "no rollback token recorded for this drop"⟩
      | some stored =>
        let index := parseStoredSpec json (stored.reread column)
        match rebuildKeys index.spec with
        | none => .error ⟨.CONFLICT, "stored spec cannot be rebuilt automatically"⟩
        | some keys =>
          if readOnly then .error ⟨.CONFLICT, "cluster is read-only"⟩
          else .ok (rebuildCall keys index)

end Undo

/-! ## What an undo restores -/

variable {entries : List (String × KeyDirection)}

section Restored
variable {τ : Type u}

/-- A create call builds the index a description lists. The server completes a collation
document: `completed` is what it keeps of one with a locale alone. -/
structure IndexDescription.Restored (desc : IndexDescription τ) (completed : String → Members τ)
    (call : CreateIndexCall τ) : Prop where
  name : call.name = desc.name
  keys : call.keys = desc.key
  unique : call.unique = desc.unique.getD false
  sparse : call.sparse = desc.sparse.getD false
  filter : call.partialFilterExpression = desc.partialFilterExpression
  collation : call.collation.map completed = desc.collation.map Collation.members

def listedIndex (json : Value τ → String) (shardKey : Option (List String))
    (desc : IndexDescription τ) : ReadIndex τ :=
  let index := toIndexSpec json desc
  match shardKey with
  | none => index
  | some key =>
    { index with spec := { index.spec with isShardKey := shardKeyIsPrefix key index.spec.fields } }

variable (json : Value τ → String) (column : JsonColumn τ) (shardKey : Option (List String))

theorem listIndexes_eq (descriptions : List (IndexDescription τ)) :
    listIndexes json shardKey descriptions = descriptions.map (listedIndex json shardKey) := by
  cases shardKey with
  | none => rfl
  | some key => rw [listIndexes, List.map_map]; rfl

theorem serializeSpec_listedIndex (desc : IndexDescription τ) :
    ∃ isShardKey, serializeSpec (listedIndex json shardKey desc) =
      { serializeSpec (toIndexSpec json desc) with isShardKey := isShardKey } := by
  cases shardKey with
  | none => exact ⟨_, rfl⟩
  | some key => exact ⟨_, rfl⟩

theorem name_listedIndex (desc : IndexDescription τ) :
    (listedIndex json shardKey desc).spec.name = desc.name := by
  cases shardKey <;> rfl

theorem rebuildEntries_map_readKey
    (h : ∀ entry ∈ entries, entry.2 = .number 1 ∨ entry.2 = .number (-1)) :
    rebuildEntries (entries.map readKey) = some entries := by
  induction entries with
  | nil => rfl
  | cons entry entries ih =>
    obtain ⟨field, direction⟩ := entry
    rw [List.forall_mem_cons] at h
    rcases h with ⟨rfl | rfl, hrest⟩ <;>
      simp [rebuildEntries, readKey, ih hrest]

theorem rebuildKeys_recordEntries {spec : IndexSpec}
    (hkeys : spec.keys = (recordEntries entries).map readKey)
    (h : ∀ entry ∈ entries, entry.2 = .number 1 ∨ entry.2 = .number (-1)) :
    rebuildKeys spec =
      if recordEntries entries = [] then none else some (recordEntries entries) := by
  have hobject : ownEntries (assignAll (recordEntries entries)) = recordEntries entries :=
    (ownEntries_assignAll_iff _).mpr (names_recordEntries entries)
  rw [rebuildKeys, hkeys, rebuildEntries_map_readKey fun entry hin =>
    h entry (recordEntries_subset entries hin)]
  simp only [hobject, List.map_eq_nil_iff]

def undoneFilter (filter : Members τ) : Members τ :=
  recordEntries (column.arranged (rereadMembers column (recordEntries filter)))

theorem rollback_stored (stored : StoredSpec τ) (older : List (Option (RollbackToken τ))) :
    rollback json column (some .DROPPED) (some (.spec stored) :: older) false =
      match rebuildKeys (parseStoredSpec json (stored.reread column)).spec with
      | none => .error ⟨.CONFLICT, "stored spec cannot be rebuilt automatically"⟩
      | some keys => .ok (rebuildCall keys (parseStoredSpec json (stored.reread column))) :=
  rfl

section Token
variable {descriptions : List (IndexDescription τ)}
  (hnames : (descriptions.map IndexDescription.name).Nodup) {desc : IndexDescription τ}
  (hdesc : desc ∈ descriptions)
  (hdirections : ∀ key ∈ desc.key, key.2 = .number 1 ∨ key.2 = .number (-1))
  {reads : PreflightReads} {target : DropTarget} (hname : target.indexName = desc.name)
  (hsafe : (preflightDrop ((listIndexes json shardKey descriptions).map ReadIndex.spec) reads
    target).safe = true) (older : List (Option (RollbackToken τ)))
include hnames hdesc hdirections hname hsafe

theorem rollback_dropToken :
    rollback json column (some .DROPPED)
        (dropToken (listIndexes json shardKey descriptions) reads target :: older) false =
      if recordEntries desc.key = [] then
        .error ⟨.CONFLICT, "stored spec cannot be rebuilt automatically"⟩
      else .ok
        { keys := recordEntries desc.key
          name := desc.name
          unique := desc.unique.getD false
          sparse := desc.sparse.getD false
          partialFilterExpression := desc.partialFilterExpression.map (undoneFilter column)
          collation := desc.collation.map Collation.locale } := by
  have hfound : (listIndexes json shardKey descriptions).find?
      (fun index => index.spec.name == target.indexName) =
        some (listedIndex json shardKey desc) := by
    rw [listIndexes_eq, hname, ← name_listedIndex json shardKey desc]
    apply find?_of_nodup (fun index : ReadIndex τ => index.spec.name)
    · simpa [List.map_map, Function.comp_def, name_listedIndex] using hnames
    · exact List.mem_map_of_mem hdesc
  have htoken : dropToken (listIndexes json shardKey descriptions) reads target =
      some (.spec (serializeSpec (listedIndex json shardKey desc))) := by
    rw [dropToken, if_pos hsafe, hfound, Option.map_some]
  obtain ⟨isShardKey, hstored⟩ := serializeSpec_listedIndex json shardKey desc
  rw [htoken, rollback_stored, hstored, rebuildKeys_recordEntries rfl hdirections]
  by_cases hnone : recordEntries desc.key = []
  · rw [if_pos hnone, if_pos hnone]
  · rw [if_neg hnone, if_neg hnone]
    simp only [rebuildCall, parseStoredSpec, StoredSpec.reread, serializeSpec, toIndexSpec,
      Option.map_map]
    rfl

/-- A restoring call is issued exactly where reading, storing and reading back kept the key,
the filter and the collation. -/
theorem exists_restored_iff (completed : String → Members τ) :
    (∃ call, rollback json column (some .DROPPED)
        (dropToken (listIndexes json shardKey descriptions) reads target :: older) false =
          .ok call ∧ desc.Restored completed call) ↔
      recordEntries desc.key = desc.key ∧
        desc.partialFilterExpression.map (undoneFilter column) = desc.partialFilterExpression ∧
        (desc.collation.map Collation.locale).map completed =
          desc.collation.map Collation.members := by
  rw [rollback_dropToken json column shardKey hnames hdesc hdirections hname hsafe older]
  constructor
  · rintro ⟨call, hcall, hrestored⟩
    split_ifs at hcall
    obtain rfl := Except.ok.inj hcall
    exact ⟨hrestored.keys, hrestored.filter, hrestored.collation⟩
  · rintro ⟨hkeys, hfiltered, hcollated⟩
    have hnonempty : recordEntries desc.key ≠ [] := by
      rw [hkeys]
      exact desc.key_ne_nil
    exact ⟨_, if_neg hnonempty, rfl, hkeys, rfl, rfl, hfiltered, hcollated⟩

end Token

theorem undoneFilter_eq_self_iff (desc : IndexDescription τ) {filter : Members τ}
    (h : desc.partialFilterExpression = some filter) :
    undoneFilter column filter = filter ↔
      "__proto__" ∉ filter.map Prod.fst ∧ (Value.document filter).kept column = true :=
  recordEntries_reread_iff column (desc.filter_distinct filter h)

/-- An undo issues the call that builds the dropped index exactly where its fields are read
in their order, its filter passes the column, and its locale stands for its collation. -/
theorem rollback_restores_iff (completed : String → Members τ)
    (descriptions : List (IndexDescription τ))
    (hnames : (descriptions.map IndexDescription.name).Nodup) (desc : IndexDescription τ)
    (hdesc : desc ∈ descriptions)
    (hdirections : ∀ key ∈ desc.key, key.2 = .number 1 ∨ key.2 = .number (-1))
    (reads : PreflightReads) (target : DropTarget) (hname : target.indexName = desc.name)
    (hsafe : (preflightDrop ((listIndexes json shardKey descriptions).map ReadIndex.spec) reads
      target).safe = true) (older : List (Option (RollbackToken τ))) :
    (∃ call, rollback json column (some .DROPPED)
        (dropToken (listIndexes json shardKey descriptions) reads target :: older) false =
          .ok call ∧ desc.Restored completed call) ↔
      desc.KeyInOrder ∧
        (∀ filter, desc.partialFilterExpression = some filter →
          "__proto__" ∉ filter.map Prod.fst ∧ (Value.document filter).kept column = true) ∧
        ∀ collation, desc.collation = some collation →
          completed collation.locale = collation.members := by
  rw [exists_restored_iff json column shardKey hnames hdesc hdirections hname hsafe older completed]
  refine and_congr desc.recordEntries_key_iff (and_congr ?_ ?_)
  · cases hfilter : desc.partialFilterExpression with
    | none => simp
    | some filter =>
      simp only [Option.map_some, Option.some.injEq, forall_eq',
        undoneFilter_eq_self_iff column desc hfilter]
  · cases desc.collation <;> simp

end Restored

/-! ## Undoing on a server -/

/-- Two of the types a filter has and JSON lacks. -/
inductive BsonType where
  | date (iso : String)
  | objectId (hex : String)
deriving DecidableEq

/-- A column that lists shorter names first, and names of one length by their bytes. -/
def jsonb : JsonColumn BsonType where
  form
    | .date iso => .text iso
    | .objectId hex => .text hex
  form_untyped value other := by cases value <;> simp
  listed a b := decide (toLex (a.utf8ByteSize, a) ≤ toLex (b.utf8ByteSize, b))
  listed_total a b := by simpa using le_total (toLex (a.utf8ByteSize, a)) _
  listed_trans hab hbc := by simpa using le_trans (of_decide_eq_true hab) (of_decide_eq_true hbc)
  listed_antisymm hab hba := by
    have heq := le_antisymm (of_decide_eq_true hab) (of_decide_eq_true hba)
    exact (Prod.mk.inj heq).2

/-- The undo of an unused index that was dropped from a collection of its own. -/
def undone (desc : IndexDescription BsonType) : Except Refusal (CreateIndexCall BsonType) :=
  rollback (fun _ => "") jsonb (some .DROPPED)
    [dropToken (listIndexes (fun _ => "") none [desc]) ⟨fun _ => 0, []⟩
      ⟨.DROP_UNUSED, desc.name, none⟩] false

def openOrders : IndexDescription BsonType :=
  { described "at_-1_a_1" [("at", .number (-1)), ("a", .number 1)] (some (french 3))
      (by decide) (by decide) with
    sparse := some false
    partialFilterExpression := some
      [("status", .text "open"), ("customer", .document [("$gt", .number 7)])]
    filter_distinct := by
      intro filter hfilter
      obtain rfl := Option.some.inj hfilter
      decide }

theorem rollback_restores_openOrders :
    ∃ call, undone openOrders = .ok call ∧
      openOrders.Restored (fun _ => (french 3).members) call := by
  refine (rollback_restores_iff (fun _ => "") jsonb none (fun _ => (french 3).members) [openOrders]
    (by decide) openOrders List.mem_cons_self (by decide) _ _ rfl (by decide)
    []).mpr ⟨by decide, ?_, ?_⟩
  · intro filter hfilter
    obtain rfl := Option.some.inj hfilter
    decide
  · intro collation hcollation
    obtain rfl := Option.some.inj hcollation
    rfl

def sinceDate : IndexDescription BsonType :=
  { described "a_1" [("a", .number 1)] none (by decide) (by decide) with
    partialFilterExpression := some
      [("at", .document [("$gt", .typed (.date "2026-01-01T00:00:00.000Z"))])]
    filter_distinct := by
      intro filter hfilter
      obtain rfl := Option.some.inj hfilter
      decide }

theorem undone_restored {desc : IndexDescription BsonType} {completed : String → Members BsonType}
    {call : CreateIndexCall BsonType}
    (hdirections : ∀ key ∈ desc.key, key.2 = .number 1 ∨ key.2 = .number (-1))
    (hsafe : (preflightDrop ((listIndexes (fun _ => "") none [desc]).map ReadIndex.spec)
      ⟨fun _ => 0, []⟩ ⟨.DROP_UNUSED, desc.name, none⟩).safe = true)
    (hcall : undone desc = .ok call) (h : desc.Restored completed call) :
    recordEntries desc.key = desc.key ∧
      desc.partialFilterExpression.map (undoneFilter jsonb) = desc.partialFilterExpression ∧
      (desc.collation.map Collation.locale).map completed =
        desc.collation.map Collation.members := by
  have hnames : ([desc].map IndexDescription.name).Nodup := List.nodup_singleton desc.name
  exact (exists_restored_iff (fun _ => "") jsonb none hnames List.mem_cons_self hdirections rfl
    hsafe [] completed).mp ⟨call, hcall, h⟩

/-- Whatever the server makes of a locale alone: a field an object enumerates first goes to
the front of the key, a date in a filter comes back as a text, and of two strengths of a
locale one is not restored. -/
theorem undo_loses_index :
    (∀ completed call, undone (onZeroSecond BsonType) = .ok call →
        ¬ (onZeroSecond BsonType).Restored completed call) ∧
      (∀ completed call, undone sinceDate = .ok call → ¬ sinceDate.Restored completed call) ∧
      ∀ completed call call', undone (lettersOnly BsonType) = .ok call →
        undone (fullStrength BsonType) = .ok call' →
          ¬ ((lettersOnly BsonType).Restored completed call ∧
            (fullStrength BsonType).Restored completed call') := by
  refine ⟨fun completed call hcall hrestored => ?_, fun completed call hcall hrestored => ?_,
    fun completed call call' hcall hcall' hrestored => ?_⟩
  · have hkey := (undone_restored (by decide) (by decide) hcall hrestored).1
    exact absurd hkey (by decide)
  · have hfilter := (undone_restored (by decide) (by decide) hcall hrestored).2.1
    have hkept := (undoneFilter_eq_self_iff jsonb sinceDate rfl).mp (Option.some.inj hfilter)
    exact absurd hkept.2 (by decide)
  · have hletters := (undone_restored (by decide) (by decide) hcall hrestored.1).2.2
    have hfull := (undone_restored (by decide) (by decide) hcall' hrestored.2).2.2
    have hmembers : (french 1 : Collation BsonType).members = (french 3).members :=
      (Option.some.inj hletters).symm.trans (Option.some.inj hfull)
    simp [french] at hmembers

end Indexterity
