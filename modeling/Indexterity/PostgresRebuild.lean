import Indexterity.PostgresCatalog
import Indexterity.Rollback

/-!
# Rebuilding an index of PostgreSQL

The undo of a drop on PostgreSQL: the spec in the token, `rebuildKeys` and `rebuildOptions` of
`analysis/rollback.ts`, and `create` of `postgres/executor.ts` on either of its routes. The
column of the token keeps texts, flags and the one entry of a filter as they are.

The statement names no access method and no placement of nulls, quotes every key as a column, and
takes the keys from an object. It builds the dropped index exactly where none of this matters.
-/

namespace Indexterity.PgCatalog

open Library

/-- What `create` is called with beside the keys. -/
structure RebuildOptions where
  name : String
  unique : Bool
  partialFilterExpression : Option (List (String × FilterValue))
  includes : List String

def rebuildOptions (spec : IndexSpec) : RebuildOptions where
  name := spec.name
  unique := spec.unique
  partialFilterExpression := spec.partialFilter
  includes := spec.includes

/-- `partialPredicate`: the text under `sql`, unless it is blank. -/
def partialPredicate (options : RebuildOptions) : Option String :=
  match options.partialFilterExpression with
  | none => none
  | some filter =>
    match filter.lookup "sql" with
    | some (.constant (.str sql)) => if trim sql.toList = [] then none else some sql
    | _ => none

/-- A `CREATE INDEX`: quoted columns, and whether `DESC` follows. -/
structure CreateStatement where
  unique : Bool
  name : String
  schema : String
  table : String
  columns : List (String × Bool)
  includes : List String
  predicate : Option String
deriving DecidableEq, Repr

structure CreateReads where
  /-- A read-only cluster, a version that was not tested, a standby. -/
  refusal : Option String
  nameHolder : Option String
  ownsTable : Bool
  cronUsable : Bool

/-- `create`. The direct statement and the one of `apply_index` name the same index; the latter
takes no predicate. -/
def create (reads : CreateReads) (schema table : String) (keys : List (String × KeyDirection))
    (options : RebuildOptions) : Except String CreateStatement :=
  match reads.refusal, reads.nameHolder with
  | some refusal, _ => .error refusal
  | none, some holder =>
    .error ("the name " ++ options.name ++ " is already taken in schema " ++ schema ++ " by " ++
      holder)
  | none, none =>
    let predicate := partialPredicate options
    if !reads.ownsTable && reads.cronUsable && predicate.isSome then
      .error ("refusing to build partial index " ++ options.name ++
        " through the pg_cron apply function: its predicate is arbitrary SQL and the function " ++
        "accepts identifiers only, so the index would be built without the predicate. Apply " ++
        "this one with an owner connection string.")
    else
      .ok
        { unique := options.unique
          name := options.name
          schema := schema
          table := table
          columns := keys.map fun entry => (entry.1, decide (entry.2 = .number (-1)))
          includes := options.includes
          predicate := predicate }

def undoStatement (reads : CreateReads) (schema table : String) (spec : IndexSpec) :
    Except String CreateStatement :=
  match rebuildKeys spec with
  | none => .error "stored spec cannot be rebuilt automatically"
  | some keys => create reads schema table keys (rebuildOptions spec)

/-! ## What a statement defines -/

abbrev KeyShape := PgTerm × Bool × Bool

def PgKey.shape (key : PgKey) : KeyShape := (key.term, key.descending, key.nullsFirst)

/-- Nulls come first in a descending key and last in an ascending one. -/
def definedKey (column : String × Bool) : KeyShape := (.column column.1, column.2, column.2)

/-- A statement without `USING` defines a b-tree. -/
structure Rebuilds (index : PgIndex) (statement : CreateStatement) : Prop where
  method : index.method = "btree"
  keys : statement.columns.map definedKey = index.keys.map PgKey.shape
  includes : statement.includes = index.includes
  unique : statement.unique = index.isUnique
  predicate : statement.predicate = index.predicate

/-- Everything about an index that the statement leaves to the server is as the server has it. -/
structure Rebuildable (index : PgIndex) : Prop where
  method : index.method = "btree"
  columns : ∀ key ∈ index.keys, key.term.isExpression = false
  nulls : ∀ key ∈ index.keys, key.nullsFirst = key.descending
  distinct : (index.keys.map fun key => key.term.col).Nodup
  proto : "__proto__" ∉ index.keys.map fun key => key.term.col
  order : Enumerated (index.keys.map fun key => key.term.col)
  predicate : ∀ predicate, index.predicate = some predicate → trim predicate.toList ≠ []

def keyEntry (key : PgKey) : String × KeyDirection :=
  (key.term.col, .number (if key.descending then -1 else 1))

theorem rebuildEntries_keys (keys : List PgKey) :
    rebuildEntries (keys.map keyOf) = some (keys.map keyEntry) := by
  induction keys with
  | nil => rfl
  | cons key keys ih =>
    cases hdescending : key.descending <;>
      simp [rebuildEntries, keyOf, keyDirection, keyEntry, hdescending, ih]

theorem rebuildKeys_specOf (index : PgIndex) :
    rebuildKeys (specOf index) = some (ownEntries (assignAll (index.keys.map keyEntry))) := by
  have hne : (specOf index).keys ≠ [] := fun h => index.keys_ne_nil (List.map_eq_nil_iff.mp h)
  have hentries : rebuildEntries (specOf index).keys = some (index.keys.map keyEntry) :=
    rebuildEntries_keys index.keys
  rw [rebuildKeys, hentries]
  exact if_neg hne

theorem partialPredicate_eq_iff (index : PgIndex) :
    partialPredicate (rebuildOptions (specOf index)) = index.predicate ↔
      ∀ predicate, index.predicate = some predicate → trim predicate.toList ≠ [] := by
  cases hpredicate : index.predicate with
  | none => simp [partialPredicate, rebuildOptions, specOf, hpredicate]
  | some predicate =>
    simp [partialPredicate, rebuildOptions, specOf, hpredicate]

def columnOf (entry : String × KeyDirection) : String × Bool :=
  (entry.1, decide (entry.2 = .number (-1)))

theorem create_ok {reads : CreateReads} {schema table : String}
    {keys : List (String × KeyDirection)} {options : RebuildOptions} {statement : CreateStatement}
    (h : create reads schema table keys options = .ok statement) :
    statement = ⟨options.unique, options.name, schema, table, keys.map columnOf,
      options.includes, partialPredicate options⟩ := by
  unfold create at h
  split at h
  · cases h
  · cases h
  · dsimp only at h
    split at h
    · cases h
    · exact (Except.ok.inj h).symm

/-- A column of the statement defines a key exactly where it is that key's own, the key is a column
and its nulls are placed by default. -/
theorem definedKey_eq_iff {entry : String × KeyDirection}
    (h : entry.2 = .number 1 ∨ entry.2 = .number (-1)) (key : PgKey) :
    definedKey (columnOf entry) = key.shape ↔
      entry = keyEntry key ∧ key.term.isExpression = false ∧ key.nullsFirst = key.descending := by
  obtain ⟨name, direction⟩ := entry
  obtain ⟨term, _, _, descending, nullsFirst⟩ := key
  have hne : (KeyDirection.number 1 : KeyDirection) ≠ .number (-1) := by decide
  rcases h with rfl | rfl <;> cases term <;> cases descending <;> cases nullsFirst <;>
    simp [definedKey, columnOf, PgKey.shape, keyEntry, PgTerm.isExpression, PgTerm.col, hne,
      hne.symm]

theorem map_definedKey_eq_iff {entries : List (String × KeyDirection)}
    (h : ∀ entry ∈ entries, entry.2 = .number 1 ∨ entry.2 = .number (-1)) (keys : List PgKey) :
    (entries.map columnOf).map definedKey = keys.map PgKey.shape ↔
      entries = keys.map keyEntry ∧ (∀ key ∈ keys, key.term.isExpression = false) ∧
        ∀ key ∈ keys, key.nullsFirst = key.descending := by
  induction entries generalizing keys with
  | nil => cases keys <;> simp
  | cons entry entries ih =>
    cases keys with
    | nil => simp
    | cons key keys =>
      rw [List.forall_mem_cons] at h
      simp only [List.map_cons, List.cons.injEq, ih h.2, definedKey_eq_iff h.1,
        List.forall_mem_cons]
      constructor
      · rintro ⟨⟨hentry, hcolumn, hnulls⟩, hentries, hcolumns, hallnulls⟩
        exact ⟨⟨hentry, hentries⟩, ⟨hcolumn, hcolumns⟩, hnulls, hallnulls⟩
      · rintro ⟨⟨hentry, hentries⟩, ⟨hcolumn, hcolumns⟩, hnulls, hallnulls⟩
        exact ⟨⟨hentry, hcolumn, hnulls⟩, hentries, hcolumns, hallnulls⟩

theorem directions_ownEntries (keys : List PgKey) :
    ∀ entry ∈ ownEntries (assignAll (keys.map keyEntry)),
      entry.2 = .number 1 ∨ entry.2 = .number (-1) := by
  intro entry hentry
  have hmem := assignAll_subset _ ((perm_ownEntries _).mem_iff.mp hentry)
  obtain ⟨key, -, rfl⟩ := List.mem_map.mp hmem
  cases hdescending : key.descending <;> simp [keyEntry, hdescending]

/-- The statement that an undo issues builds the dropped index, exactly when the index is a b-tree
on distinct columns in the order an object lists them, with nulls placed by default and a
predicate that is not blank. -/
theorem undo_rebuilds_iff (index : PgIndex) (reads : CreateReads) (schema table : String)
    (statement : CreateStatement)
    (hissued : undoStatement reads schema table (specOf index) = .ok statement) :
    Rebuilds index statement ↔ Rebuildable index := by
  have hcreate : create reads schema table (ownEntries (assignAll (index.keys.map keyEntry)))
      (rebuildOptions (specOf index)) = .ok statement := by
    rwa [undoStatement, rebuildKeys_specOf] at hissued
  obtain rfl := create_ok hcreate
  have hkeys := map_definedKey_eq_iff (directions_ownEntries index.keys) index.keys
  have hobject := ownEntries_assignAll_iff (index.keys.map keyEntry)
  rw [List.map_map] at hobject
  constructor
  · rintro ⟨hmethod, hdefined, -, -, hpredicate⟩
    obtain ⟨hentries, hcolumns, hnulls⟩ := hkeys.mp hdefined
    obtain ⟨hdistinct, hproto, horder⟩ := hobject.mp hentries
    exact ⟨hmethod, hcolumns, hnulls, hdistinct, hproto, horder,
      (partialPredicate_eq_iff index).mp hpredicate⟩
  · rintro ⟨hmethod, hcolumns, hnulls, hdistinct, hproto, horder, hpredicate⟩
    exact ⟨hmethod, hkeys.mpr ⟨hobject.mpr ⟨hdistinct, hproto, horder⟩, hcolumns, hnulls⟩, rfl, rfl,
      (partialPredicate_eq_iff index).mpr hpredicate⟩

/-- A create that nothing stands in the way of, by the owner of the table. -/
def ownerReads : CreateReads := ⟨none, none, true, false⟩

/-- A b-tree on two columns comes back. -/
theorem undo_rebuilds_tree :
    Rebuilds (plainIndex "a_b_idx" "btree" ["a", "b"] (by decide))
      ⟨false, "a_b_idx", "public", "orders", [("a", false), ("b", false)], [], none⟩ :=
  (undo_rebuilds_iff _ ownerReads "public" "orders" _ (by decide)).mpr
    ⟨rfl, by decide, by decide, by decide, by decide, by decide, nofun⟩

/-- An inverted index can be dropped, and comes back as a b-tree. -/
theorem undo_loses_method :
    let inverted := plainIndex "tags_idx" "gin" ["tags"] (by decide)
    isNeverDrop (specOf inverted) = false ∧
      ∃ statement, undoStatement ownerReads "public" "posts" (specOf inverted) = .ok statement ∧
        ¬ Rebuilds inverted statement := by
  refine ⟨by decide, _, rfl, fun h => ?_⟩
  exact absurd h.method (by decide)

end Indexterity.PgCatalog
