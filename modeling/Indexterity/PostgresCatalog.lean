import Mathlib.Data.List.Induction
import Mathlib.Data.List.Nodup
import Indexterity.Redundancy

/-!
# The catalog of PostgreSQL, and what is read of it

`listIndexes` of `postgres/collector.ts`. The query selects the access method and the validity of
an index and the loop does not look at them; operator classes, collations and the placement of
nulls it does not select, and of an expression it keeps the text.

So a spec stands for its index exactly as far as the unread attributes go along.
-/

namespace Indexterity.PgCatalog

/-! ## Reading -/

inductive PgTerm where
  | column (name : String)
  /-- The text of `pg_get_indexdef` for the column. -/
  | expression (definition : String)
deriving DecidableEq, Repr

def PgTerm.col : PgTerm → String
  | column name => name
  | expression definition => definition

def PgTerm.isExpression : PgTerm → Bool
  | column _ => false
  | expression _ => true

structure PgKey where
  term : PgTerm
  operatorClass : String
  collation : Option String
  descending : Bool
  nullsFirst : Bool
deriving DecidableEq, Repr

structure PgIndex where
  name : String
  method : String
  isUnique : Bool
  isPrimary : Bool
  isValid : Bool
  isReady : Bool
  predicate : Option String
  keys : List PgKey
  includes : List String
  keys_ne_nil : keys ≠ []

/-- A row of the query: one column of one index. -/
structure CatalogRow where
  name : String
  isUnique : Bool
  isPrimary : Bool
  isValid : Bool
  isReady : Bool
  method : String
  predicate : Option String
  col : String
  descending : Option Bool
  isInclude : Bool
deriving DecidableEq, Repr

def rowOf (index : PgIndex) (col : String) (descending : Option Bool) (isInclude : Bool) :
    CatalogRow where
  name := index.name
  isUnique := index.isUnique
  isPrimary := index.isPrimary
  isValid := index.isValid
  isReady := index.isReady
  method := index.method
  predicate := index.predicate
  col := col
  descending := descending
  isInclude := isInclude

def rowsOf (index : PgIndex) : List CatalogRow :=
  (index.keys.map fun key => rowOf index key.term.col (some key.descending) false) ++
    index.includes.map fun column => rowOf index column none true

/-- The result of the query, for indexes in the order of their names. -/
def catalogRows (indexes : List PgIndex) : List CatalogRow := indexes.flatMap rowsOf

structure SpecEntry where
  spec : IndexSpec
  keys : List IndexKey
  includes : List String

def SpecEntry.fresh (row : CatalogRow) : SpecEntry where
  spec :=
    { name := row.name
      keys := []
      unique := row.isUnique
      ttl := false
      isPartial := row.predicate.isSome
      partialFilter := row.predicate.map fun predicate => [("sql", .constant (.str predicate))]
      sparse := false
      hidden := false
      isShardKey := row.isPrimary
      collation := none
      includes := [] }
  keys := []
  includes := []

def keyDirection (descending : Option Bool) : IndexDirection :=
  if descending = some true then .desc else .asc

def SpecEntry.push (entry : SpecEntry) (row : CatalogRow) : SpecEntry :=
  if row.isInclude then { entry with includes := entry.includes ++ [row.col] }
  else { entry with keys := entry.keys ++ [⟨row.col, keyDirection row.descending⟩] }

def addRow (entries : List SpecEntry) (row : CatalogRow) : List SpecEntry :=
  if row.name ∈ entries.map fun entry => entry.spec.name then
    entries.map fun entry => if entry.spec.name = row.name then entry.push row else entry
  else entries ++ [(SpecEntry.fresh row).push row]

def SpecEntry.finish (entry : SpecEntry) : IndexSpec :=
  { entry.spec with keys := entry.keys, includes := entry.includes }

def listIndexes (rows : List CatalogRow) : List IndexSpec :=
  (rows.foldl addRow []).map SpecEntry.finish

/-! ## The spec of an index -/

def keyOf (key : PgKey) : IndexKey := ⟨key.term.col, keyDirection (some key.descending)⟩

def specOf (index : PgIndex) : IndexSpec where
  name := index.name
  keys := index.keys.map keyOf
  unique := index.isUnique
  ttl := false
  isPartial := index.predicate.isSome
  partialFilter := index.predicate.map fun predicate => [("sql", .constant (.str predicate))]
  sparse := false
  hidden := false
  isShardKey := index.isPrimary
  collation := none
  includes := index.includes

theorem name_push (entry : SpecEntry) (row : CatalogRow) :
    (entry.push row).spec.name = entry.spec.name := by
  unfold SpecEntry.push
  split <;> rfl

variable {entries : List SpecEntry} {indexes : List PgIndex}

theorem foldl_addRow_last {rows : List CatalogRow} {entry : SpecEntry}
    (hrows : ∀ row ∈ rows, row.name = entry.spec.name)
    (hnew : entry.spec.name ∉ entries.map fun other => other.spec.name) :
    rows.foldl addRow (entries ++ [entry]) = entries ++ [rows.foldl SpecEntry.push entry] := by
  induction rows generalizing entry with
  | nil => rfl
  | cons row rows ih =>
    rw [List.forall_mem_cons] at hrows
    have hothers : (entries.map fun other =>
        if other.spec.name = entry.spec.name then other.push row else other) = entries := by
      refine (List.map_congr_left fun other hother => if_neg fun heq => hnew ?_).trans
        (List.map_id entries)
      exact heq ▸ List.mem_map_of_mem hother
    have hadd : addRow (entries ++ [entry]) row = entries ++ [entry.push row] := by
      rw [addRow, if_pos (by simp [hrows.1]), List.map_append, hrows.1, hothers]
      simp
    rw [List.foldl_cons, hadd, List.foldl_cons]
    refine ih (fun r hr => (hrows.2 r hr).trans (name_push entry row).symm) ?_
    rwa [name_push]

variable (index : PgIndex)

theorem foldl_push_keys (keys : List PgKey) (entry : SpecEntry) :
    (keys.map fun key => rowOf index key.term.col (some key.descending) false).foldl
      SpecEntry.push entry = { entry with keys := entry.keys ++ keys.map keyOf } := by
  induction keys generalizing entry with
  | nil => simp
  | cons key keys ih =>
    rw [List.map_cons, List.foldl_cons, ih]
    simp [SpecEntry.push, rowOf, keyOf]

theorem foldl_push_includes (includes : List String) (entry : SpecEntry) :
    (includes.map fun column => rowOf index column none true).foldl SpecEntry.push entry =
      { entry with includes := entry.includes ++ includes } := by
  induction includes generalizing entry with
  | nil => simp
  | cons column includes ih =>
    rw [List.map_cons, List.foldl_cons, ih]
    simp [SpecEntry.push, rowOf]

def entryOf (index : PgIndex) : SpecEntry :=
  { SpecEntry.fresh (rowOf index "" none false) with
    keys := index.keys.map keyOf, includes := index.includes }

theorem foldl_addRow_rowsOf {index : PgIndex}
    (hnew : index.name ∉ entries.map fun other => other.spec.name) :
    (rowsOf index).foldl addRow entries = entries ++ [entryOf index] := by
  obtain ⟨key, keys, hkeys⟩ := List.exists_cons_of_ne_nil index.keys_ne_nil
  have hrows : rowsOf index = rowOf index key.term.col (some key.descending) false ::
      ((keys.map fun key => rowOf index key.term.col (some key.descending) false) ++
        index.includes.map fun column => rowOf index column none true) := by
    rw [rowsOf, hkeys, List.map_cons, List.cons_append]
  have hadd : addRow entries (rowOf index key.term.col (some key.descending) false) =
      entries ++ [(SpecEntry.fresh (rowOf index key.term.col (some key.descending) false)).push
        (rowOf index key.term.col (some key.descending) false)] := if_neg hnew
  rw [hrows, List.foldl_cons, hadd, foldl_addRow_last]
  · rw [List.foldl_append, foldl_push_keys, foldl_push_includes, entryOf, hkeys]
    simp [SpecEntry.push, SpecEntry.fresh, rowOf, keyOf]
  · simp only [List.mem_append, List.mem_map]
    rintro row (⟨_, -, rfl⟩ | ⟨_, -, rfl⟩) <;> rfl
  · exact hnew

theorem listIndexes_catalogRows (hnames : (indexes.map PgIndex.name).Nodup) :
    listIndexes (catalogRows indexes) = indexes.map specOf := by
  have hfold : (catalogRows indexes).foldl addRow [] = indexes.map entryOf := by
    induction indexes using List.reverseRecOn with
    | nil => rfl
    | append_singleton indexes index ih =>
      rw [List.map_append, List.nodup_append] at hnames
      rw [catalogRows, List.flatMap_append, List.foldl_append, ← catalogRows, ih hnames.1,
        List.flatMap_singleton, foldl_addRow_rowsOf, List.map_append, List.map_singleton]
      intro hin
      obtain ⟨other, hother, heq⟩ := List.mem_map.mp (List.map_map ▸ hin)
      exact hnames.2.2 _ (List.mem_map_of_mem hother) index.name (by simp) heq
  rw [listIndexes, hfold, List.map_map]
  rfl

theorem eq_specOf (hnames : (indexes.map PgIndex.name).Nodup) {index : PgIndex}
    (hindex : index ∈ indexes) {spec : IndexSpec} (hspec : spec ∈ listIndexes (catalogRows indexes))
    (hname : spec.name = index.name) : spec = specOf index := by
  rw [listIndexes_catalogRows hnames] at hspec
  obtain ⟨other, hother, rfl⟩ := List.mem_map.mp hspec
  rw [List.inj_on_of_nodup_map hnames hother hindex hname]

/-! ## Covering -/

/-- The keys of one index lead another's, all in the same order or all reversed. -/
def KeysAligned (reversed : Bool) : List PgKey → List PgKey → Prop
  | [], _ => True
  | _ :: _, [] => False
  | key :: keys, other :: others =>
    (other.term = key.term ∧ other.operatorClass = key.operatorClass ∧
      other.collation = key.collation ∧ other.descending = (key.descending ^^ reversed) ∧
      other.nullsFirst = (key.nullsFirst ^^ reversed)) ∧ KeysAligned reversed keys others

structure Serves (covered covering : PgIndex) : Prop where
  trees : covered.method = "btree" ∧ covering.method = "btree"
  valid : covering.isValid = true
  aligned : ∃ reversed, KeysAligned reversed covered.keys covering.keys

/-- The attributes of the keys that a spec does not show agree: nulls are placed alike exactly
where the directions are alike. -/
def UnreadAgree : List PgKey → List PgKey → Prop
  | [], _ => True
  | _ :: _, [] => False
  | key :: keys, other :: others =>
    (other.term.isExpression = key.term.isExpression ∧
      other.operatorClass = key.operatorClass ∧ other.collation = key.collation ∧
      (other.nullsFirst = key.nullsFirst ↔ other.descending = key.descending)) ∧
      UnreadAgree keys others

def directed (reversed : Bool) : IndexDirection → Option IndexDirection :=
  if reversed then IndexDirection.negate else some

theorem term_eq_iff (a b : PgTerm) : a = b ↔ a.col = b.col ∧ a.isExpression = b.isExpression := by
  cases a <;> cases b <;> simp [PgTerm.col, PgTerm.isExpression]

theorem directed_keyDirection_iff (reversed descending other : Bool) :
    directed reversed (keyDirection (some descending)) = some (keyDirection (some other)) ↔
      other = (descending ^^ reversed) := by
  cases reversed <;> cases descending <;> cases other <;> decide

theorem keysAligned_iff (reversed : Bool) (keys others : List PgKey) :
    KeysAligned reversed keys others ↔
      Leads (directed reversed) (keys.map keyOf) (others.map keyOf) ∧ UnreadAgree keys others := by
  induction keys generalizing others with
  | nil => simp [KeysAligned, Leads, UnreadAgree]
  | cons key keys ih =>
    cases others with
    | nil => simp [KeysAligned, Leads]
    | cons other others =>
      have hnulls : other.descending = (key.descending ^^ reversed) →
          (other.nullsFirst = (key.nullsFirst ^^ reversed) ↔
            (other.nullsFirst = key.nullsFirst ↔ other.descending = key.descending)) := by
        rintro hdescending
        rw [hdescending]
        cases reversed <;> cases key.descending <;> cases key.nullsFirst <;>
          cases other.nullsFirst <;> decide
      simp only [KeysAligned, ih, Leads, List.map_cons, UnreadAgree, keyOf, term_eq_iff,
        directed_keyDirection_iff]
      constructor
      · rintro ⟨⟨⟨hcol, hkind⟩, hclass, hcollation, hdescending, hplaced⟩, hleads, hrest⟩
        exact ⟨⟨hcol, hdescending, hleads⟩, ⟨hkind, hclass, hcollation,
          (hnulls hdescending).mp hplaced⟩, hrest⟩
      · rintro ⟨⟨hcol, hdescending, hleads⟩, ⟨hkind, hclass, hcollation, hplaced⟩, hrest⟩
        exact ⟨⟨⟨hcol, hkind⟩, hclass, hcollation, hdescending, (hnulls hdescending).mpr hplaced⟩,
          hleads, hrest⟩

/-- An index whose spec makes another one's redundant serves in its place, exactly when both are
b-trees, it is valid, and the attributes that were not read agree. -/
theorem redundant_serves_iff (indexes : List PgIndex) (hnames : (indexes.map PgIndex.name).Nodup)
    (covered covering : PgIndex) (hcovered : covered ∈ indexes) (hcovering : covering ∈ indexes)
    (spec other : IndexSpec) (hspec : spec ∈ listIndexes (catalogRows indexes))
    (hother : other ∈ listIndexes (catalogRows indexes)) (hname : spec.name = covered.name)
    (hothername : other.name = covering.name) (hredundant : isRedundantPrefix spec other = true) :
    Serves covered covering ↔
      covered.method = "btree" ∧ covering.method = "btree" ∧ covering.isValid = true ∧
        UnreadAgree covered.keys covering.keys := by
  obtain rfl := eq_specOf hnames hcovered hspec hname
  obtain rfl := eq_specOf hnames hcovering hother hothername
  constructor
  · rintro ⟨⟨htree, hothertree⟩, hvalid, reversed, haligned⟩
    exact ⟨htree, hothertree, hvalid, ((keysAligned_iff _ _ _).mp haligned).2⟩
  · rintro ⟨htree, hothertree, hvalid, hunread⟩
    refine ⟨⟨htree, hothertree⟩, hvalid, ?_⟩
    obtain ⟨-, -, -, -, horder⟩ := (isRedundantPrefix_iff _ _).mp hredundant
    rcases (coversKeyOrder_iff _ _).mp horder with hleads | hleads
    · exact ⟨false, (keysAligned_iff _ _ _).mpr ⟨hleads, hunread⟩⟩
    · exact ⟨true, (keysAligned_iff _ _ _).mpr ⟨hleads, hunread⟩⟩

def plainIndex (name method : String) (columns : List String) (hcolumns : columns ≠ []) :
    PgIndex where
  name := name
  method := method
  isUnique := false
  isPrimary := false
  isValid := true
  isReady := true
  predicate := none
  keys := columns.map fun column => ⟨.column column, "default", none, false, false⟩
  includes := []
  keys_ne_nil := fun h => hcolumns (List.map_eq_nil_iff.mp h)

/-- Two b-trees, one leading the other. -/
theorem narrow_tree_served :
    Serves (plainIndex "a_idx" "btree" ["a"] (by decide))
      (plainIndex "a_b_idx" "btree" ["a", "b"] (by decide)) :=
  (redundant_serves_iff [plainIndex "a_idx" "btree" ["a"] (by decide),
    plainIndex "a_b_idx" "btree" ["a", "b"] (by decide)] (by decide) _ _ List.mem_cons_self
    (List.mem_cons_of_mem _ List.mem_cons_self) (ascending "a_idx" ["a"])
    (ascending "a_b_idx" ["a", "b"]) (by decide) (by decide) rfl rfl (by decide)).mpr
    ⟨rfl, rfl, rfl, ⟨rfl, rfl, rfl, by decide⟩, trivial⟩

/-- An inverted index beside a b-tree on the same first column is taken for redundant. -/
theorem inverted_index_not_served :
    let inverted := plainIndex "tags_idx" "gin" ["tags"] (by decide)
    let tree := plainIndex "tags_id_idx" "btree" ["tags", "id"] (by decide)
    (∃ spec ∈ listIndexes (catalogRows [tree, inverted]), spec.name = inverted.name ∧
      ∃ other ∈ listIndexes (catalogRows [tree, inverted]), other.name = tree.name ∧
        isRedundantPrefix spec other = true) ∧ ¬ Serves inverted tree := by
  refine ⟨by decide, fun h => ?_⟩
  exact absurd h.trees.1 (by decide)

end Indexterity.PgCatalog
