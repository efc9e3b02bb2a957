import Indexterity.Recommend

/-!
# Preflight: the last check before a drop

`jobs/preflight.ts`. The check reads the indexes on the cluster, the usage counters
and the hinted indexes, and refuses with a reason or lets the drop through. What a
refusal or a pass says about the cluster is stated once, below the definition.
-/

namespace Indexterity

structure PreflightResult where
  safe : Bool
  reason : String
  spec : Option IndexSpec
deriving DecidableEq

structure DropTarget where
  type : RecommendationType
  indexName : String
  /-- `targetSpec.supersededBy`, on the row that retires a re-ordered index. -/
  supersededBy : Option String
deriving DecidableEq

/-- What a preflight reads besides the index list: each index's operations, summed over
its usage stats, and the names the workload hints at. -/
structure PreflightReads where
  ops : String → Int
  hinted : List String

def enforcesTheSame (original replacement : IndexSpec) : Bool :=
  if replacement.name = original.name then false
  else if replacement.keys.length ≠ original.keys.length then false
  else if replacement.fields ≠ original.fields then false
  else if replacement.keys.any fun key => key.direction != .asc && key.direction != .desc then false
  else if replacement.unique ≠ original.unique then false
  else if replacement.sparse ≠ original.sparse then false
  else if replacement.collation ≠ original.collation then false
  else if replacement.partialFilter ≠ original.partialFilter then false
  else if replacement.hidden then false
  else coversIncludes original replacement

def specNamed (specs : List IndexSpec) (name : String) : Option IndexSpec :=
  specs.find? fun candidate => candidate.name == name

/-- Why a protected index may not go, or `none` where its named replacement stands. -/
def protectedRefusal (specs : List IndexSpec) (spec : IndexSpec) (supersededBy : Option String) :
    Option String :=
  if !isNeverDrop spec then none
  else
    match supersededBy with
    | none => some "index is now protected (unique/ttl/shard key/_id_/text/geo)"
    | some replacementName =>
      match specNamed specs replacementName with
      | none => some ("the replacement " ++ replacementName ++
          " is not on the cluster, so dropping this would remove its constraint")
      | some replacement =>
        if enforcesTheSame spec replacement then none
        else some (replacementName ++ " no longer matches this index's keys and options, so it " ++
          "cannot be assumed to enforce the same rule")

def DropTarget.isPlainRedundant (target : DropTarget) : Bool :=
  target.type == .DROP_REDUNDANT && target.supersededBy.isNone

def coverRefusal (specs : List IndexSpec) (spec : IndexSpec) (target : DropTarget) :
    Option String :=
  if target.isPlainRedundant && (specs.find? fun other => isRedundantPrefix spec other).isNone then
    some "covering index no longer present"
  else none

def usageRefusal (reads : PreflightReads) (spec : IndexSpec) (target : DropTarget) :
    Option String :=
  if target.type = .DROP_UNUSED ∧ 0 < reads.ops spec.name then
    some ("index now has " ++ toString (reads.ops spec.name) ++ " recent ops")
  else none

def hintRefusal (reads : PreflightReads) (spec : IndexSpec) : Option String :=
  if reads.hinted.contains spec.name then
    some ("the workload names this index with hint(), so hiding it would make those queries " ++
      "fail")
  else none

def preflightDrop (specs : List IndexSpec) (reads : PreflightReads) (target : DropTarget) :
    PreflightResult :=
  match specNamed specs target.indexName with
  | none => ⟨false, "index no longer exists", none⟩
  | some spec =>
    match (((protectedRefusal specs spec target.supersededBy).or
      (coverRefusal specs spec target)).or (usageRefusal reads spec target)).or
      (hintRefusal reads spec) with
    | some reason => ⟨false, reason, some spec⟩
    | none => ⟨true, "ok", some spec⟩

/-! ## What a passed preflight shows -/

section Passed
variable {specs : List IndexSpec} {reads : PreflightReads} {target : DropTarget}

theorem specNamed_some {name : String} {spec : IndexSpec} (h : specNamed specs name = some spec) :
    spec ∈ specs ∧ spec.name = name := by
  have hmem := List.mem_of_find?_eq_some h
  have hname := List.find?_some h
  exact ⟨hmem, by simpa using hname⟩

theorem preflightDrop_safe_iff :
    (preflightDrop specs reads target).safe = true ↔
      ∃ spec, specNamed specs target.indexName = some spec ∧
        protectedRefusal specs spec target.supersededBy = none ∧
        coverRefusal specs spec target = none ∧ usageRefusal reads spec target = none ∧
        hintRefusal reads spec = none := by
  unfold preflightDrop
  cases hspec : specNamed specs target.indexName with
  | none => simp
  | some spec =>
    simp only [Option.some.injEq, exists_eq_left']
    split
    · rename_i hrefused
      refine iff_of_false (by simp) ?_
      rintro ⟨hprotected, hcover, husage, hhint⟩
      rw [hprotected, hcover, husage, hhint] at hrefused
      cases hrefused
    · rename_i hnone
      simp only [Option.or_eq_none_iff, and_assoc] at hnone
      exact iff_of_true rfl hnone

theorem preflightDrop_safe (h : (preflightDrop specs reads target).safe = true) :
    ∃ spec, specNamed specs target.indexName = some spec ∧
      (preflightDrop specs reads target).spec = some spec ∧
      protectedRefusal specs spec target.supersededBy = none ∧
      coverRefusal specs spec target = none := by
  obtain ⟨spec, hspec, hprotected, hcover, -, -⟩ := preflightDrop_safe_iff.mp h
  refine ⟨spec, hspec, ?_, hprotected, hcover⟩
  simp only [preflightDrop, hspec]
  split <;> rfl

theorem protectedRefusal_eq_none {spec : IndexSpec} {supersededBy : Option String}
    (h : protectedRefusal specs spec supersededBy = none) :
    isNeverDrop spec = false ∨ supersededBy.isSome = true := by
  cases hdrop : isNeverDrop spec with
  | false => exact .inl rfl
  | true =>
    cases supersededBy with
    | none => simp [protectedRefusal, hdrop] at h
    | some name => exact .inr rfl

end Passed

end Indexterity
