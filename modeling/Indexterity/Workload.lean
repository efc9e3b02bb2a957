import Indexterity.QueryShape
import Indexterity.Recommend

/-!
# Workload: indexes proposed from query shapes

`recommendCreates` of `analysis/workload.ts`. The first loop turns shapes into wants,
one a wanted key; the second folds each want into the widest later want that covers
it; what survives is proposed. The map of seen keys holds the wants themselves, so a
want is found by its own key. `onDecline` is the list of what it was told.
-/

namespace Indexterity

structure CreateOptions extends WorkloadOptions where
  partialIndexes : Bool

inductive ShapeDecline where
  | notRecurring
  | adHocClient
  | indexExists
  | noCandidate
deriving DecidableEq, Repr

/-- `Record<string, ConstantValue>`, as its entries. -/
abbrev ConstantFilter := List (String × ConstantValue)

structure CreateCandidate where
  type : RecommendationType
  keys : List SortKey
  retireIndexes : List String
  rationale : String
  count : Int
  scanning : Bool
  partialFilter : Option ConstantFilter
  sourceShapes : List QueryShape
deriving DecidableEq

structure Want where
  shape : QueryShape
  wantedKeys : List SortKey
  partialFilter : Option ConstantFilter
  blocks : KeyBlocks
  lead : List String
  scanning : Bool
  absorbedCount : Int
  absorbedShapes : Int
  sourceShapes : List QueryShape
deriving DecidableEq

/-! ## Comparing keys -/

def isPrefix (shorter longer : List String) : Bool :=
  if shorter.length = 0 ∨ longer.length ≤ shorter.length then false
  else shorter.zipIdx.all fun (field, i) => longer[i]? == some field

def equalFields (a b : List String) : Bool :=
  a.length == b.length && a.zipIdx.all fun (field, i) => b[i]? == some field

def describe (keys : List SortKey) : String :=
  String.intercalate ", " (keys.map fun key =>
    match key.direction with
    | .desc => key.field ++ ": -1"
    | .asc => key.field)

def directedPrefixOrEqual (a b : List SortKey) : Bool :=
  if b.length < a.length then false
  else a.zipIdx.all fun (key, i) => b[i]? == some key

def sameSet (a b : List String) : Bool :=
  a.length == b.length && a.all fun field => b.contains field

def distinct (fields : List String) : List String := fields.eraseDups

section Filters
variable (host : Host)

def canonical (filter : List (String × FilterValue)) : List (String × FilterValue) :=
  filter.insertionSort fun a b => host.localeCompare a.1 b.1 ≤ 0

def sameFilter (a b : Option (List (String × FilterValue))) : Bool :=
  match a, b with
  | none, none => true
  | some left, some right => canonical host left == canonical host right
  | _, _ => false

def filterValues (filter : ConstantFilter) : List (String × FilterValue) :=
  filter.map fun entry => (entry.1, .constant entry.2)

def spanServes (span : List IndexKey) (blocks : KeyBlocks) : Bool :=
  let equality := blocks.equality.length
  let sortEnd := equality + blocks.sort.length
  let sorted := (span.take sortEnd).drop equality
  let fieldsServed := sorted.zipIdx.all fun (key, i) =>
    some key.field == (blocks.sort[i]?.map SortKey.field)
  let forward := sorted.zipIdx.all fun (key, i) =>
    some key.direction == (blocks.sort[i]?.map fun wanted => wanted.direction.index)
  let backward := sorted.zipIdx.all fun (key, i) =>
    some key.direction == (blocks.sort[i]?.map fun wanted => wanted.direction.reverse.index)
  sameSet ((span.take equality).map IndexKey.field) blocks.equality &&
    (fieldsServed && (forward || backward)) &&
    sameSet ((span.drop sortEnd).map IndexKey.field) blocks.range

def servesWant (index : IndexSpec) (wantedKeys : List SortKey) (blocks : KeyBlocks)
    (partialFilter : Option ConstantFilter) : Bool :=
  let wanted := fieldNames wantedKeys
  if equalFields index.fields wanted then true
  else if index.sparse || !(index.partialFilter.isNone ||
      sameFilter host index.partialFilter (partialFilter.map filterValues)) then false
  else
    let span := index.keys.take wanted.length
    if span.length < wanted.length then false
    else if span.any (fun key => key.direction != .asc && key.direction != .desc) then false
    else spanServes span blocks

end Filters

/-! ## Folding wants -/

def sortSitsInEquality (sort : List SortKey) (wideEquality : List String) : Bool :=
  sort.all (fun key => wideEquality.contains key.field) &&
    (sort.length == 1 || sort.all fun key => key.direction == .asc)

def sortFromEquality (narrow wide : Want) : Bool :=
  decide (0 < narrow.blocks.sort.length) &&
    sortSitsInEquality narrow.blocks.sort wide.blocks.equality

def absorbs (narrow wide : Want) : Bool :=
  if narrow.partialFilter.isSome || wide.partialFilter.isSome then false
  else if !narrow.blocks.equality.all (fun field => wide.blocks.equality.contains field) then false
  else
    let sameEquality := narrow.blocks.equality.length == wide.blocks.equality.length
    if !sortFromEquality narrow wide && (!sameEquality && decide (0 < narrow.blocks.sort.length)) then
      false
    else if !sortFromEquality narrow wide &&
        !directedPrefixOrEqual narrow.blocks.sort wide.blocks.sort then false
    else
      let wideCovers := wide.blocks.equality ++ fieldNames wide.blocks.sort ++ wide.blocks.range
      if !narrow.blocks.range.all (fun field => wideCovers.contains field) then false
      else
        let narrowLeads := narrow.blocks.equality ++
          (if sortFromEquality narrow wide then fieldNames narrow.blocks.sort else [])
        wide.lead.all fun field => narrowLeads.contains field

def leadWith (want : Want) : List SortKey :=
  if want.lead = [] then want.wantedKeys
  else
    want.lead.flatMap (fun field => want.wantedKeys.filter fun key => key.field == field) ++
      want.wantedKeys.filter fun key => !want.lead.contains key.field

def absorb (want widest : Want) : Want :=
  { widest with
    absorbedCount := widest.absorbedCount + (want.shape.count + want.absorbedCount)
    absorbedShapes := widest.absorbedShapes + (1 + want.absorbedShapes)
    scanning := widest.scanning || want.scanning
    lead := distinct (widest.lead ++ want.lead ++ want.blocks.equality ++
      (fieldNames want.blocks.sort).filter fun field => widest.blocks.equality.contains field)
    sourceShapes := widest.sourceShapes ++ want.sourceShapes }

def lastAbsorber (want : Want) : List Want → Option (List Want × Want × List Want)
  | [] => none
  | other :: rest =>
    match lastAbsorber want rest with
    | some (before, widest, after) => some (other :: before, widest, after)
    | none => if absorbs want other then some ([], other, rest) else none

/-- The consolidation loop over what is left of the sorted wants; each turn takes one
off the front, so their number is enough turns. -/
def survivorsOf : Nat → List Want → List Want
  | 0, _ => []
  | _ + 1, [] => []
  | turns + 1, want :: later =>
    match lastAbsorber want later with
    | some (before, widest, after) =>
      survivorsOf turns (before ++ absorb want widest :: after)
    | none => want :: survivorsOf turns later

def sortedWants (wants : List Want) : List Want :=
  wants.insertionSort fun a b => a.wantedKeys.length ≤ b.wantedKeys.length

def consolidate (wants : List Want) : List Want :=
  survivorsOf wants.length (sortedWants wants)

/-! ## Wants -/

/-- What a shape asks an index for: the keys left once constant fields became a filter. -/
structure Asked where
  wantedKeys : List SortKey
  partialFilter : Option ConstantFilter
deriving DecidableEq

def constantOf (constants : ConstantFilter) (field : String) : Option ConstantValue :=
  (constants.find? fun entry => entry.1 == field).map Prod.snd

def constantFields (shape : QueryShape) : List String :=
  (shape.constants.map Prod.fst).filter fun field => shape.equality.contains field

def constantFilter (shape : QueryShape) : ConstantFilter :=
  (constantFields shape).filterMap fun field =>
    (constantOf shape.constants field).map fun value => (field, value)

def isConstant (shape : QueryShape) (key : SortKey) : Bool :=
  (constantFields shape).contains key.field

/-- Constants move only where other keys remain and the engine can filter. -/
def askedOf (options : CreateOptions) (shape : QueryShape) : Asked :=
  if options.partialIndexes && decide (0 < (constantFields shape).length) &&
      (esrKeys shape).any (fun key => !isConstant shape key) then
    { wantedKeys := (esrKeys shape).filter fun key => !isConstant shape key
      partialFilter := some (constantFilter shape) }
  else
    { wantedKeys := esrKeys shape
      partialFilter := none }

def keyText (keys : List SortKey) : String :=
  String.intercalate "," (keys.map fun key => key.field ++ ":" ++ key.direction.text)

structure WorkloadState where
  wants : List Want
  declines : List (QueryShape × ShapeDecline)

def WorkloadState.decline (state : WorkloadState) (shape : QueryShape) (reason : ShapeDecline) :
    WorkloadState :=
  { state with declines := state.declines ++ [(shape, reason)] }

def joinWant (want : Want) (shape : QueryShape) : Want :=
  { want with
    scanning := want.scanning || shape.collscan
    sourceShapes := want.sourceShapes ++ [shape] }

def newWant (shape : QueryShape) (asked : Asked) : Want where
  shape := shape
  wantedKeys := asked.wantedKeys
  partialFilter := asked.partialFilter
  blocks := keyBlocks shape asked.wantedKeys
  lead := []
  scanning := shape.collscan
  absorbedCount := 0
  absorbedShapes := 0
  sourceShapes := [shape]

section Loop
variable (host : Host) (existing : List IndexSpec) (options : CreateOptions)

def servedByExisting (shape : QueryShape) (asked : Asked) : Bool :=
  existing.any fun index =>
    servesWant host index asked.wantedKeys (keyBlocks shape asked.wantedKeys) asked.partialFilter

/-- A shape past the gates: it joins the want of its key, or is served already, or
opens a want. -/
def admitShape (state : WorkloadState) (shape : QueryShape) : WorkloadState :=
  let asked := askedOf options shape
  let wantedKey := keyText asked.wantedKeys
  if state.wants.any (fun want => keyText want.wantedKeys == wantedKey) then
    { state with
      wants := state.wants.map fun want =>
        if keyText want.wantedKeys = wantedKey then joinWant want shape else want }
  else if servedByExisting host existing shape asked then state.decline shape .indexExists
  else { state with wants := state.wants ++ [newWant shape asked] }

def considerShape (state : WorkloadState) (shape : QueryShape) : WorkloadState :=
  if !shape.collscan && !shape.sortedInMemory then state
  else if !isRecurring shape options.toWorkloadOptions then state.decline shape .notRecurring
  else if !isWorthIndexing host shape.clients then state.decline shape .adHocClient
  else if (esrKeys shape).length = 0 then state.decline shape .noCandidate
  else admitShape host existing options state shape

def wantsOf (shapes : List QueryShape) : WorkloadState :=
  shapes.foldl (considerShape host existing options) ⟨[], []⟩

end Loop

/-! ## Candidates -/

section Candidates
variable (host : Host) (stringify : ConstantValue → String) (existing : List IndexSpec)

def compatible (want : Want) (index : IndexSpec) : Bool :=
  !isNeverDrop index && sameFilter host index.partialFilter (want.partialFilter.map filterValues)

def extendable (want : Want) : Option IndexSpec :=
  existing.find? fun index =>
    compatible host want index && isPrefix index.fields (fieldNames want.wantedKeys)

def singles (want : Want) : List IndexSpec :=
  existing.filter fun index =>
    compatible host want index && index.keys.length == 1 &&
      (fieldNames want.wantedKeys).contains (index.fields.head?.getD "")

def scanText (want : Want) : String :=
  let count := want.shape.count + want.absorbedCount
  (if want.scanning then s!"collection scan seen {count}×" else s!"in-memory sort seen {count}×") ++
    (if 0 < want.absorbedShapes then
      s!" (also serves {want.absorbedShapes} narrower shape" ++
        (if want.absorbedShapes = 1 then "" else "s") ++ ")"
    else "")

def partialNote (want : Want) : String :=
  match want.partialFilter with
  | none => ""
  | some filter =>
    " Partial: only documents where " ++
      String.intercalate ", " (filter.map fun entry => entry.1 ++ " = " ++ stringify entry.2) ++
      " — smaller index, same query."

def candidateOf (want : Want) : CreateCandidate :=
  let candidate (type : RecommendationType) (retireIndexes : List String) (rationale : String) :
      CreateCandidate :=
    { type := type
      keys := want.wantedKeys
      retireIndexes := retireIndexes
      rationale := rationale
      count := want.shape.count + want.absorbedCount
      scanning := want.scanning
      partialFilter := want.partialFilter
      sourceShapes := want.sourceShapes }
  let keysText := "\x7b" ++ describe want.wantedKeys ++ "\x7d"
  match extendable host existing want with
  | some index =>
    candidate .UPDATE [index.name]
      ("Extend " ++ index.name ++ " to " ++ keysText ++ " — " ++ scanText want ++ ".")
  | none =>
    let merged := (singles host existing want).map IndexSpec.name
    if 2 ≤ merged.length then
      candidate .MERGE merged
        ("Replace " ++ String.intercalate " + " merged ++ " with a compound index on " ++ keysText ++
          " — " ++ scanText want ++ ".")
    else
      candidate .CREATE []
        ("Add an index on " ++ keysText ++ " — " ++ scanText want ++ "." ++ partialNote stringify want)

def alreadyBuilt (want : Want) : Bool :=
  existing.any fun index => equalFields index.fields (fieldNames want.wantedKeys)

end Candidates

structure CreateResult where
  candidates : List CreateCandidate
  declines : List (QueryShape × ShapeDecline)

def ledWants (wants : List Want) : List Want :=
  (consolidate wants).map fun want => { want with wantedKeys := leadWith want }

def recommendCreates (host : Host) (stringify : ConstantValue → String)
    (shapes : List QueryShape) (existing : List IndexSpec) (options : CreateOptions) :
    CreateResult :=
  let state := wantsOf host existing options shapes
  let survivors := ledWants state.wants
  { candidates := (survivors.filter fun want => !alreadyBuilt existing want).map
      (candidateOf host stringify existing)
    declines := state.declines ++
      (survivors.filter (alreadyBuilt existing)).flatMap fun want =>
        want.sourceShapes.map fun shape => (shape, .indexExists) }

/-! ## Plain inputs -/

def scanOf (equality : List String) (sort : List SortKey) (range : List String) : QueryShape where
  equality := equality
  sort := sort
  range := range
  collscan := true
  sortedInMemory := false
  count := 10
  observedForHours := none
  clients := []
  constants := []

def everyScan : CreateOptions where
  minCount := 3
  minPerWeek := 1
  partialIndexes := true

end Indexterity
