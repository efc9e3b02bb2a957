import Mathlib.Data.Rat.Init
import Mathlib.Data.List.Basic

/-!
# Index specifications

`engine/types.ts` and `analysis/safety.ts`: what an index is, and which indexes are
never dropped. A partial filter is the list of its entries; a value that is not a
primitive is held as its JSON text.
-/

namespace Indexterity

inductive IndexDirection where
  | asc
  | desc
  | geo2d
  | geo2dsphere
  | text
  | hashed
deriving DecidableEq, Repr

def IndexDirection.negate : IndexDirection → Option IndexDirection
  | asc => some desc
  | desc => some asc
  | _ => none

structure IndexKey where
  field : String
  direction : IndexDirection
deriving DecidableEq, Repr

inductive ConstantValue where
  | str (value : String)
  | num (value : ℚ)
  | bool (value : Bool)
deriving DecidableEq

inductive FilterValue where
  | constant (value : ConstantValue)
  | other (json : String)
deriving DecidableEq

/-- Absent includes are read as none. -/
structure IndexSpec where
  name : String
  keys : List IndexKey
  unique : Bool
  ttl : Bool
  isPartial : Bool
  partialFilter : Option (List (String × FilterValue))
  sparse : Bool
  hidden : Bool
  isShardKey : Bool
  collation : Option String
  includes : List String
deriving DecidableEq

def IndexSpec.fields (index : IndexSpec) : List String := index.keys.map IndexKey.field

def ascending (name : String) (fields : List String) : IndexSpec where
  name := name
  keys := fields.map fun field => ⟨field, .asc⟩
  unique := false
  ttl := false
  isPartial := false
  partialFilter := none
  sparse := false
  hidden := false
  isShardKey := false
  collation := none
  includes := []

def HIDE_BREAKS_QUERIES : List IndexDirection := [.text, .geo2dsphere, .geo2d]

def hideBreaksQueries (index : IndexSpec) : Bool :=
  index.keys.any fun key => HIDE_BREAKS_QUERIES.contains key.direction

def isNeverDrop (index : IndexSpec) : Bool :=
  index.name == "_id_" || index.unique || index.ttl || index.isShardKey ||
    hideBreaksQueries index

end Indexterity
