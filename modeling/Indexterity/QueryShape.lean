import Mathlib.Data.List.Infix
import Mathlib.Data.List.Lex
import Indexterity.IndexSpec
import Indexterity.Runs
import Indexterity.Library.Text

/-!
# Query shapes

The shapes of `engine/types.ts`, who runs them (`analysis/client.ts`) and the keys one
asks for (`esrKeys` and `keyBlocks` of `analysis/workload.ts`): equality fields, then
sort keys, then range fields, each field once. `workloadKey` of `engine/ports.ts` names the
collection shapes are filed under.
-/

namespace Indexterity

/-- `1 | -1`. -/
inductive SortDirection where
  | asc
  | desc
deriving DecidableEq, Repr

namespace SortDirection

def reverse : SortDirection → SortDirection
  | asc => desc
  | desc => asc

def index : SortDirection → IndexDirection
  | asc => .asc
  | desc => .desc

def text : SortDirection → String
  | asc => "1"
  | desc => "-1"

end SortDirection

structure SortKey where
  field : String
  direction : SortDirection
deriving DecidableEq, Repr

def SortKey.reverse (key : SortKey) : SortKey := { key with direction := key.direction.reverse }

structure QueryClient where
  application : Option String
  driver : Option String
deriving DecidableEq, Repr

/-- What the create side reads of a shape. An absent `sortedInMemory` is false, and
absent clients and constants are none; constants are the entries of the record. Two
objects of the same contents are told apart by `ref`, which nothing reads. -/
structure QueryShape where
  equality : List String
  sort : List SortKey
  range : List String
  collscan : Bool
  sortedInMemory : Bool
  count : Int
  observedForHours : Option ℚ
  clients : List QueryClient
  constants : List (String × ConstantValue)
  ref : Nat := 0
deriving DecidableEq

/-! ## Who runs it -/

inductive ClientKind where
  | INTERACTIVE
  | APPLICATION
  | UNKNOWN
deriving DecidableEq, Repr

def INTERACTIVE : List String :=
  ["mongosh", "mongo shell", "compass", "studio 3t", "robo 3t", "robomongo", "nosqlbooster",
    "datagrip", "dbeaver", "tableplus", "mongodb for vs code", "mongo-express", "mongocli",
    "atlas cli"]

section Clients
variable (host : Host)

def looksInteractive (name : String) : Bool :=
  INTERACTIVE.any fun tool => decide (tool.toList <:+: (host.toLowerCase name).toList)

def classifyClient (client : QueryClient) : ClientKind :=
  let application := client.application.getD ""
  let driver := client.driver.getD ""
  if application = "" ∧ driver = "" then .UNKNOWN
  else if looksInteractive host application || looksInteractive host driver then .INTERACTIVE
  else .APPLICATION

def isWorthIndexing (clients : List QueryClient) : Bool :=
  if clients = [] then true
  else clients.any fun client => classifyClient host client != .INTERACTIVE

end Clients

/-! ## How often it runs -/

def HOURS_PER_WEEK : ℚ := 168

structure WorkloadOptions where
  minCount : ℚ
  minPerWeek : ℚ

def executionsPerWeek (shape : QueryShape) : ℚ :=
  match shape.observedForHours with
  | none => shape.count
  | some hours => if hours ≤ 0 then shape.count else shape.count / (hours / HOURS_PER_WEEK)

def isRecurring (shape : QueryShape) (options : WorkloadOptions) : Bool :=
  if (shape.count : ℚ) < options.minCount then false
  else
    match shape.observedForHours with
    | none => true
    | some hours =>
      if hours ≤ 0 then true else decide (options.minPerWeek ≤ executionsPerWeek shape)

/-! ## The keys it asks for -/

/-- The UTF-16 code units of a string, which `Array.prototype.sort` compares by. -/
def codeUnits (s : String) : List Nat :=
  s.toList.flatMap fun c =>
    if c.toNat < 0x10000 then [c.toNat]
    else [0xD800 + (c.toNat - 0x10000) / 0x400, 0xDC00 + (c.toNat - 0x10000) % 0x400]

def sortedStrings (xs : List String) : List String :=
  xs.insertionSort fun a b => codeUnits a ≤ codeUnits b

def pushKey (ordered : List SortKey) (key : SortKey) : List SortKey :=
  if ordered.any (fun seen => seen.field == key.field) then ordered else ordered ++ [key]

def ascendingKeys (fields : List String) : List SortKey := fields.map fun field => ⟨field, .asc⟩

def fieldNames (keys : List SortKey) : List String := keys.map SortKey.field

def esrKeys (shape : QueryShape) : List SortKey :=
  (ascendingKeys shape.equality ++ shape.sort ++ ascendingKeys (sortedStrings shape.range)).foldl
    pushKey []

structure KeyBlocks where
  equality : List String
  sort : List SortKey
  range : List String
deriving DecidableEq, Repr

def keyBlocks (shape : QueryShape) (keys : List SortKey) : KeyBlocks where
  equality := fieldNames (keys.filter fun key => shape.equality.contains key.field)
  sort := keys.filter fun key =>
    !shape.equality.contains key.field && (fieldNames shape.sort).contains key.field
  range := fieldNames (keys.filter fun key =>
    !shape.equality.contains key.field && !(fieldNames shape.sort).contains key.field)

/-! ## What it is filed under -/

structure WorkloadTarget where
  database : String
  collection : String
deriving DecidableEq

def workloadKey (database collection : String) : String :=
  database ++ "\x00" ++ collection

structure ShapeColumns where
  equality : List String
  sort : List SortKey
  range : List String
deriving DecidableEq

def QueryShape.columns (shape : QueryShape) : ShapeColumns :=
  ⟨shape.equality, shape.sort, shape.range⟩

theorem workloadKey_injective {database a b : String}
    (h : workloadKey database a = workloadKey database b) : a = b := by
  have hlists := congrArg String.toList h
  simp only [workloadKey, String.toList_append] at hlists
  exact String.toList_inj.mp (List.append_cancel_left hlists)

def sortText (key : SortKey) : String := key.field ++ ":" ++ key.direction.text

end Indexterity
