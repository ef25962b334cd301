import TypeRecovery.Constraint
import TypeRecovery.Forest
import TypeRecovery.Observation
/-!
The store of classes. The first classes are the ones that the declared locations start in; classes
made later follow. Merging two classes conjoins their constraints into the root that stays, records
the conflicts this brings out on that root, and hands the implied equalities back. A typedef name
keeps the class and the definition it was first bound to.

The extent of a class is how far its slots are known to reach. A slot takes up as many bytes as its
access or as a value of its class, whichever is more. An end past the greatest number of 64 bits is
that number.
-/
namespace TypeRecovery

/-- A conflict, and the class it was recorded on. That class may be absorbed later. -/
structure ClassConflict where
  cls : ClassId
  conflict : Conflict
deriving DecidableEq

structure Typedef where
  name : String
  cls : ClassId
  definition : Hint
deriving DecidableEq

structure Store where
  forest : Forest
  /-- One constraint for each class, meaningful at roots and empty at absorbed classes. -/
  constraints : Array Constraint
  locationCount : Nat
  /-- In the order of recording. -/
  conflicts : Array ClassConflict
  typedefs : List Typedef
  constraints_size : constraints.size = forest.size
  locations_inside : locationCount ≤ forest.size

structure Merge where
  root : ClassId
  absorbed : ClassId
  implied : List ClassPair
deriving DecidableEq

namespace Store

def withLocations (count : Nat) : Store where
  forest := Forest.singletons count
  constraints := Array.replicate count {}
  locationCount := count
  conflicts := #[]
  typedefs := []
  constraints_size := by simp [Forest.singletons, Forest.size]
  locations_inside := by simp [Forest.singletons, Forest.size]

def empty : Store := withLocations 0

def size (store : Store) : Nat := store.forest.size

def isEmpty (store : Store) : Bool := store.size = 0

def contains (store : Store) (cls : ClassId) : Bool := store.forest.contains cls

def root (store : Store) (cls : ClassId) : ClassId := store.forest.root cls

def classOf (store : Store) (loc : LocId) : ClassId := store.root loc.initialClass

def sameClass (store : Store) (a b : ClassId) : Bool := store.root a = store.root b

def roots (store : Store) : List ClassId := store.forest.roots

def constraint (store : Store) (cls : ClassId) : Constraint :=
  store.constraints[(store.root cls).index]?.getD {}

def members (store : Store) (cls : ClassId) : List LocId :=
  ((List.range store.locationCount).map LocId.mk).filter fun loc =>
    store.classOf loc = store.root cls

def fresh (store : Store) (constraint : Constraint) : ClassId × Store :=
  let added := store.forest.add
  (added.1, { store with
    forest := added.2
    constraints := store.constraints.push constraint
    constraints_size := by simp [added, Forest.size_add, store.constraints_size]
    locations_inside := by
      simp [added, Forest.size_add, Nat.le_succ_of_le store.locations_inside] })

def find (store : Store) (cls : ClassId) : ClassId × Store :=
  let found := store.forest.find cls
  (found.1, { store with
    forest := found.2
    constraints_size := by simp [found, Forest.size_find, store.constraints_size]
    locations_inside := by simp [found, Forest.size_find, store.locations_inside] })

def update (store : Store) (cls : ClassId) (change : Constraint → Constraint) : Store :=
  let top := store.root cls
  { store with
    constraints := store.constraints.modify top.index change
    constraints_size := by simp [store.constraints_size] }

def recordConflict (store : Store) (cls : ClassId) (conflict : Conflict) : Store :=
  { store with conflicts := store.conflicts.push ⟨cls, conflict⟩ }

/-- Conjoins a constraint into the class of `cls` and gives the equalities this implies. -/
def refine (store : Store) (cls : ClassId) (constraint : Constraint) : List ClassPair × Store :=
  let top := store.root cls
  let conjunction := (store.constraint top).conjoin constraint
  let store := store.update top fun _ => conjunction.constraint
  (conjunction.implied, conjunction.conflicts.foldl (fun store => store.recordConflict top) store)

def union (store : Store) (a b : ClassId) : Option (Merge × Store) :=
  match found : store.forest.merge a b with
  | none => none
  | some merged =>
    let absorbed := store.constraint merged.absorbed
    let linked : Store := { store with
      forest := merged.forest
      constraints := store.constraints.setIfInBounds merged.absorbed.index {}
      constraints_size := by simp [Forest.size_merge found, store.constraints_size]
      locations_inside := by simp [Forest.size_merge found, store.locations_inside] }
    let (implied, refined) := linked.refine merged.root absorbed
    some (⟨merged.root, merged.absorbed, implied⟩, refined)

def typedef? (store : Store) (name : String) : Option (ClassId × Hint) :=
  (store.typedefs.find? fun typedef => typedef.name = name).map fun typedef =>
    (store.root typedef.cls, typedef.definition)

/-- Binds a typedef name, unless it is bound already. -/
def bindTypedef (store : Store) (name : String) (cls : ClassId) (definition : Hint) : Store :=
  match store.typedef? name with
  | some _ => store
  | none => { store with typedefs := ⟨name, cls, definition⟩ :: store.typedefs }

end Store

def Constraint.span (constraint : Constraint) : Nat :=
  max (constraint.width.getD 0).toNat constraint.extent.toNat

namespace Store

/-- Where a slot of the class `owner` ends. A slot that holds `owner` itself counts with its access
alone, and one in front of the aggregate does not count. -/
def slotEnd (store : Store) (owner : ClassId) (slot : Slot) : UInt64 :=
  if slot.offset < 0 then 0
  else
    let inner := if slot.cls = owner then 0 else (store.constraint slot.cls).span
    .ofNatClamp (slot.offset.toInt.toNat + max slot.size.toNat inner)

def extentOf (store : Store) (owner : ClassId) (slots : List Slot) : UInt64 :=
  slots.foldl (fun extent slot => max extent (store.slotEnd owner slot)) 0

end Store

end TypeRecovery
