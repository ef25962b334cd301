import TypeRecovery.Basic
import TypeRecovery.Constraint
import TypeRecovery.Diagnostic
import TypeRecovery.Store
import TypeRecovery.Typing
/-!
The typing of a store. Each constraint is read as a type: a declared `void` first, then a function,
a pointer, an aggregate, and a primitive last. The slots of an aggregate are gone through in their
order and gathered into groups of overlapping bytes, one field each.

Classes are numbered from one in the order in which a search comes upon them that starts from the
locations, in the order of declaration, and goes breadth first along the references of each class.
Conflicts that were recorded and functions that were dereferenced are warnings. The store is only
read.
-/
namespace TypeRecovery

/-- Bytes from `start` on and up to `stop`, and the classes found within them, in the order of
discovery. -/
structure FieldGroup where
  start : Int64
  stop : Int64
  classes : List ClassId
deriving DecidableEq

namespace FieldGroup

def ofSlot (offset : Int64) (width : Nat) (cls : ClassId) : FieldGroup where
  start := offset
  stop := .ofIntClamp (offset.toInt + min (width : Int) Int64.maxValue.toInt)
  classes := [cls]

def absorb (group other : FieldGroup) : FieldGroup where
  start := group.start
  stop := max group.stop other.stop
  classes := Distinct.addAll group.classes other.classes

def sweepFrom (current : FieldGroup) : List FieldGroup → List FieldGroup
  | [] => [current]
  | next :: rest =>
    if next.start < current.stop then sweepFrom (current.absorb next) rest
    else current :: sweepFrom next rest

def sweep : List FieldGroup → List FieldGroup
  | [] => []
  | first :: rest => sweepFrom first rest

def union (group : FieldGroup) : CType := .union (group.classes.map CType.sameAs)

def type (group : FieldGroup) : CType :=
  match group.classes with
  | [cls] => .sameAs cls
  | _ => group.union

/-- The field that the group is. Its bytes are counted exactly. A group of more bytes than the
greatest offset is outside the model: one that starts far in front of the base and ends far behind
it. -/
def field (group : FieldGroup) : CField CType where
  offset := group.start
  size := .ofNat (group.stop.toInt - group.start.toInt).toNat
  type := group.type

end FieldGroup

/-- The aggregate that the groups make up. It is as large as its extent, or as its last group makes
it. A single group from the base on with more than one class is a union as a whole. -/
def CType.ofGroups (extent : UInt64) (groups : List FieldGroup) : CType :=
  let struct :=
    let stop := groups.getLast?.elim 0 fun last => UInt64.ofNat last.stop.toInt.toNat
    CType.struct (max extent stop) (groups.map FieldGroup.field)
  match groups with
  | [group] => if group.start = 0 ∧ 1 < group.classes.length then group.union else struct
  | _ => struct

/-- What a type takes from beside the constraint that it is read off: the numbers of classes, the
bytes that their values take up, and the size of pointers, which an integer of unknown width has
too. -/
structure Reading where
  number : ClassId → ClassId
  span : ClassId → Nat
  pointerSize : UInt8

namespace Constraint

def calledAs? (constraint : Constraint) : Option Signature :=
  if constraint.declaredKind = some .function ∨ .called ∈ constraint.evidence then
    constraint.signature
  else none

/-- The class is a function for a type, yet something was dereferenced through it. -/
def isAmbiguous (constraint : Constraint) : Bool :=
  constraint.declaredKind != some .void && constraint.calledAs?.isSome && constraint.pointee.isSome

end Constraint

namespace Reading

def primitive (reading : Reading) (constraint : Constraint) : CType :=
  .primitive ⟨constraint.width.getD reading.pointerSize, constraint.evidence.signedness⟩

def pointer (reading : Reading) (constraint : Constraint) (target : ClassId) : CType :=
  let pointer := CType.pointer (reading.number target)
  if constraint.evidence.hasIntegerUse then .union [reading.primitive constraint, pointer]
  else pointer

def group (reading : Reading) (slot : Slot) : FieldGroup :=
  .ofSlot slot.offset (max slot.size.toNat (reading.span slot.cls)) (reading.number slot.cls)

/-- An aggregate of nothing but one value at its base is that value. -/
def aggregate (reading : Reading) (constraint : Constraint) : CType :=
  let groups := FieldGroup.sweep (constraint.slots.map reading.group)
  match constraint.slots with
  | [slot] =>
    if slot.offset = 0 ∧ constraint.hasOwnEvidence = false then .sameAs (reading.number slot.cls)
    else .ofGroups constraint.extent groups
  | _ => .ofGroups constraint.extent groups

def scalar (reading : Reading) (constraint : Constraint) : CType :=
  let evidence := constraint.evidence
  if constraint.declaredKind = some .primitive ∧ evidence.hasConflictingDeclarations then
    let width := constraint.width.getD reading.pointerSize
    .union [.primitive ⟨width, some .signed⟩, .primitive ⟨width, some .unsigned⟩]
  else if constraint.isEmpty then .unknown
  else reading.primitive constraint

def type (reading : Reading) (constraint : Constraint) : CType :=
  if constraint.declaredKind = some .void then .void
  else match constraint.calledAs? with
    | some signature =>
      .function ((signature.params.getD []).map reading.number) (reading.number signature.ret)
    | none =>
      match constraint.pointee with
      | some target => reading.pointer constraint target
      | none =>
        if constraint.hasSlots then reading.aggregate constraint else reading.scalar constraint

end Reading

structure Numbering where
  order : List ClassId
deriving DecidableEq

namespace Numbering

def explore (next : ClassId → List ClassId) : Nat → Nat → List ClassId → List ClassId
  | 0, _, order => order
  | steps + 1, place, order =>
    match order[place]? with
    | none => order
    | some cls => explore next steps (place + 1) (Distinct.addAll order (next cls))

def successors (store : Store) (cls : ClassId) : List ClassId :=
  (store.constraint cls).references.map store.root

def starts (store : Store) : List ClassId :=
  (List.range store.locationCount).map (fun place => store.classOf ⟨place⟩) ++ store.roots

/-- Each search ends within as many steps as there are classes, for it takes up a class once. -/
def ofStore (store : Store) : Numbering :=
  ⟨(starts store).foldl (fun order start =>
    explore (successors store) store.size order.length (Distinct.add order start)) []⟩

def number (numbering : Numbering) (root : ClassId) : ClassId :=
  match numbering.order.idxOf? root with
  | some place => ⟨place + 1⟩
  | none => .absent

end Numbering

structure Config where
  /-- Bytes of a pointer, and of an integer of unknown width. -/
  pointerSize : UInt8 := 8
  /-- Steps of propagation, where they are not left to the size of the store. -/
  maxSteps : Option Nat := none
  /-- Classes may be typed side by side. It makes no difference to the result. -/
  parallel : Bool := false
deriving DecidableEq

namespace Config

def x86 : Config := { pointerSize := 4 }

def leastCap : Nat := 1048576

def stepsPerClass : Nat := 64

/-- The cap on the steps of propagation over so many classes, a number of 64 bits. -/
def stepCap (config : Config) (classes : Nat) : Nat :=
  config.maxSteps.getD (max (min (classes * stepsPerClass) (UInt64.size - 1)) leastCap)

end Config

namespace Diagnostic

def ambiguous (id : ClassId) : Diagnostic :=
  (ofCode .warning .calledAndDereferenced).withMessage
      (id.text ++ " is both called and dereferenced")
    |>.withLabel (.cls id) "resolved as a function"
    |>.withNote "pointer evidence on this class is ignored"

end Diagnostic

namespace Typing

def reading (config : Config) (store : Store) (numbering : Numbering) : Reading where
  number cls := numbering.number (store.root cls)
  span cls := (store.constraint cls).span
  pointerSize := config.pointerSize

/-- The class of a root. A typedef names its class only as long as the class has one type. -/
def classOfRoot (reading : Reading) (store : Store) (types : Array CType) (root : ClassId) :
    TypedClass :=
  let constraint := store.constraint root
  let type := reading.type constraint
  { id := reading.number root
    members := store.members root
    type
    name := match type with
      | .union _ => none
      | _ => constraint.declaredName
    size := type.sizeAmong types reading.pointerSize }

def ofStore (config : Config) (store : Store) : Typing :=
  let numbering := Numbering.ofStore store
  let reading := reading config store numbering
  let roots := numbering.order
  let types := (roots.map fun root => reading.type (store.constraint root)).toArray
  let classes := roots.map (classOfRoot reading store types)
  let conflicts := store.conflicts.toList.map fun recorded =>
    recorded.conflict.diagnostic (reading.number recorded.cls)
  let ambiguities := (roots.filter fun root => (store.constraint root).isAmbiguous).map fun root =>
    Diagnostic.ambiguous (reading.number root)
  { classes := classes.toArray
    locationClasses := ((List.range store.locationCount).map fun place =>
      reading.number (LocId.initialClass ⟨place⟩)).toArray
    diagnostics := Diagnostic.report (conflicts ++ ambiguities)
    pointerSize := config.pointerSize }

end Typing

end TypeRecovery
