import TypeRecovery.Basic
import TypeRecovery.Diagnostic
import TypeRecovery.Observation
/-!
A typing: the classes that an analysis found, with one type each in the manner of C, and the class
of every declared location. Classes are numbered from one, and the class with a number stands at
that place of the list. A type refers to other classes by their numbers, so a recursive type is a
circle of references.

A union is as large as its largest alternative that has a size. An alias has the size of its class,
as long as no more than sixty-four references follow one another.
-/
namespace TypeRecovery

structure Primitive where
  size : UInt8
  /-- Nothing where no signedness was seen, or both were. -/
  signedness : Option Signedness
deriving DecidableEq

structure CField (type : Type) where
  offset : Int64
  size : UInt64
  type : type
deriving DecidableEq

inductive CType where
  /-- There was no evidence at all. -/
  | unknown
  | void
  | primitive (primitive : Primitive)
  | pointer (target : ClassId)
  | struct (size : UInt64) (fields : List (CField CType))
  | union (alternatives : List CType)
  | function (params : List ClassId) (ret : ClassId)
  | sameAs (cls : ClassId)

namespace CType

mutual
def same : CType → CType → Bool
  | unknown, unknown => true
  | void, void => true
  | primitive scalar, primitive scalar' => scalar == scalar'
  | pointer target, pointer target' => target == target'
  | struct size fields, struct size' fields' => size == size' && sameFields fields fields'
  | union alternatives, union alternatives' => sameAll alternatives alternatives'
  | function params ret, function params' ret' => params == params' && ret == ret'
  | sameAs cls, sameAs cls' => cls == cls'
  | _, _ => false

def sameAll : List CType → List CType → Bool
  | [], [] => true
  | type :: rest, type' :: rest' => same type type' && sameAll rest rest'
  | _, _ => false

def sameFields : List (CField CType) → List (CField CType) → Bool
  | [], [] => true
  | ⟨offset, size, type⟩ :: rest, ⟨offset', size', type'⟩ :: rest' =>
    offset == offset' && size == size' && same type type' && sameFields rest rest'
  | _, _ => false
end

mutual
theorem same_iff : (a b : CType) → (same a b = true ↔ a = b)
  | unknown, b => by cases b <;> simp [same]
  | void, b => by cases b <;> simp [same]
  | primitive _, b => by cases b <;> simp [same]
  | pointer _, b => by cases b <;> simp [same]
  | struct _ fields, b => by cases b <;> simp [same, sameFields_iff fields]
  | union alternatives, b => by cases b <;> simp [same, sameAll_iff alternatives]
  | function _ _, b => by cases b <;> simp [same]
  | sameAs _, b => by cases b <;> simp [same]

theorem sameAll_iff : (as bs : List CType) → (sameAll as bs = true ↔ as = bs)
  | [], bs => by cases bs <;> simp [sameAll]
  | type :: rest, bs => by cases bs <;> simp [sameAll, same_iff type, sameAll_iff rest]

theorem sameFields_iff : (as bs : List (CField CType)) → (sameFields as bs = true ↔ as = bs)
  | [], bs => by cases bs <;> simp [sameFields]
  | ⟨_, _, type⟩ :: rest, bs => by
    cases bs with
    | nil => simp [sameFields]
    | cons other others =>
      cases other
      simp [sameFields, same_iff type, sameFields_iff rest, and_assoc]
end

instance : DecidableEq CType := fun a b => decidable_of_iff _ (same_iff a b)

def isUnknown : CType → Bool
  | unknown => true
  | _ => false

/-- Bytes of a struct that no field covers. Fields in front of the struct's base lie outside its
size. -/
def padding (size : UInt64) (fields : List (CField CType)) : UInt64 :=
  let inside := fields.filter fun field => 0 ≤ field.offset
  .ofNat (size.toNat - inside.foldr (fun field bytes => field.size.toNat + bytes) 0)

end CType

namespace CType

def referenceLimit : Nat := 64

def sizeWithin (types : Array CType) (pointerSize : UInt8) : Nat → CType → Option UInt64
  | 0, _ => none
  | levels + 1, type =>
    match type with
    | unknown | void | function .. => none
    | primitive scalar => some scalar.size.toUInt64
    | pointer _ => some pointerSize.toUInt64
    | struct size _ => some size
    | union alternatives => (alternatives.filterMap (sizeWithin types pointerSize levels)).max?
    | sameAs cls =>
      match cls.index with
      | 0 => none
      | place + 1 => types[place]?.bind (sizeWithin types pointerSize levels)

def sizeAmong (types : Array CType) (pointerSize : UInt8) (type : CType) : Option UInt64 :=
  type.sizeWithin types pointerSize (referenceLimit + 1)

end CType

structure TypedClass where
  id : ClassId
  /-- The declared locations in the class, in the order of declaration. -/
  members : List LocId
  type : CType
  /-- The typedef the class was declared with. A union has none. -/
  name : Option String
  /-- Bytes of a value of the class, if it has values. -/
  size : Option UInt64
deriving DecidableEq

structure Typing where
  classes : Array TypedClass
  locationClasses : Array ClassId
  diagnostics : List Diagnostic
  pointerSize : UInt8
deriving DecidableEq

namespace Typing

def size (typing : Typing) : Nat := typing.classes.size

def isEmpty (typing : Typing) : Bool := typing.classes.isEmpty

def class? (typing : Typing) (id : ClassId) : Option TypedClass :=
  match id.index with
  | 0 => none
  | place + 1 => typing.classes[place]?

def classOf? (typing : Typing) (loc : LocId) : Option ClassId :=
  typing.locationClasses[loc.index]?

def typeOfClass? (typing : Typing) (id : ClassId) : Option CType :=
  (typing.class? id).map TypedClass.type

def typeOf? (typing : Typing) (loc : LocId) : Option CType :=
  (typing.classOf? loc).bind typing.typeOfClass?

def follow (typing : Typing) : Nat → CType → Option CType
  | steps + 1, .sameAs next => (typing.typeOfClass? next).bind (typing.follow steps)
  | _, type => some type

/-- The type of a class with aliases followed. No chain of different aliases is longer than the list
of classes; where aliases lead back to themselves the outcome is an alias. -/
def expand? (typing : Typing) (id : ClassId) : Option CType :=
  (typing.typeOfClass? id).bind (typing.follow typing.size)

def pointerBits (typing : Typing) : Nat := typing.pointerSize.toNat * 8

end Typing

end TypeRecovery
