/-!
Written numbers, lists without repetition, and handles. A location and a class are each known by a
position: the table of locations and the store of classes hand positions out densely from zero, and
the class a location starts in has the location's own position. The greatest position a handle can
hold names nothing.
-/
namespace TypeRecovery

namespace Numeral

def decimal (n : Nat) : String := String.ofList (Nat.toDigits 10 n)

def hex (n : Nat) : String := String.ofList (Nat.toDigits 16 n)

/-- Leading zeros fill a short number up to `width` digits; a longer one keeps all of its digits. -/
def hexPadded (width n : Nat) : String :=
  String.ofList ((Nat.toDigits 16 n).leftpad width '0')

def address (n : Nat) : String := "0x" ++ hexPadded 8 n

def bits (bytes : UInt8) : String := decimal (bytes.toNat * 8)

end Numeral

namespace Distinct

variable {Item : Type} [DecidableEq Item]

def add (items : List Item) (item : Item) : List Item :=
  if item ∈ items then items else items ++ [item]

def addAll (items more : List Item) : List Item := more.foldl add items

theorem mem_add {items : List Item} {item other : Item} :
    other ∈ add items item ↔ other ∈ items ∨ other = item := by
  unfold add
  split
  · exact ⟨Or.inl, fun either => either.elim id fun same => by simpa [same]⟩
  · simp

theorem add_of_mem {items : List Item} {item : Item} (member : item ∈ items) :
    add items item = items := if_pos member

theorem nodup_add {items : List Item} (distinct : items.Nodup) (item : Item) :
    (add items item).Nodup := by
  unfold add
  split
  · exact distinct
  · rename_i absent
    refine List.nodup_append.2 ⟨distinct, by simp, ?_⟩
    intro known member other only
    simp only [List.mem_singleton] at only
    rintro rfl
    exact absent (only ▸ member)

theorem mem_addAll {items more : List Item} {other : Item} :
    other ∈ addAll items more ↔ other ∈ items ∨ other ∈ more := by
  unfold addAll
  induction more generalizing items with
  | nil => simp
  | cons item rest ih => simp [ih, mem_add, or_assoc]

theorem nodup_addAll {items : List Item} (distinct : items.Nodup) (more : List Item) :
    (addAll items more).Nodup := by
  unfold addAll
  induction more generalizing items with
  | nil => exact distinct
  | cons item rest ih => exact ih (nodup_add distinct item)

theorem exists_addAll (items more : List Item) : ∃ tail, addAll items more = items ++ tail := by
  induction more generalizing items with
  | nil => exact ⟨[], (List.append_nil items).symm⟩
  | cons item rest ih =>
    obtain ⟨tail, appended⟩ := ih (add items item)
    by_cases known : item ∈ items
    · rw [add_of_mem known] at appended
      exact ⟨tail, (congrArg (addAll · rest) (add_of_mem known)).trans appended⟩
    · rw [add, if_neg known, List.append_assoc, List.singleton_append] at appended
      exact ⟨item :: tail, (congrArg (addAll · rest) (if_neg known)).trans appended⟩

end Distinct

/-- Positions past this one have no handle of their own. -/
def lastHandle : Nat := 4294967295

structure LocId where
  index : Nat
deriving DecidableEq

structure ClassId where
  index : Nat
deriving DecidableEq

structure ProgramPoint where
  address : UInt64
deriving DecidableEq

abbrev ClassPair := ClassId × ClassId

namespace LocId

def absent : LocId := ⟨lastHandle⟩

def ofIndex (index : Nat) : LocId := ⟨min index lastHandle⟩

def text (loc : LocId) : String :=
  if loc = absent then "LocId::NONE" else "L" ++ Numeral.decimal loc.index

/-- The class a declared location starts in. -/
def initialClass (loc : LocId) : ClassId := ⟨loc.index⟩

end LocId

namespace ClassId

def absent : ClassId := ⟨lastHandle⟩

def ofIndex (index : Nat) : ClassId := ⟨min index lastHandle⟩

def text (cls : ClassId) : String :=
  if cls = absent then "ClassId::NONE" else "Eq_" ++ Numeral.decimal cls.index

theorem eq_of_index {first second : ClassId} (same : first.index = second.index) :
    first = second := by
  cases first
  cases second
  cases same
  rfl

end ClassId

def ProgramPoint.text (point : ProgramPoint) : String := Numeral.address point.address.toNat

end TypeRecovery
