import Mathlib.Order.Interval.Finset.Nat
import TypeRecovery.Proofs.StructSize
import TypeRecovery.Proofs.TypingClasses
/-!
The layout of structs and of unions. The fields of a struct share out the slots of its class: each
slot has one field, which takes in all of its bytes and mentions its class. Fields follow one
another without overlap, and the struct is as large as the last of them and its extent take. The
padding is the size less the bytes of the fields behind the base; a field in front of the base is
not counted, although the size reaches to its end.

A class becomes a union as a whole where all of its slots make up a single run from the base on,
with more than one class among them. A run goes on as far as its overlaps chain, so the slots of a
union need not lie at the base.
-/
namespace TypeRecovery

def CField.Apart (fields : List (CField CType)) : Prop :=
  fields.Pairwise fun first second => first.stop ≤ second.offset.toInt

structure Reading.Represents (reading : Reading) (field : CField CType) (slot : Slot) : Prop where
  start : field.offset ≤ slot.offset
  stop : reading.stop slot ≤ field.stop
  mentions : field.type.Mentions (reading.number slot.cls)

/-- The field was made from these slots, which hang together by their bytes. It is plain where they
are of one class. -/
structure Store.MadeFrom (store : Store) (reading : Reading) (slots : List Slot)
    (field : CField CType) : Prop where
  some : slots ≠ []
  represents : ∀ slot ∈ slots, reading.Represents field slot
  chained : ∀ slot ∈ slots,
    slot.offset = field.offset ∨ ∃ other ∈ slots, reading.StartsWithin slot other
  reached : ∃ slot ∈ slots, reading.stop slot = field.stop
  named : ∀ id, field.type.Names id → ∃ slot ∈ slots, id = reading.number slot.cls
  once : ∃ classes : List ClassId, classes.Nodup ∧
    (field.type = .union (classes.map .sameAs) ∨ ∃ cls, classes = [cls] ∧ field.type = .sameAs cls)
  plain : (∃ cls, field.type = .sameAs cls) ↔
    ∀ slot ∈ slots, ∀ other ∈ slots, store.root slot.cls = store.root other.cls

/-- How the fields of a struct share out the slots of the class that it was read off. -/
structure Store.LaysOut (store : Store) (reading : Reading) (constraint : Constraint)
    (size : UInt64) (fields : List (CField CType)) : Prop where
  some : fields ≠ []
  apart : CField.Apart fields
  shares : ∃ shares : List (List Slot × CField CType),
    shares.flatMap Prod.fst = constraint.slots ∧ shares.map Prod.snd = fields ∧
      ∀ share ∈ shares, store.MadeFrom reading share.1 share.2
  within : ∀ field ∈ fields, field.stop ≤ size.toNat
  extent : constraint.extent ≤ size
  least : ∀ bound : UInt64, constraint.extent ≤ bound →
    (∀ field ∈ fields, field.stop ≤ bound.toNat) → size ≤ bound

namespace FieldGroup

variable {group : FieldGroup}

theorem exists_type (group : FieldGroup) : group.type = .union (group.classes.map .sameAs) ∨
    ∃ cls, group.classes = [cls] ∧ group.type = .sameAs cls := by
  unfold type
  split
  · rename_i cls only
    exact Or.inr ⟨cls, only, rfl⟩
  · exact Or.inl rfl

theorem type_sameAs_iff {cls : ClassId} : group.type = .sameAs cls ↔ group.classes = [cls] := by
  constructor
  · intro same
    rcases group.exists_type with union | ⟨other, only, alone⟩
    · cases union.symm.trans same
    · cases alone.symm.trans same
      exact only
  · intro only
    rw [type, only]

end FieldGroup

namespace Reading

variable {reading : Reading} {constraint : Constraint} {size : UInt64}
  {fields : List (CField CType)}

theorem Gathers.represents {run : List Slot} {group : FieldGroup}
    (gathers : Gathers reading run group) (ascending : Slot.Ascending run) :
    ∀ slot ∈ run, reading.Represents group.field slot := fun slot member => {
  start := gathers.start_le ascending slot member
  stop := gathers.stop_field ▸ gathers.stop_le member
  mentions := FieldGroup.mentions_type (gathers.mem_classes.2 ⟨slot, member, rfl⟩) }

theorem Gathers.classes_single_iff {run : List Slot} {group : FieldGroup}
    (gathers : Gathers reading run group) : (∃ cls, group.classes = [cls]) ↔
      ∀ slot ∈ run, ∀ other ∈ run, reading.number slot.cls = reading.number other.cls := by
  have listed {slot : Slot} (member : slot ∈ run) : reading.number slot.cls ∈ group.classes :=
    gathers.mem_classes.2 ⟨slot, member, rfl⟩
  constructor
  · rintro ⟨cls, only⟩ slot member other held
    have first := listed member
    have second := listed held
    rw [only, List.mem_singleton] at first second
    rw [first, second]
  · intro same
    obtain ⟨first, rest, rfl, _⟩ := gathers.head
    refine ⟨reading.number first.cls, ?_⟩
    have all : ∀ id ∈ group.classes, id = reading.number first.cls := by
      intro id member
      obtain ⟨slot, held, rfl⟩ := gathers.mem_classes.1 member
      exact same slot held first List.mem_cons_self
    have distinct := gathers.nodup_classes
    match classes : group.classes, listed List.mem_cons_self with
    | [cls], _ =>
      rw [all cls (by rw [classes]; exact List.mem_cons_self)]
    | cls :: other :: rest, _ =>
      rw [classes] at all distinct
      have equal := (all cls List.mem_cons_self).trans
        (all other (List.mem_cons_of_mem _ List.mem_cons_self)).symm
      exact absurd (equal ▸ List.mem_cons_self) (List.nodup_cons.1 distinct).1

end Reading

namespace Typing

variable {config : Config} {store : Store} {cls : ClassId} {size : UInt64}
  {fields : List (CField CType)}

theorem classes_single_iff_root (inside : store.RefersInside) {run : List Slot}
    {group : FieldGroup} (gathers : (readingOf config store).Gathers run group)
    (held : ∀ slot ∈ run, slot ∈ (store.constraint cls).slots) :
    (∃ number, group.classes = [number]) ↔
      ∀ slot ∈ run, ∀ other ∈ run, store.root slot.cls = store.root other.cls := by
  have known {slot : Slot} (member : slot ∈ run) : slot.cls.index < store.size :=
    @inside cls (.slot slot.offset slot.size) slot.cls (held slot member)
  rw [gathers.classes_single_iff]
  exact forall₂_congr fun slot first => forall₂_congr fun other second =>
    number_eq_iff inside (known first) (known second)

theorem madeFrom_run (inside : store.RefersInside) {run : List Slot} {group : FieldGroup}
    (gathers : (readingOf config store).Gathers run group) (ascending : Slot.Ascending run)
    (held : ∀ slot ∈ run, slot ∈ (store.constraint cls).slots) :
    store.MadeFrom (readingOf config store) run group.field where
  some := by
    obtain ⟨first, rest, rfl, _⟩ := gathers.head
    exact List.cons_ne_nil first rest
  represents := gathers.represents ascending
  chained := gathers.chained ascending
  reached := gathers.stop_field ▸ gathers.exists_stop
  named id names := gathers.mem_classes.1 (FieldGroup.names_type_iff.1 names)
  once := ⟨group.classes, gathers.nodup_classes, group.exists_type⟩
  plain := (exists_congr fun _ => FieldGroup.type_sameAs_iff).trans
    (classes_single_iff_root inside gathers held)

theorem laysOut_of_type (inside : store.RefersInside)
    (ascending : Slot.Ascending (store.constraint cls).slots)
    (read : (readingOf config store).type (store.constraint cls) = .struct size fields) :
    store.LaysOut (readingOf config store) (store.constraint cls) size fields := by
  have sweeps := (readingOf config store).sweeps_sweep (Reading.aggregate_of_struct read).1
  obtain ⟨runs, slots, groups, gathered⟩ := sweeps.exists_runs
  have listed : fields = runs.map fun run => run.2.field := by
    rw [Reading.of_struct read, ← groups, List.map_map]
    rfl
  have part : ∀ run ∈ runs, run.1.Sublist (store.constraint cls).slots :=
    fun run member => slots ▸ List.sublist_flatten_of_mem (List.mem_map_of_mem member)
  have reach := (Reading.size_le_iff read ascending).1 (UInt64.le_refl size)
  refine {
    some := ?some
    apart := ?apart
    shares := ⟨runs.map fun run => (run.1, run.2.field), ?cover, ?fields, ?made⟩
    within := ?within
    extent := reach.1
    least := ?least }
  case some =>
    rintro rfl
    rw [List.map_eq_nil_iff.1 listed.symm] at slots
    exact (Reading.aggregate_of_struct read).1 slots.symm
  case apart =>
    rw [listed, CField.Apart, List.pairwise_map]
    refine (List.pairwise_map.1 (groups ▸ sweeps.apart ascending)).imp_of_mem ?_
    intro first second member _ ended
    rw [(gathered first member).stop_field]
    exact Int64.le_iff_toInt_le.1 ended
  case cover => rw [List.flatMap_map, slots]
  case fields => rw [List.map_map, listed]; rfl
  case made =>
    refine List.forall_mem_map.2 fun run member => ?_
    exact madeFrom_run inside (gathered run member) (ascending.sublist (part run member))
      (part run member).subset
  case within =>
    rw [listed]
    refine List.forall_mem_map.2 fun run member => ?_
    rw [(gathered run member).stop_field, (gathered run member).stop_le_iff]
    exact fun slot held => reach.2 slot ((part run member).subset held)
  case least =>
    rw [listed]
    intro bound extent within
    refine (Reading.size_le_iff read ascending).2 ⟨extent, fun slot held => ?_⟩
    obtain ⟨run, member, among⟩ := List.mem_flatMap.1 (slots ▸ held)
    have stopped := List.forall_mem_map.1 within run member
    rw [(gathered run member).stop_field] at stopped
    exact (gathered run member).stop_le_iff.1 stopped slot among

/-- A struct lays out the slots of its class, whatever else the store holds. -/
theorem ofStore_laysOut (config : Config) {store : Store} (inside : store.RefersInside)
    (ascending : store.Each fun constraint => Slot.Ascending constraint.slots) {cls : ClassId}
    (known : cls.index < store.size) {size : UInt64} {fields : List (CField CType)}
    (read : (ofStore config store).typeOfClass? ((readingOf config store).number cls) =
      some (.struct size fields)) :
    store.LaysOut (readingOf config store) (store.constraint cls) size fields := by
  rw [typeOfClass?_number inside known, Option.some_inj] at read
  exact laysOut_of_type inside (ascending cls) read

def entangled : Store := ((Store.withLocations 2).fresh { slots :=
  [⟨-4, 6, ⟨1⟩⟩, ⟨0, 4, ⟨0⟩⟩, ⟨3, 2, ⟨1⟩⟩, ⟨8, 2, ⟨0⟩⟩, ⟨8, 4, ⟨0⟩⟩] }).2

theorem ofStore_laysOut_entangled : entangled.RefersInside ∧
    (entangled.Each fun constraint => Slot.Ascending constraint.slots) ∧ 2 < entangled.size ∧
    (ofStore {} entangled).typeOfClass? ((readingOf {} entangled).number ⟨2⟩) =
      some (.struct 12 [⟨-4, 9, .union [.sameAs ⟨2⟩, .sameAs ⟨1⟩]⟩, ⟨8, 4, .sameAs ⟨1⟩⟩]) ∧
    entangled.LaysOut (readingOf {} entangled) (entangled.constraint ⟨2⟩) 12
      [⟨-4, 9, .union [.sameAs ⟨2⟩, .sameAs ⟨1⟩]⟩, ⟨8, 4, .sameAs ⟨1⟩⟩] := by
  have inside : entangled.RefersInside :=
    Store.refersInside_made (Store.refersInside_withLocations 2) (by decide)
  have ascending : entangled.Each fun constraint => Slot.Ascending constraint.slots :=
    Store.each_fresh (Store.ascending_withLocations 2) (by decide)
  have read : (ofStore {} entangled).typeOfClass? ((readingOf {} entangled).number ⟨2⟩) =
      some (.struct 12 [⟨-4, 9, .union [.sameAs ⟨2⟩, .sameAs ⟨1⟩]⟩, ⟨8, 4, .sameAs ⟨1⟩⟩]) := rfl
  exact ⟨inside, ascending, by decide, read, ofStore_laysOut {} inside ascending (by decide) read⟩

end Typing

/-- The slots of the constraint are alternatives to one another. -/
structure Store.Alternates (store : Store) (reading : Reading) (constraint : Constraint)
    (alternatives : List CType) : Prop where
  ahead : ∀ slot ∈ constraint.slots, 0 ≤ slot.offset
  chained : ∀ slot ∈ constraint.slots,
    slot.offset = 0 ∨ ∃ other ∈ constraint.slots, reading.StartsWithin slot other
  several : ∃ slot ∈ constraint.slots, ∃ other ∈ constraint.slots,
    store.root slot.cls ≠ store.root other.cls
  classes : ∃ classes : List ClassId, classes.Nodup ∧ alternatives = classes.map .sameAs ∧
    ∀ id, id ∈ classes ↔ ∃ slot ∈ constraint.slots, id = reading.number slot.cls

namespace CType

theorem ofGroups_union {extent : UInt64} {groups : List FieldGroup} {alternatives : List CType}
    (made : ofGroups extent groups = .union alternatives) : ∃ group, groups = [group] ∧
      group.start = 0 ∧ 1 < group.classes.length ∧ alternatives = group.classes.map .sameAs := by
  rcases ofGroups_cases extent groups with ⟨group, single, base, several, union⟩ | struct
  · exact ⟨group, single, base, several, (CType.union.inj (union.symm.trans made)).symm⟩
  · cases struct.symm.trans made

end CType

namespace Reading

variable {reading : Reading} {constraint : Constraint} {alternatives : List CType}

theorem aggregate_of_union (read : reading.type constraint = .union alternatives)
    (plain : constraint.pointee = none) (slotted : constraint.slots ≠ []) :
    reading.aggregate constraint = .union alternatives := by
  rcases type_cases reading constraint with void | ⟨_, _, function⟩ | ⟨_, known, _⟩ |
    ⟨_, aggregate⟩ | ⟨_, bare, _⟩
  · cases void.symm.trans read
  · cases function.symm.trans read
  · cases plain.symm.trans known
  · exact aggregate.symm.trans read
  · exact absurd bare slotted

theorem Sweeps.gathers {slots : List Slot} {group : FieldGroup}
    (sweeps : Sweeps reading slots [group]) : Gathers reading slots group := by
  obtain ⟨runs, covered, single, gathered⟩ := sweeps.exists_runs
  obtain ⟨run, rfl, rfl⟩ := List.map_eq_singleton_iff.1 single
  rw [List.flatMap_singleton] at covered
  exact covered ▸ gathered run List.mem_cons_self

/-- Only a single run from the base on is a union as a whole. -/
theorem gathers_of_union (read : reading.type constraint = .union alternatives)
    (plain : constraint.pointee = none) (slotted : constraint.slots ≠ []) :
    ∃ group, Gathers reading constraint.slots group ∧ group.start = 0 ∧
      1 < group.classes.length ∧ alternatives = group.classes.map .sameAs := by
  have made := aggregate_of_union read plain slotted
  rcases aggregate_cases reading constraint with ⟨_, _, _, _, single⟩ | grouped
  · cases single.symm.trans made
  · obtain ⟨group, single, base, several, listed⟩ := CType.ofGroups_union (grouped.symm.trans made)
    have sweeps := reading.sweeps_sweep slotted
    rw [single] at sweeps
    exact ⟨group, sweeps.gathers, base, several, listed⟩

end Reading

namespace Typing

variable {config : Config} {store : Store} {cls : ClassId} {alternatives : List CType}

theorem alternates_of_type (inside : store.RefersInside)
    (ascending : Slot.Ascending (store.constraint cls).slots)
    (plain : (store.constraint cls).pointee = none) (slotted : (store.constraint cls).slots ≠ [])
    (read : (readingOf config store).type (store.constraint cls) = .union alternatives) :
    store.Alternates (readingOf config store) (store.constraint cls) alternatives := by
  obtain ⟨group, gathers, base, several, listed⟩ := Reading.gathers_of_union read plain slotted
  refine {
    ahead := base ▸ gathers.start_le ascending
    chained := base ▸ gathers.chained ascending
    several := ?several
    classes := ⟨group.classes, gathers.nodup_classes, listed, fun _ => gathers.mem_classes⟩ }
  case several =>
    by_contra alike
    have same : ∀ slot ∈ (store.constraint cls).slots, ∀ other ∈ (store.constraint cls).slots,
        store.root slot.cls = store.root other.cls := by
      simpa only [not_exists, not_and, not_not] using alike
    obtain ⟨number, single⟩ :=
      (classes_single_iff_root inside gathers fun _ member => member).2 same
    rw [single] at several
    exact Nat.lt_irrefl 1 several

/-- The slots of a class that is a union as a whole chain up from the base. They all lie at the base
only where none of them starts within another. -/
theorem ofStore_alternates (config : Config) {store : Store} (inside : store.RefersInside)
    (ascending : store.Each fun constraint => Slot.Ascending constraint.slots) {cls : ClassId}
    (known : cls.index < store.size) (plain : (store.constraint cls).pointee = none)
    (slotted : (store.constraint cls).slots ≠ []) {alternatives : List CType}
    (read : (ofStore config store).typeOfClass? ((readingOf config store).number cls) =
      some (.union alternatives)) :
    store.Alternates (readingOf config store) (store.constraint cls) alternatives ∧
      ((∀ slot ∈ (store.constraint cls).slots, slot.offset = 0) ↔
        ∀ slot ∈ (store.constraint cls).slots, ∀ other ∈ (store.constraint cls).slots,
          ¬ (readingOf config store).StartsWithin slot other) := by
  rw [typeOfClass?_number inside known, Option.some_inj] at read
  have alternates := alternates_of_type inside (ascending cls) plain slotted read
  refine ⟨alternates, ?_, ?_⟩
  · rintro base slot member other held ⟨before, _⟩
    rw [base slot member, base other held] at before
    exact Int64.lt_irrefl before
  · intro apart slot member
    refine (alternates.chained slot member).resolve_right ?_
    rintro ⟨other, held, within⟩
    exact apart slot member other held within

/-- The classes of two locations, and an aggregate of three values of them, each of which starts
within the one before. The last does not reach back to the base. -/
def staircase : Store := ((Store.withLocations 2).fresh { slots :=
  [⟨0, 4, ⟨0⟩⟩, ⟨2, 4, ⟨1⟩⟩, ⟨5, 4, ⟨0⟩⟩] }).2

theorem ofStore_alternates_staircase : staircase.RefersInside ∧
    (staircase.Each fun constraint => Slot.Ascending constraint.slots) ∧ 2 < staircase.size ∧
    (staircase.constraint ⟨2⟩).pointee = none ∧ (staircase.constraint ⟨2⟩).slots ≠ [] ∧
    (ofStore {} staircase).typeOfClass? ((readingOf {} staircase).number ⟨2⟩) =
      some (.union [.sameAs ⟨1⟩, .sameAs ⟨2⟩]) ∧
    staircase.Alternates (readingOf {} staircase) (staircase.constraint ⟨2⟩)
      [.sameAs ⟨1⟩, .sameAs ⟨2⟩] := by
  have inside : staircase.RefersInside :=
    Store.refersInside_made (Store.refersInside_withLocations 2) (by decide)
  have ascending : staircase.Each fun constraint => Slot.Ascending constraint.slots :=
    Store.each_fresh (Store.ascending_withLocations 2) (by decide)
  have read : (ofStore {} staircase).typeOfClass? ((readingOf {} staircase).number ⟨2⟩) =
      some (.union [.sameAs ⟨1⟩, .sameAs ⟨2⟩]) := rfl
  have slotted : (staircase.constraint ⟨2⟩).slots ≠ [] := by decide
  exact ⟨inside, ascending, by decide, rfl, slotted, read,
    (ofStore_alternates {} inside ascending (by decide) rfl slotted read).1⟩

def halved : Store :=
  ((Store.withLocations 2).fresh { slots := [⟨0, 8, ⟨0⟩⟩, ⟨4, 4, ⟨1⟩⟩], extent := 8 }).2

/-- At a fixed point the half at offset four is an alternative of the whole. -/
theorem ofStore_union_halved : halved.RefersInside ∧
    halved.propagate .listed 1000 [] = (halved, .ok ⟨0, 0, 3⟩) ∧ ⟨2⟩ ∈ halved.roots ∧
    (halved.constraint ⟨2⟩).pointee = none ∧
    (ofStore {} halved).typeOfClass? ((readingOf {} halved).number ⟨2⟩) =
      some (.union [.sameAs ⟨1⟩, .sameAs ⟨2⟩]) ∧
    ∃ slot ∈ (halved.constraint ⟨2⟩).slots, slot.offset ≠ 0 := by
  refine ⟨?_, rfl, by decide, rfl, rfl, ⟨4, 4, ⟨1⟩⟩, by decide, by decide⟩
  exact Store.refersInside_made (Store.refersInside_withLocations 2) (by decide)

end Typing

namespace CField

def Covers (field : CField CType) (byte : Nat) : Prop :=
  field.offset.toInt ≤ byte ∧ (byte : Int) < field.stop

instance (field : CField CType) (byte : Nat) : Decidable (field.Covers byte) :=
  inferInstanceAs (Decidable (_ ∧ _))

def bytes (field : CField CType) : Finset Nat :=
  Finset.Ico field.offset.toInt.toNat (field.offset.toInt.toNat + field.size.toNat)

variable {field : CField CType} {byte : Nat}

theorem mem_bytes (ahead : 0 ≤ field.offset) : byte ∈ field.bytes ↔ field.Covers byte := by
  have start : 0 ≤ field.offset.toInt := Int64.le_iff_toInt_le.1 ahead
  unfold bytes Covers stop
  rw [Finset.mem_Ico]
  omega

theorem card_bytes (field : CField CType) : field.bytes.card = field.size.toNat := by
  rw [bytes, Nat.card_Ico]
  omega

theorem Apart.eq_of_covers {fields : List (CField CType)} (apart : Apart fields)
    {first second : CField CType} (firstListed : first ∈ fields) (secondListed : second ∈ fields)
    (firstCovers : first.Covers byte) (secondCovers : second.Covers byte) : first = second := by
  -- Two different fields are apart in one order or the other, so the relation is made symmetric.
  have symmetric : Std.Symm fun a b : CField CType => a.Covers byte → b.Covers byte → a = b :=
    ⟨fun _ _ same b a => (same a b).symm⟩
  have alone : fields.Pairwise fun a b => a.Covers byte → b.Covers byte → a = b := by
    refine apart.imp fun ended ⟨_, before⟩ ⟨behind, _⟩ => ?_
    omega
  exact alone.forall_of_forall (fun _ _ _ _ => rfl) firstListed secondListed firstCovers
    secondCovers

end CField

namespace CType

variable {size : UInt64} {fields : List (CField CType)} {byte : Nat}

/-- Bytes of a struct that are in none of its fields. -/
def uncovered (size : UInt64) (fields : List (CField CType)) : Finset Nat :=
  (Finset.range size.toNat).filter fun byte => ∀ field ∈ fields, ¬ field.Covers byte

/-- Bytes of a struct that are in a field which starts in front of its base. -/
def straddled (size : UInt64) (fields : List (CField CType)) : Finset Nat :=
  (Finset.range size.toNat).filter fun byte =>
    ∃ field ∈ fields, field.offset < 0 ∧ field.Covers byte

theorem mem_uncovered : byte ∈ uncovered size fields ↔
    byte < size.toNat ∧ ∀ field ∈ fields, ¬ field.Covers byte := by
  rw [uncovered, Finset.mem_filter, Finset.mem_range]

theorem mem_straddled : byte ∈ straddled size fields ↔
    byte < size.toNat ∧ ∃ field ∈ fields, field.offset < 0 ∧ field.Covers byte := by
  rw [straddled, Finset.mem_filter, Finset.mem_range]

theorem uncovered_cons {field : CField CType} (ahead : 0 ≤ field.offset) :
    uncovered size (field :: fields) = uncovered size fields \ field.bytes := by
  ext byte
  rw [Finset.mem_sdiff, mem_uncovered, mem_uncovered, List.forall_mem_cons,
    CField.mem_bytes ahead, and_assoc]
  exact and_congr_right fun _ => and_comm

theorem card_uncovered_of_ahead (apart : CField.Apart fields)
    (ahead : ∀ field ∈ fields, 0 ≤ field.offset)
    (within : ∀ field ∈ fields, field.stop ≤ size.toNat) :
    (uncovered size fields).card +
      fields.foldr (fun field bytes => field.size.toNat + bytes) 0 = size.toNat := by
  -- The first field takes its bytes from those that the rest leaves uncovered, as it ends before
  -- them.
  induction fields with
  | nil => simp [uncovered]
  | cons field rest ih =>
    obtain ⟨first, later⟩ := List.pairwise_cons.1 apart
    obtain ⟨fieldAhead, restAhead⟩ := List.forall_mem_cons.1 ahead
    obtain ⟨fieldWithin, restWithin⟩ := List.forall_mem_cons.1 within
    have free : field.bytes ⊆ uncovered size rest := by
      intro byte member
      obtain ⟨_, before⟩ := (CField.mem_bytes fieldAhead).1 member
      refine mem_uncovered.2 ⟨by omega, fun other listed ⟨behind, _⟩ => ?_⟩
      have ended := first other listed
      omega
    have taken := Finset.card_sdiff_add_card_eq_card free
    rw [← uncovered_cons fieldAhead, CField.card_bytes] at taken
    rw [List.foldr_cons, ← Nat.add_assoc, taken]
    exact ih later restAhead restWithin

/-- The bytes in no field behind the base are those in no field at all, and those that a field in
front of the base takes up. -/
theorem uncovered_filter (apart : CField.Apart fields) :
    uncovered size (fields.filter fun field => 0 ≤ field.offset) =
      uncovered size fields ∪ straddled size fields := by
  ext byte
  rw [Finset.mem_union, mem_uncovered, mem_uncovered, mem_straddled, ← and_or_left]
  refine and_congr_right fun _ => ⟨fun free => ?_, ?_⟩
  · by_cases covered : ∃ field ∈ fields, field.Covers byte
    · obtain ⟨field, listed, covers⟩ := covered
      refine Or.inr ⟨field, listed, Int64.not_le.1 fun ahead => ?_, covers⟩
      exact free field (List.mem_filter.2 ⟨listed, decide_eq_true ahead⟩) covers
    · exact Or.inl fun field listed covers => covered ⟨field, listed, covers⟩
  · rintro (free | ⟨field, listed, front, covers⟩) other member otherCovers
    · exact free other (List.mem_filter.1 member).1 otherCovers
    · have same := apart.eq_of_covers listed (List.mem_filter.1 member).1 covers otherCovers
      have ahead := of_decide_eq_true (List.mem_filter.1 member).2
      exact Int64.not_le.2 front (same ▸ ahead)

theorem disjoint_straddled : Disjoint (uncovered size fields) (straddled size fields) := by
  refine Finset.disjoint_left.2 fun byte free covered => ?_
  obtain ⟨_, field, listed, _, covers⟩ := mem_straddled.1 covered
  exact (mem_uncovered.1 free).2 field listed covers

theorem toNat_padding (apart : CField.Apart fields)
    (within : ∀ field ∈ fields, field.stop ≤ size.toNat) :
    (padding size fields).toNat = (uncovered size fields).card + (straddled size fields).card := by
  have counted := @card_uncovered_of_ahead size (fields.filter fun field => 0 ≤ field.offset)
    (List.Pairwise.filter _ apart)
    (fun _ member => of_decide_eq_true (List.mem_filter.1 member).2)
    (fun field member => within field (List.mem_filter.1 member).1)
  rw [uncovered_filter apart, Finset.card_union_of_disjoint disjoint_straddled] at counted
  have small := size.toNat_lt
  show (UInt64.ofNat (size.toNat - _)).toNat = _
  rw [UInt64.toNat_ofNat', ← counted, Nat.add_sub_cancel]
  omega

theorem card_straddled_eq_zero_iff (within : ∀ field ∈ fields, field.stop ≤ size.toNat) :
    (straddled size fields).card = 0 ↔
      ∀ field ∈ fields, field.offset < 0 → field.stop ≤ 0 := by
  rw [Finset.card_eq_zero, Finset.eq_empty_iff_forall_notMem]
  constructor
  · intro none field listed front
    by_contra past
    have start : field.offset.toInt < 0 := Int64.lt_iff_toInt_lt.1 front
    have reach := within field listed
    refine none 0 (mem_straddled.2 ⟨by omega, field, listed, front, ?_, ?_⟩) <;> omega
  · intro ended byte member
    obtain ⟨_, field, listed, front, _, before⟩ := mem_straddled.1 member
    have stop := ended field listed front
    omega

end CType

namespace Typing

/-- The padding of a struct is what no field covers and what is straddled, so it is what no field
covers exactly where each field that starts in front of the base ends there too. -/
theorem padding_ofStore (config : Config) {store : Store} (inside : store.RefersInside)
    (ascending : store.Each fun constraint => Slot.Ascending constraint.slots) {id : ClassId}
    {size : UInt64} {fields : List (CField CType)}
    (read : (ofStore config store).typeOfClass? id = some (.struct size fields)) :
    (CType.padding size fields).toNat =
        (CType.uncovered size fields).card + (CType.straddled size fields).card ∧
      ((CType.padding size fields).toNat = (CType.uncovered size fields).card ↔
        ∀ field ∈ fields, field.offset < 0 → field.stop ≤ 0) := by
  obtain ⟨cls, _, read⟩ := exists_of_typeOfClass? inside read
  have laid := laysOut_of_type inside (ascending cls) read.symm
  have counted := CType.toNat_padding laid.apart laid.within
  refine ⟨counted, ?_⟩
  rw [counted, Nat.add_eq_left, CType.card_straddled_eq_zero_iff laid.within]

/-- The classes of two locations, and an aggregate with two fields in front of its base, of which
the second reaches two bytes behind it, and two fields further on. -/
def overhanging : Store := ((Store.withLocations 2).fresh { slots :=
  [⟨-8, 4, ⟨0⟩⟩, ⟨-2, 4, ⟨1⟩⟩, ⟨4, 2, ⟨0⟩⟩, ⟨8, 8, ⟨1⟩⟩] }).2

theorem padding_ofStore_overhanging : overhanging.RefersInside ∧
    (overhanging.Each fun constraint => Slot.Ascending constraint.slots) ∧
    ∃ fields, (ofStore {} overhanging).typeOfClass? ⟨3⟩ = some (.struct 16 fields) ∧
      CType.padding 16 fields = 6 ∧ CType.uncovered 16 fields = {2, 3, 6, 7} ∧
      (CType.padding 16 fields).toNat =
        (CType.uncovered 16 fields).card + (CType.straddled 16 fields).card := by
  have inside : overhanging.RefersInside :=
    Store.refersInside_made (Store.refersInside_withLocations 2) (by decide)
  have ascending : overhanging.Each fun constraint => Slot.Ascending constraint.slots :=
    Store.each_fresh (Store.ascending_withLocations 2) (by decide)
  obtain ⟨fields, read, padding, uncovered⟩ : ∃ fields,
      (ofStore {} overhanging).typeOfClass? ⟨3⟩ = some (.struct 16 fields) ∧
        CType.padding 16 fields = 6 ∧ CType.uncovered 16 fields = {2, 3, 6, 7} :=
    ⟨_, rfl, by decide, by decide⟩
  exact ⟨inside, ascending, fields, read, padding, uncovered,
    (padding_ofStore {} inside ascending read).1⟩

def straddling : Store := ((Store.withLocations 1).fresh { slots := [⟨-4, 8, ⟨0⟩⟩] }).2

/-- The field covers all four bytes of the struct, and they all count as padding. -/
theorem padding_ofStore_straddling : straddling.RefersInside ∧
    (straddling.Each fun constraint => Slot.Ascending constraint.slots) ∧
    ∃ fields, (ofStore {} straddling).typeOfClass? ⟨2⟩ = some (.struct 4 fields) ∧
      CType.padding 4 fields = 4 ∧ (CType.uncovered 4 fields).card = 0 := by
  refine ⟨?_, ?_, _, rfl, by decide, by decide⟩
  · exact Store.refersInside_made (Store.refersInside_withLocations 1) (by decide)
  · exact Store.each_fresh (Store.ascending_withLocations 1) (by decide)

end Typing

end TypeRecovery
