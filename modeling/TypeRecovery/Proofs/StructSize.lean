import TypeRecovery.Proofs.FieldGroups
import TypeRecovery.Proofs.FixedPoint
import TypeRecovery.Proofs.TypingClasses
/-!
The size of a struct and the extent of its class. Both say how far the slots reach, but propagation
counts a slot that holds the aggregate itself with its access alone, and the layout counts it like
any other, with the width and the extent of its class. Sizes and extents agree wherever no slot
holds the aggregate itself, and where one does they agree only if it lies at the base and the
aggregate has no values that are wider than it is.
-/
namespace TypeRecovery

namespace FieldGroup

theorem sweepFrom_last {current : FieldGroup} {rest : List FieldGroup}
    (ascending : (current :: rest).Pairwise fun a b => a.start ≤ b.start)
    (proper : ∀ group ∈ current :: rest, group.start ≤ group.stop) :
    ∃ last, (sweepFrom current rest).getLast? = some last ∧ ∀ bound,
      last.stop.toInt ≤ bound ↔ ∀ group ∈ current :: rest, group.stop.toInt ≤ bound := by
  -- On the groups to come. To absorb one leaves the start of the current group as it was.
  induction rest generalizing current with
  | nil => exact ⟨current, rfl, fun bound => by simp only [List.mem_singleton, forall_eq]⟩
  | cons next rest ih =>
    obtain ⟨first, later⟩ := List.pairwise_cons.1 ascending
    obtain ⟨currentProper, nextProper, restProper⟩ :
        current.start ≤ current.stop ∧ next.start ≤ next.stop ∧
          ∀ group ∈ rest, group.start ≤ group.stop := by
      simpa only [List.forall_mem_cons] using proper
    by_cases overlaps : next.start < current.stop
    · simp only [sweepFrom, overlaps, if_true]
      have reaches := Int64.le_trans currentProper (le_max_stop current.stop next.stop)
      obtain ⟨last, found, bounded⟩ := @ih (current.absorb next)
        (List.pairwise_cons.2 ⟨fun other member => first other (List.mem_cons_of_mem _ member),
          (List.pairwise_cons.1 later).2⟩)
        (List.forall_mem_cons.2 ⟨reaches, restProper⟩)
      refine ⟨last, found, fun bound => (bounded bound).trans ?_⟩
      simp only [List.forall_mem_cons, absorb, max_stop_le, and_assoc]
    · simp only [sweepFrom, overlaps, if_false]
      obtain ⟨last, found, bounded⟩ := ih later (List.forall_mem_cons.2 ⟨nextProper, restProper⟩)
      refine ⟨last, by rw [List.getLast?_cons, found]; rfl, fun bound => (bounded bound).trans ?_⟩
      have before := Int64.le_iff_toInt_le.1 (Int64.le_trans (Int64.not_lt.1 overlaps) nextProper)
      simp only [List.forall_mem_cons, iff_and_self]
      exact fun within => Int.le_trans before within.1

theorem sweep_last_le_iff {groups : List FieldGroup} {bound : UInt64}
    (ascending : groups.Pairwise fun a b => a.start ≤ b.start)
    (proper : ∀ group ∈ groups, group.start ≤ group.stop) :
    ((sweep groups).getLast?.elim 0 fun last => .ofNat last.stop.toInt.toNat) ≤ bound ↔
      ∀ group ∈ groups, group.stop.toInt ≤ bound.toNat := by
  cases groups with
  | nil => exact iff_of_true UInt64.zero_le (List.forall_mem_nil _)
  | cons first rest =>
    obtain ⟨last, found, bounded⟩ := sweepFrom_last ascending proper
    rw [← bounded]
    show (sweepFrom first rest).getLast?.elim _ _ ≤ bound ↔ _
    rw [found, Option.elim_some, UInt64.le_iff_toNat_le, UInt64.toNat_ofNat']
    have range := Int64.toInt_lt last.stop
    omega

theorem start_le_stop (offset : Int64) (width : Nat) (cls : ClassId) :
    (ofSlot offset width cls).start ≤ (ofSlot offset width cls).stop := by
  have most := Int64.toInt_lt offset
  have highest : Int64.maxValue.toInt = 2 ^ 63 - 1 := by decide
  rw [Int64.le_iff_toInt_le, toInt_stop]
  show offset.toInt ≤ _
  omega

end FieldGroup

theorem CType.size_ofGroups {extent size : UInt64} {groups : List FieldGroup}
    {fields : List (CField CType)} (made : ofGroups extent groups = .struct size fields) :
    size = max extent (groups.getLast?.elim 0 fun last => .ofNat last.stop.toInt.toNat) := by
  rcases ofGroups_cases extent groups with ⟨_, _, _, _, union⟩ | struct
  · cases union.symm.trans made
  · exact (CType.struct.inj (struct.symm.trans made)).1.symm

namespace Reading

variable {reading : Reading} {constraint : Constraint} {size : UInt64}
  {fields : List (CField CType)}

theorem pointer_ne_struct (target : ClassId) :
    reading.pointer constraint target ≠ .struct size fields := by
  unfold pointer
  simp only
  split <;> exact nofun

theorem scalar_ne_struct : reading.scalar constraint ≠ .struct size fields := by
  unfold scalar
  simp only
  split
  · exact nofun
  · split <;> exact nofun

theorem aggregate_of_struct (read : reading.type constraint = .struct size fields) :
    constraint.slots ≠ [] ∧ reading.aggregate constraint = .struct size fields := by
  rcases type_cases reading constraint with void | ⟨_, _, function⟩ | ⟨target, _, pointer⟩ |
    ⟨slotted, aggregate⟩ | ⟨_, _, scalar⟩
  · cases void.symm.trans read
  · cases function.symm.trans read
  · exact absurd (pointer.symm.trans read) (pointer_ne_struct target)
  · exact ⟨slotted, aggregate.symm.trans read⟩
  · exact absurd (scalar.symm.trans read) scalar_ne_struct

theorem size_struct (read : reading.type constraint = .struct size fields) :
    size = max constraint.extent
      ((FieldGroup.sweep (constraint.slots.map reading.group)).getLast?.elim 0
        fun last => .ofNat last.stop.toInt.toNat) := by
  obtain ⟨_, made⟩ := aggregate_of_struct read
  rcases aggregate_cases reading constraint with ⟨_, _, _, _, single⟩ | grouped
  · cases single.symm.trans made
  · exact CType.size_ofGroups (grouped.symm.trans made)

def lastOffset : Nat := 9223372036854775807

/-- A struct is as large as its extent or as the end of the slot that goes furthest. -/
theorem size_le_iff (read : reading.type constraint = .struct size fields)
    (ascending : Slot.Ascending constraint.slots) {bound : UInt64} :
    size ≤ bound ↔ constraint.extent ≤ bound ∧
      ∀ slot ∈ constraint.slots, reading.stop slot ≤ bound.toNat := by
  have starts : (constraint.slots.map reading.group).Pairwise fun a b => a.start ≤ b.start :=
    List.pairwise_map.2 ascending
  have proper : ∀ group ∈ constraint.slots.map reading.group, group.start ≤ group.stop :=
    List.forall_mem_map.2 fun _ _ => FieldGroup.start_le_stop ..
  rw [size_struct read, le_max_extent, FieldGroup.sweep_last_le_iff starts proper,
    List.forall_mem_map]
  simp only [stop_group]

theorem stop_le_iff {slot : Slot} {bound : Nat} (ahead : 0 ≤ slot.offset) :
    reading.stop slot ≤ bound ↔
      min (slot.offset.toInt.toNat + max slot.size.toNat (reading.span slot.cls)) lastOffset ≤
        bound := by
  have start : (0 : Int64).toInt ≤ slot.offset.toInt := Int64.le_iff_toInt_le.1 ahead
  have zero : (0 : Int64).toInt = 0 := rfl
  have highest : Int64.maxValue.toInt = 2 ^ 63 - 1 := by decide
  unfold stop width lastOffset
  omega

theorem size_eq_extent_iff (read : reading.type constraint = .struct size fields)
    (ascending : Slot.Ascending constraint.slots)
    (ahead : ∀ slot ∈ constraint.slots, 0 ≤ slot.offset) :
    size = constraint.extent ↔ ∀ slot ∈ constraint.slots,
      min (slot.offset.toInt.toNat + max slot.size.toNat (reading.span slot.cls)) lastOffset ≤
        constraint.extent.toNat := by
  -- A struct is as large as its extent unless a slot goes on beyond it.
  have least := ((size_le_iff read ascending).1 (UInt64.le_refl size)).1
  have same : size = constraint.extent ↔ size ≤ constraint.extent :=
    ⟨fun equal => equal ▸ UInt64.le_refl _, fun most => UInt64.le_antisymm most least⟩
  rw [same, size_le_iff read ascending, and_iff_right (UInt64.le_refl _)]
  exact forall₂_congr fun slot member => stop_le_iff (ahead slot member)

end Reading

theorem Constraint.ascending_relink (find : ClassId → ClassId) {constraint : Constraint}
    (ascending : Slot.Ascending constraint.slots) :
    Slot.Ascending (constraint.relink find).slots :=
  List.pairwise_map.2 (ascending.imp fun before => before)

namespace Store

theorem ascending_withLocations (count : Nat) :
    (withLocations count).Each fun constraint => Slot.Ascending constraint.slots := by
  intro cls
  rw [constraint_withLocations]
  exact List.Pairwise.nil

/-- A slot within the extent by the count of propagation is within it by that of the layout, unless
it holds the aggregate itself. -/
theorem within_iff_of_reach {store : Store} {root : ClassId} {slot : Slot} (ahead : 0 ≤ slot.offset)
    (reach : slotReach store.width store.extent root slot ≤ store.extent root) :
    min (slot.offset.toInt.toNat + max slot.size.toNat (store.constraint slot.cls).span)
        Reading.lastOffset ≤ (store.extent root).toNat ↔
      (slot.cls = root → Reading.lastOffset ≤ (store.extent root).toNat ∨
        slot.offset = 0 ∧ store.width root ≤ (store.extent root).toNat) := by
  have start : 0 ≤ slot.offset.toInt := Int64.le_iff_toInt_le.1 ahead
  have most := Int64.toInt_lt slot.offset
  have byte := slot.size.toNat_lt
  have base : slot.offset = 0 ↔ slot.offset.toInt = 0 := Int64.toInt_inj.symm
  have span : (store.constraint slot.cls).span =
      max (store.width slot.cls) (store.extent slot.cls).toNat := rfl
  rw [slotReach, if_neg (Int64.not_lt.2 ahead), UInt64.le_iff_toNat_le, toNat_ofNatClamp] at reach
  rw [span, base]
  unfold Reading.lastOffset
  -- Only a slot that holds the aggregate itself is counted in two ways.
  by_cases own : slot.cls = root
  · subst own
    simp only [if_true, UInt64.size, forall_const] at *
    omega
  · simp only [own, if_false, UInt64.size, false_implies, iff_true] at *
    omega

/-- After propagation a struct has the size of its extent unless it holds itself: then it does only
where each slot that holds it lies at the base and its values are no wider than it is. -/
theorem propagate_size_eq_extent_iff {schedule : Schedule} {cap : Nat} {store after : Store}
    {pairs : List ClassPair} {work : Work} (refersInside : store.RefersInside)
    (ascending : store.Each fun constraint => Slot.Ascending constraint.slots)
    (pairsInside : ∀ pair ∈ pairs, store.contains pair.1 ∧ store.contains pair.2)
    (ran : store.propagate schedule cap pairs = (after, .ok work)) (config : Config)
    {root : ClassId} (isRoot : root ∈ after.roots) {size : UInt64} {fields : List (CField CType)}
    (read : (Typing.ofStore config after).typeOfClass?
      ((Typing.readingOf config after).number root) = some (.struct size fields))
    (ahead : ∀ slot ∈ (after.constraint root).slots, 0 ≤ slot.offset) :
    size = (after.constraint root).extent ↔ ∀ slot ∈ (after.constraint root).slots,
      after.root slot.cls = root → Reading.lastOffset ≤ (after.constraint root).extent.toNat ∨
        slot.offset = 0 ∧
          ((after.constraint root).width.getD 0).toNat ≤ (after.constraint root).extent.toNat := by
  have inside := Propagation.inside_of_contains refersInside pairsInside
  obtain ⟨count, within, final, steps, done, last, _⟩ := Propagation.run_ok (congrArg Prod.snd ran)
  have last : after = final.store := (congrArg Prod.fst ran).symm.trans last
  subst last
  have tracks := Propagation.tracksExtents_start store pairs
  have closed := Propagation.closed_of_done (steps.tracksExtents inside tracks) done
  have linked := Propagation.linked_of_done (steps.links inside tracks
    (Propagation.links_start store pairs)) done
  have fixed := (mem_roots.1 isRoot).2
  have references := linked root
  rw [fixed] at references
  rw [Typing.typeOfClass?_number (steps.inside inside).refers (mem_roots.1 isRoot).1,
    Option.some_inj] at read
  have ascending : Slot.Ascending (final.store.constraint root).slots :=
    steps.each (fun ascending _ => Slot.addAll_ascending _ ascending)
      (fun find _ ascending => Constraint.ascending_relink find ascending) inside ascending root
  rw [Reading.size_eq_extent_iff read ascending ahead]
  refine forall₂_congr fun slot member => ?_
  have target : final.store.root slot.cls = slot.cls :=
    references _ (Propagation.mem_references member)
  have shape : (final.store.shape root).slots = (final.store.constraint root).slots := by
    show ((final.store.constraint root).relink final.store.root).slots = _
    rw [Constraint.relink_of_fixed references]
  rw [target]
  exact within_iff_of_reach (ahead slot member) (closed root fixed slot (shape ▸ member))

def nested : Store :=
  (((withLocations 1).fresh { slots := [⟨4, 4, ⟨0⟩⟩] }).2.fresh { slots := [⟨4, 4, ⟨1⟩⟩] }).2

theorem propagate_size_eq_extent_nested : nested.RefersInside ∧
    (nested.Each fun constraint => Slot.Ascending constraint.slots) ∧
    ∃ after work, nested.propagate .listed 1000 [] = (after, .ok work) ∧
      ⟨2⟩ ∈ after.roots ∧ (Typing.ofStore {} after).typeOfClass?
        ((Typing.readingOf {} after).number ⟨2⟩) = some (.struct 12 [⟨4, 8, .sameAs ⟨2⟩⟩]) ∧
      (∀ slot ∈ (after.constraint ⟨2⟩).slots, 0 ≤ slot.offset) ∧
      12 = (after.constraint ⟨2⟩).extent := by
  have refersInside : nested.RefersInside := refersInside_made
    (refersInside_made (refersInside_withLocations 1) (by decide)) (by decide)
  have ascending : nested.Each fun constraint => Slot.Ascending constraint.slots := by
    apply each_fresh
    · apply each_fresh
      · intro cls
        rw [constraint_withLocations]
        exact List.Pairwise.nil
      · exact List.pairwise_singleton _ _
    · exact List.pairwise_singleton _ _
  obtain ⟨after, work, ran, isRoot, read, ahead, apart⟩ : ∃ after work,
      nested.propagate .listed 1000 [] = (after, .ok work) ∧ ⟨2⟩ ∈ after.roots ∧
        (Typing.ofStore {} after).typeOfClass? ((Typing.readingOf {} after).number ⟨2⟩) =
          some (.struct 12 [⟨4, 8, .sameAs ⟨2⟩⟩]) ∧
        (∀ slot ∈ (after.constraint ⟨2⟩).slots, 0 ≤ slot.offset) ∧
        ∀ slot ∈ (after.constraint ⟨2⟩).slots, after.root slot.cls ≠ ⟨2⟩ :=
    ⟨_, _, rfl, by decide, rfl, by decide, by decide⟩
  refine ⟨refersInside, ascending, after, work, ran, isRoot, read, ahead, ?_⟩
  exact (propagate_size_eq_extent_iff refersInside ascending (List.forall_mem_nil _) ran {} isRoot
    read ahead).2 fun slot member same => absurd same (apart slot member)

def selfHolding : Store := (empty.fresh { slots := [⟨4, 4, ⟨0⟩⟩] }).2

/-- The aggregate reaches to the end of the access to itself, and its type beyond it. -/
theorem propagate_size_ne_extent_selfHolding : selfHolding.RefersInside ∧
    (∀ cls, (selfHolding.constraint cls).extent = 0) ∧
    ∃ after work, selfHolding.propagate .listed 1000 [] = (after, .ok work) ∧
      (Typing.ofStore {} after).typeOfClass? ((Typing.readingOf {} after).number ⟨0⟩) =
        some (.struct 12 [⟨4, 8, .sameAs ⟨1⟩⟩]) ∧
      (∀ slot ∈ (after.constraint ⟨0⟩).slots, 0 ≤ slot.offset) ∧
      (after.constraint ⟨0⟩).extent = 8 := by
  refine ⟨?_, fun cls => ?_, _, _, rfl, rfl, by decide, rfl⟩
  · exact refersInside_made (refersInside_withLocations 0) (by decide)
  · rw [selfHolding, constraint_fresh, empty, constraint_withLocations]
    split <;> rfl

end Store
end TypeRecovery
