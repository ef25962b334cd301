import TypeRecovery.Proofs.Conjunctions
/-!
Slots of a constraint that is put together call by call. They are in strict order, as if each offset
had a shelf of its own, never an empty one, with the sizes on it growing. A slot that was added at
any time has its field there for good. Another class may stand for it, one that the pairs returned
since then connect with its own.
-/
namespace TypeRecovery

namespace Slot

/-- The slots at one offset. -/
structure Shelf where
  offset : Int64
  slots : List Slot
deriving DecidableEq

def place (slot : Slot) : List Slot → List Slot
  | [] => [slot]
  | head :: rest => if head.size < slot.size then head :: place slot rest else slot :: head :: rest

def shelve (slot : Slot) : List Shelf → List Shelf × Option ClassPair
  | [] => ([⟨slot.offset, [slot]⟩], none)
  | shelf :: rest =>
    if slot.offset < shelf.offset then (⟨slot.offset, [slot]⟩ :: shelf :: rest, none)
    else if slot.offset = shelf.offset then
      match shelf.slots.find? fun known => known.size = slot.size with
      | some known =>
        (shelf :: rest, if known.cls = slot.cls then none else some (known.cls, slot.cls))
      | none => (⟨shelf.offset, place slot shelf.slots⟩ :: rest, none)
    else
      let shelved := shelve slot rest
      (shelf :: shelved.1, shelved.2)

def shelveAll (shelves : List Shelf) (slots : List Slot) : List Shelf :=
  slots.foldl (fun shelves slot => (shelve slot shelves).1) shelves

def unshelve (shelves : List Shelf) : List Slot := shelves.flatMap Shelf.slots

def Shelf.relink (find : ClassId → ClassId) (shelf : Shelf) : Shelf :=
  { shelf with slots := shelf.slots.map fun slot => { slot with cls := find slot.cls } }

/-- Something lies on the shelf, all of it at the shelf's offset, and the sizes grow strictly. -/
structure Shelf.Kept (shelf : Shelf) : Prop where
  filled : shelf.slots ≠ []
  placed : ∀ slot ∈ shelf.slots, slot.offset = shelf.offset
  growing : shelf.slots.Pairwise fun a b => a.size < b.size

structure Shelved (shelves : List Shelf) : Prop where
  ascending : shelves.Pairwise fun a b => a.offset < b.offset
  kept : ∀ shelf ∈ shelves, shelf.Kept

variable {slot other : Slot} {slots : List Slot} {shelf : Shelf} {shelves : List Shelf}

theorem mem_place : other ∈ place slot slots ↔ other = slot ∨ other ∈ slots := by
  induction slots with
  | nil => exact List.mem_cons
  | cons head rest ih =>
    unfold place
    split
    · rw [List.mem_cons, ih, List.mem_cons, or_left_comm]
    · exact List.mem_cons

theorem place_growing (growing : slots.Pairwise fun a b => a.size < b.size)
    (apart : ∀ known ∈ slots, known.size ≠ slot.size) :
    (place slot slots).Pairwise fun a b => a.size < b.size := by
  induction slots with
  | nil => exact List.pairwise_singleton _ _
  | cons head rest ih =>
    obtain ⟨least, later⟩ := List.pairwise_cons.1 growing
    obtain ⟨different, others⟩ := List.forall_mem_cons.1 apart
    unfold place
    split
    · rename_i smaller
      refine List.pairwise_cons.2 ⟨fun known member => ?_, ih later others⟩
      rcases mem_place.1 member with rfl | held
      · exact smaller
      · exact least known held
    · rename_i notSmaller
      have first : slot.size < head.size :=
        UInt8.lt_of_le_of_ne (UInt8.not_lt.1 notSmaller) (Ne.symm different)
      exact List.pairwise_cons.2 ⟨List.forall_mem_cons.2 ⟨first, fun known member =>
        UInt8.lt_trans first (least known member)⟩, growing⟩

theorem kept_singleton (slot : Slot) : Shelf.Kept ⟨slot.offset, [slot]⟩ where
  filled := List.cons_ne_nil _ _
  placed := by simp
  growing := List.pairwise_singleton _ _

theorem Shelf.Kept.place (kept : shelf.Kept) (same : slot.offset = shelf.offset)
    (apart : ∀ known ∈ shelf.slots, known.size ≠ slot.size) :
    Shelf.Kept ⟨shelf.offset, Slot.place slot shelf.slots⟩ where
  filled := List.ne_nil_of_mem (mem_place.2 (Or.inl rfl))
  placed other member := by
    rcases mem_place.1 member with rfl | held
    · exact same
    · exact kept.placed other held
  growing := place_growing kept.growing apart

theorem Shelf.Kept.relink (kept : shelf.Kept) (find : ClassId → ClassId) :
    (shelf.relink find).Kept where
  filled := by simpa [Shelf.relink] using kept.filled
  placed := List.forall_mem_map.2 kept.placed
  growing := List.pairwise_map.2 kept.growing

theorem mem_unshelve : slot ∈ unshelve shelves ↔ ∃ shelf ∈ shelves, slot ∈ shelf.slots :=
  List.mem_flatMap

theorem Shelved.ordered (shelved : Shelved shelves) : Ordered (unshelve shelves) := by
  refine List.pairwise_flatMap.2 ⟨fun shelf member => ?_, ?_⟩
  · have kept := shelved.kept shelf member
    refine kept.growing.imp_of_mem fun {a b} left right smaller => Or.inr ⟨?_, smaller⟩
    rw [kept.placed a left, kept.placed b right]
  · refine shelved.ascending.imp_of_mem fun {low high} left right before a onLow b onHigh => ?_
    rw [← (shelved.kept low left).placed a onLow, ← (shelved.kept high right).placed b onHigh]
      at before
    exact Or.inl before

theorem shelve_cases (shelved : Shelved shelves) (slot : Slot) :
    (∃ known ∈ unshelve shelves, known.SameField slot ∧ shelve slot shelves =
      (shelves, if known.cls = slot.cls then none else some (known.cls, slot.cls))) ∨
    (∀ known ∈ unshelve shelves, ¬ known.SameField slot) ∧ (shelve slot shelves).2 = none ∧
      ∀ other, other ∈ unshelve (shelve slot shelves).1 ↔
        other = slot ∨ other ∈ unshelve shelves := by
  induction shelves with
  | nil => exact Or.inr ⟨List.forall_mem_nil _, rfl, fun other => List.mem_cons⟩
  | cons shelf rest ih =>
    obtain ⟨first, later⟩ := List.pairwise_cons.1 shelved.ascending
    obtain ⟨kept, restKept⟩ := List.forall_mem_cons.1 shelved.kept
    have mem (other : Slot) : other ∈ unshelve (shelf :: rest) ↔
        other ∈ shelf.slots ∨ other ∈ unshelve rest := List.mem_append
    have behind (known : Slot) (member : known ∈ unshelve rest) : shelf.offset < known.offset := by
      obtain ⟨high, listed, onHigh⟩ := mem_unshelve.1 member
      rw [(restKept high listed).placed known onHigh]
      exact first high listed
    unfold shelve
    split
    · -- In front of all shelves.
      rename_i before
      refine Or.inr ⟨fun known member same => ?_, rfl, fun other => List.mem_cons⟩
      rw [← same.1] at before
      rcases (mem known).1 member with here | there
      · exact Int64.lt_irrefl (kept.placed known here ▸ before)
      · exact Int64.lt_irrefl (Int64.lt_trans before (behind known there))
    · split
      · rename_i notBefore same
        split
        · rename_i known found
          have sized : known.size = slot.size := by simpa using List.find?_some found
          have here := List.mem_of_find?_eq_some found
          exact Or.inl ⟨known, (mem known).2 (Or.inl here),
            ⟨(kept.placed known here).trans same.symm, sized⟩, rfl⟩
        · rename_i absent
          refine Or.inr ⟨fun known member both => ?_, rfl, fun other => ?_⟩
          · rcases (mem known).1 member with here | there
            · exact List.find?_eq_none.1 absent known here (decide_eq_true both.2)
            · have further := behind known there
              rw [both.1, same] at further
              exact Int64.lt_irrefl further
          · rw [mem, ← or_assoc, ← mem_place]
            exact List.mem_append
      · rename_i notBefore apart
        -- On a shelf further on.
        rcases ih ⟨later, restKept⟩ with ⟨known, member, same, shelf⟩ | ⟨none, pair, grown⟩
        · exact Or.inl ⟨known, (mem known).2 (Or.inr member), same, by simp only [shelf]⟩
        · refine Or.inr ⟨fun known member both => ?_, pair, fun other => ?_⟩
          · rcases (mem known).1 member with here | there
            · exact apart (both.1.symm.trans (kept.placed known here))
            · exact none known there both
          · show other ∈ shelf.slots ++ unshelve (shelve slot rest).1 ↔ _
            rw [List.mem_append, grown, mem, or_left_comm]

theorem offset_of_mem_shelve (member : shelf ∈ (shelve slot shelves).1) :
    shelf.offset = slot.offset ∨ ∃ known ∈ shelves, shelf.offset = known.offset := by
  induction shelves with
  | nil =>
    rw [List.mem_singleton.1 member]
    exact Or.inl rfl
  | cons head rest ih =>
    have old (listed : shelf ∈ head :: rest) :
        ∃ known ∈ head :: rest, shelf.offset = known.offset :=
      ⟨shelf, listed, rfl⟩
    unfold shelve at member
    split at member
    · rcases List.mem_cons.1 member with rfl | listed
      · exact Or.inl rfl
      · exact Or.inr (old listed)
    · split at member
      · rename_i same
        split at member
        · exact Or.inr (old member)
        · rcases List.mem_cons.1 member with rfl | listed
          · exact Or.inl same.symm
          · exact Or.inr (old (List.mem_cons_of_mem _ listed))
      · rcases List.mem_cons.1 member with rfl | listed
        · exact Or.inr (old List.mem_cons_self)
        · rcases ih listed with new | ⟨known, listed, same⟩
          · exact Or.inl new
          · exact Or.inr ⟨known, List.mem_cons_of_mem _ listed, same⟩

theorem Shelved.shelve (shelved : Shelved shelves) (slot : Slot) :
    Shelved (Slot.shelve slot shelves).1 := by
  induction shelves with
  | nil =>
    exact ⟨List.pairwise_singleton _ _, List.forall_mem_singleton.2 (kept_singleton slot)⟩
  | cons shelf rest ih =>
    obtain ⟨first, later⟩ := List.pairwise_cons.1 shelved.ascending
    obtain ⟨kept, restKept⟩ := List.forall_mem_cons.1 shelved.kept
    unfold Slot.shelve
    split
    · rename_i before
      refine ⟨List.pairwise_cons.2 ⟨List.forall_mem_cons.2 ⟨before, fun high listed =>
        Int64.lt_trans before (first high listed)⟩, shelved.ascending⟩, ?_⟩
      exact List.forall_mem_cons.2 ⟨kept_singleton slot, shelved.kept⟩
    · rename_i notBefore
      split
      · rename_i same
        split
        · exact shelved
        · rename_i absent
          refine ⟨List.pairwise_cons.2 ⟨first, later⟩, List.forall_mem_cons.2 ⟨?_, restKept⟩⟩
          exact kept.place same fun known here sized =>
            List.find?_eq_none.1 absent known here (decide_eq_true sized)
      · rename_i apart
        have further := ih ⟨later, restKept⟩
        refine ⟨List.pairwise_cons.2 ⟨fun high listed => ?_, further.ascending⟩,
          List.forall_mem_cons.2 ⟨kept, further.kept⟩⟩
        rcases offset_of_mem_shelve listed with new | ⟨known, old, same⟩
        · rw [new]
          exact Int64.lt_of_le_of_ne (Int64.not_lt.1 notBefore) (Ne.symm apart)
        · rw [same]
          exact first known old

theorem Shelved.relink (shelved : Shelved shelves) (find : ClassId → ClassId) :
    Shelved (shelves.map (Shelf.relink find)) where
  ascending := List.pairwise_map.2 shelved.ascending
  kept := List.forall_mem_map.2 fun shelf listed => (shelved.kept shelf listed).relink find

theorem unshelve_shelve (shelved : Shelved shelves) (slot : Slot) :
    add (unshelve shelves) slot = (unshelve (shelve slot shelves).1, (shelve slot shelves).2) := by
  have ordered := shelved.ordered
  rcases shelve_cases shelved slot with ⟨known, member, same, held⟩ | ⟨apart, pair, grown⟩
  · rcases add_cases (unshelve shelves) slot with ⟨found, here, alike, added⟩ | ⟨none, _⟩
    · have equal : found = known := eq_of_sameField (separate_of_ordered ordered) here member
        ⟨alike.1.trans same.1.symm, alike.2.trans same.2.symm⟩
      rw [added, held, equal]
    · exact absurd same (none known member)
  · rcases add_cases (unshelve shelves) slot with ⟨found, here, alike, _⟩ | ⟨_, added⟩
    · exact absurd alike (apart found here)
    · have slots : insert slot (unshelve shelves) = unshelve (shelve slot shelves).1 :=
        ordered_ext (insert_ordered ordered apart) (shelved.shelve slot).ordered
          fun other => mem_insert.trans (grown other).symm
      rw [added, pair, slots]

theorem Shelved.shelveAll (shelved : Shelved shelves) (more : List Slot) :
    Shelved (Slot.shelveAll shelves more) ∧
      unshelve (Slot.shelveAll shelves more) = (addAll (unshelve shelves) more).1 := by
  induction more generalizing shelves with
  | nil => exact ⟨shelved, rfl⟩
  | cons slot rest ih =>
    rw [addAll, unshelve_shelve shelved slot]
    exact ih (shelved.shelve slot)

theorem unshelve_relink (find : ClassId → ClassId) (shelves : List Shelf) :
    unshelve (shelves.map (Shelf.relink find)) =
      (unshelve shelves).map fun slot => { slot with cls := find slot.cls } := by
  rw [unshelve, unshelve, List.flatMap_map, List.map_flatMap]
  rfl

end Slot

/-- A slot that was added to a constraint, with the pairs that were returned since. Maps take the
classes of both along. -/
structure Addition where
  slot : Slot
  pairs : List ClassPair
deriving DecidableEq

namespace Addition

def onward (addition : Addition) (returned : List ClassPair) : Addition :=
  { addition with pairs := addition.pairs ++ returned }

def relink (find : ClassId → ClassId) (addition : Addition) : Addition where
  slot := { addition.slot with cls := find addition.slot.cls }
  pairs := addition.pairs.map (Prod.map find find)

end Addition

/-- The calls that a constraint is put together by, from an empty one on. -/
inductive Assembly where
  | empty
  | addSlot (before : Assembly) (slot : Slot)
  | conjoin (before other : Assembly)
  | relink (before : Assembly) (find : ClassId → ClassId)

theorem Store.Connected.map {pairs : List ClassPair} {a b : ClassId}
    (connected : Connected pairs a b) (find : ClassId → ClassId) :
    Connected (pairs.map (Prod.map find find)) (find a) (find b) := by
  induction connected with
  | rel first second member => exact .rel _ _ (List.mem_map_of_mem member)
  | refl cls => exact .refl _
  | symm _ _ _ ih => exact .symm _ _ ih
  | trans _ _ _ _ _ first second => exact .trans _ _ _ first second

namespace Assembly

def constraint : Assembly → Constraint
  | empty => {}
  | addSlot before slot => (before.constraint.addSlot slot).1
  | conjoin before other => (before.constraint.conjoin other.constraint).constraint
  | relink before find => before.constraint.relink find

def returned : Assembly → List ClassPair
  | empty => []
  | addSlot before slot => (before.constraint.addSlot slot).2.toList
  | conjoin before other => (before.constraint.conjoin other.constraint).implied
  | relink _ _ => []

def additions : Assembly → List Addition
  | empty => []
  | addSlot before slot =>
    let returned := (addSlot before slot).returned
    ⟨slot, returned⟩ :: before.additions.map (·.onward returned)
  | conjoin before other =>
    let returned := (conjoin before other).returned
    other.constraint.slots.map (Addition.mk · returned) ++
      (before.additions ++ other.additions).map (·.onward returned)
  | relink before find => before.additions.map (Addition.relink find)

def shelves : Assembly → List Slot.Shelf
  | empty => []
  | addSlot before slot => (Slot.shelve slot before.shelves).1
  | conjoin before other => Slot.shelveAll before.shelves (Slot.unshelve other.shelves)
  | relink before find => before.shelves.map (Slot.Shelf.relink find)

theorem shelved (assembly : Assembly) : Slot.Shelved assembly.shelves ∧
    Slot.unshelve assembly.shelves = assembly.constraint.slots := by
  induction assembly with
  | empty => exact ⟨⟨List.Pairwise.nil, List.forall_mem_nil _⟩, rfl⟩
  | addSlot before slot ih =>
    obtain ⟨shelved, slots⟩ := ih
    refine ⟨shelved.shelve slot, ?_⟩
    show _ = (Slot.add before.constraint.slots slot).1
    rw [← slots, Slot.unshelve_shelve shelved slot]
    rfl
  | conjoin before other ih others =>
    obtain ⟨shelved, slots⟩ := ih
    obtain ⟨kept, same⟩ := shelved.shelveAll (Slot.unshelve other.shelves)
    refine ⟨kept, same.trans ?_⟩
    rw [slots, others.2]
    rfl
  | relink before find ih =>
    obtain ⟨shelved, slots⟩ := ih
    refine ⟨shelved.relink find, ?_⟩
    show Slot.unshelve (before.shelves.map (Slot.Shelf.relink find)) = _
    rw [Slot.unshelve_relink, slots]
    rfl

theorem bare (assembly : Assembly) :
    assembly.constraint.pointee = none ∧ assembly.constraint.signature = none := by
  induction assembly with
  | empty => exact ⟨rfl, rfl⟩
  | addSlot before slot ih => exact ih
  | conjoin before other ih others =>
    constructor
    · show before.constraint.pointee.or other.constraint.pointee = none
      rw [ih.1, others.1]
      rfl
    · show before.constraint.signature.merge _ other.constraint.signature = none
      rw [ih.2, others.2]
      rfl
  | relink before find ih =>
    constructor
    · exact congrArg (Option.map find) ih.1
    · exact congrArg (Option.map (Signature.relink find)) ih.2

theorem references (assembly : Assembly) :
    assembly.constraint.references = assembly.constraint.slots.map Slot.cls := by
  obtain ⟨pointee, signature⟩ := assembly.bare
  rw [Constraint.references, pointee, signature]
  exact List.append_nil _

/-- The field of an added slot is held, by a class that the pairs connect with the added one. -/
def Represents (slots : List Slot) (addition : Addition) : Prop :=
  ∃ held ∈ slots, held.SameField addition.slot ∧
    Store.Connected addition.pairs held.cls addition.slot.cls

section represents

variable {slots more : List Slot} {addition : Addition} {returned : List ClassPair}

theorem represents_of_mem {slot : Slot} (member : slot ∈ slots) (pairs : List ClassPair) :
    Represents slots ⟨slot, pairs⟩ :=
  ⟨slot, member, ⟨rfl, rfl⟩, .refl _⟩

theorem Represents.onward (represents : Represents slots addition)
    (kept : ∀ held ∈ slots, Represents more ⟨held, returned⟩) :
    Represents more (addition.onward returned) := by
  obtain ⟨held, member, same, connected⟩ := represents
  obtain ⟨now, present, alike, linked⟩ := kept held member
  refine ⟨now, present, ⟨alike.1.trans same.1, alike.2.trans same.2⟩, ?_⟩
  exact .trans _ held.cls _ (linked.mono (List.subset_append_right _ _)) (connected.append returned)

theorem Represents.relink (represents : Represents slots addition) (find : ClassId → ClassId) :
    Represents (slots.map fun slot => { slot with cls := find slot.cls })
      (addition.relink find) := by
  obtain ⟨held, member, same, connected⟩ := represents
  exact ⟨_, List.mem_map_of_mem member, same, connected.map find⟩

theorem represents_add (slots : List Slot) (slot : Slot) :
    Represents (Slot.add slots slot).1 ⟨slot, (Slot.add slots slot).2.toList⟩ := by
  obtain ⟨held, member, same, cls⟩ := Slot.add_represents slots slot
  refine ⟨held, member, same, ?_⟩
  rcases cls with equal | pair
  · exact equal ▸ .refl _
  · exact .rel _ _ (Option.mem_toList.2 pair)

theorem represents_join {before other : Constraint} {slot : Slot} (member : slot ∈ other.slots) :
    Represents (before.join other).slots ⟨slot, before.implied other⟩ := by
  obtain ⟨held, present, same, cls⟩ := @Slot.addAll_represents before.slots _ _ member
  refine ⟨held, present, same, ?_⟩
  rcases cls with equal | pair
  · exact equal ▸ .refl _
  · exact .rel _ _ (List.mem_append_left _ (List.mem_append_right _ pair))

end represents

theorem represented (assembly : Assembly) :
    ∀ addition ∈ assembly.additions, Represents assembly.constraint.slots addition := by
  induction assembly with
  | empty => exact List.forall_mem_nil _
  | addSlot before slot ih =>
    refine List.forall_mem_cons.2 ⟨represents_add _ _, List.forall_mem_map.2 ?_⟩
    intro addition member
    exact (ih addition member).onward fun held present =>
      represents_of_mem (Slot.add_keeps slot present) _
  | conjoin before other ih others =>
    refine List.forall_mem_append.2 ⟨List.forall_mem_map.2 fun slot member =>
      represents_join member, List.forall_mem_map.2 (List.forall_mem_append.2 ⟨?_, ?_⟩)⟩
    · intro addition member
      exact (ih addition member).onward fun held present =>
        represents_of_mem (Slot.addAll_keeps _ present) _
    · intro addition member
      exact (others addition member).onward fun held present => represents_join present
  | relink before find ih =>
    exact List.forall_mem_map.2 fun addition member => (ih addition member).relink find

/-- A constraint that is put together in any way has its slots as if they lay on shelves, one for
each offset: none of them is empty, the sizes on each grow strictly, and the references of the
constraint go along them. No field that was ever added is lost: just one slot holds it, and the
pairs that were returned since the field was added connect the class of this slot with its own. -/
theorem keeps_slots (assembly : Assembly) :
    assembly.shelves.Pairwise (fun a b => a.offset < b.offset) ∧
      (∀ shelf ∈ assembly.shelves, shelf.slots ≠ [] ∧
        (∀ slot ∈ shelf.slots, slot.offset = shelf.offset) ∧
        shelf.slots.Pairwise fun a b => a.size < b.size) ∧
      assembly.constraint.slots = assembly.shelves.flatMap Slot.Shelf.slots ∧
      Slot.Ordered assembly.constraint.slots ∧
      assembly.constraint.references = assembly.constraint.slots.map Slot.cls ∧
      ∀ addition ∈ assembly.additions, ∃! held, held ∈ assembly.constraint.slots ∧
        held.SameField addition.slot ∧
        Store.Connected addition.pairs held.cls addition.slot.cls := by
  obtain ⟨shelved, slots⟩ := assembly.shelved
  have ordered : Slot.Ordered assembly.constraint.slots := slots ▸ shelved.ordered
  refine ⟨shelved.ascending, fun shelf listed => ?_, slots.symm, ordered, assembly.references, ?_⟩
  · have kept := shelved.kept shelf listed
    exact ⟨kept.filled, kept.placed, kept.growing⟩
  · intro addition member
    obtain ⟨held, present, same, connected⟩ := assembly.represented addition member
    refine ⟨held, ⟨present, same, connected⟩, fun other ⟨here, alike, _⟩ => ?_⟩
    exact Slot.eq_of_sameField (Slot.separate_of_ordered ordered) here present
      ⟨alike.1.trans same.1.symm, alike.2.trans same.2.symm⟩

def refound : Assembly :=
  let before := ((empty.addSlot ⟨4, 4, ⟨1⟩⟩).addSlot ⟨4, 2, ⟨2⟩⟩).addSlot ⟨4, 4, ⟨3⟩⟩
  let other := (empty.addSlot ⟨4, 4, ⟨6⟩⟩).addSlot ⟨-8, 1, ⟨7⟩⟩
  (before.conjoin other).relink fun cls => if cls = ⟨1⟩ then ⟨9⟩ else cls

theorem keeps_slots_refound :
    refound.constraint.slots = [⟨-8, 1, ⟨7⟩⟩, ⟨4, 2, ⟨2⟩⟩, ⟨4, 4, ⟨9⟩⟩] ∧
      refound.shelves.map Slot.Shelf.offset = [-8, 4] ∧
      ⟨⟨4, 4, ⟨3⟩⟩, [(⟨9⟩, ⟨3⟩), (⟨9⟩, ⟨6⟩)]⟩ ∈ refound.additions ∧
      ∃! held, held ∈ refound.constraint.slots ∧ held.SameField ⟨4, 4, ⟨3⟩⟩ ∧
        Store.Connected [(⟨9⟩, ⟨3⟩), (⟨9⟩, ⟨6⟩)] held.cls ⟨3⟩ := by
  have member : ⟨⟨4, 4, ⟨3⟩⟩, [(⟨9⟩, ⟨3⟩), (⟨9⟩, ⟨6⟩)]⟩ ∈ refound.additions := by decide
  obtain ⟨_, _, _, _, _, kept⟩ := keeps_slots refound
  exact ⟨by decide, by decide, member, kept _ member⟩

end Assembly
end TypeRecovery
