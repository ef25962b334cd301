import Mathlib.Data.Fintype.Pigeonhole
import Mathlib.Logic.Relation
import TypeRecovery.Proofs.AnalysisOutcome
import TypeRecovery.Proofs.CollectedEvents
import TypeRecovery.Proofs.FieldGroups
import TypeRecovery.Proofs.Monotonicity
import TypeRecovery.Proofs.TypingClasses
/-!
Aliases. A class is an alias of another when it is an aggregate of nothing but one value of that
class and nothing is known of the aggregate itself. What is found in a slot has been accessed or is
a declared value, so something is known of it, and in a typing that was inferred an alias leads to a
type that is none.

In any typing the classes that aliases lead to form a single chain. It ends at a class that is no
alias, or at a number that is none of the typing's, or it comes back to a class that it has passed.
As many steps as there are classes tell the three apart, whatever the numbers in the types are.
-/
namespace TypeRecovery

theorem Constraint.hasOwnEvidence_of_has {constraint : Constraint} {trait : Trait}
    (has : constraint.Has trait) : constraint.hasOwnEvidence = true := by
  by_contra bare
  have empty : ({ constraint with slots := [] } : Constraint).isEmpty = true := by
    simpa [isEmpty, hasOwnEvidence] using bare
  exact (isEmpty_iff.1 empty).1 trait (by cases trait <;> exact has)

theorem CType.ofGroups_ne_sameAs (extent : UInt64) (groups : List FieldGroup) (cls : ClassId) :
    ofGroups extent groups ≠ .sameAs cls := by
  rcases ofGroups_cases extent groups with ⟨_, _, _, _, union⟩ | struct
  · rw [union]
    exact nofun
  · rw [struct]
    exact nofun

namespace Reading

variable {reading : Reading} {constraint : Constraint} {cls : ClassId}

theorem pointer_ne_sameAs (target : ClassId) : reading.pointer constraint target ≠ .sameAs cls := by
  unfold pointer
  simp only
  split <;> exact nofun

theorem scalar_ne_sameAs : reading.scalar constraint ≠ .sameAs cls := by
  unfold scalar
  simp only
  split
  · exact nofun
  · split <;> exact nofun

theorem hasOwnEvidence_of_aggregate (read : reading.aggregate constraint = .sameAs cls) :
    constraint.hasOwnEvidence = false := by
  rcases aggregate_cases reading constraint with ⟨_, _, _, bare, _⟩ | grouped
  · exact bare
  · exact absurd (grouped.symm.trans read) (CType.ofGroups_ne_sameAs _ _ cls)

theorem hasOwnEvidence_of_sameAs (read : reading.type constraint = .sameAs cls) :
    constraint.hasOwnEvidence = false := by
  rcases type_cases reading constraint with void | ⟨_, _, function⟩ | ⟨target, _, pointer⟩ |
    ⟨_, aggregate⟩ | ⟨_, _, scalar⟩
  · cases void.symm.trans read
  · cases function.symm.trans read
  · exact absurd (pointer.symm.trans read) (pointer_ne_sameAs target)
  · exact hasOwnEvidence_of_aggregate (aggregate.symm.trans read)
  · exact absurd (scalar.symm.trans read) scalar_ne_sameAs

end Reading

namespace Scene

variable {Label : Type}

/-- The scene in which slots lead to nothing but labels that something is known of. -/
def evident (scene : Scene Label) : Scene Label where
  has := scene.has
  refers here role target := scene.refers here role target ∧
    ∀ offset size, role = .slot offset size → ∃ trait, scene.has target trait
  place := scene.place
  named := scene.named

variable {scene : Scene Label} {pointerSize : UInt8}

theorem evident_unique (unique : scene.Unique) : scene.evident.Unique :=
  fun refers refers' => unique refers.1 refers'.1

theorem evident_refers {here target : Label} {role : Role}
    (refers : scene.refers here role target) (unslotted : ∀ offset size, role ≠ .slot offset size) :
    scene.evident.refers here role target :=
  ⟨refers, fun offset size same => absurd same (unslotted offset size)⟩

theorem exists_trait_of_sized {hint : Hint} {size : UInt8} {here : Label}
    (sized : hint.size pointerSize = some size)
    (declared : scene.Declared pointerSize [] hint here) :
    ∃ trait, scene.has here trait := by
  match hint with
  | .int bytes signedness =>
    simp only [Declared] at declared
    exact ⟨_, declared (.kind .primitive) ⟨.primitive, rfl, Nat.le_refl _⟩⟩
  | .pointer inner =>
    simp only [Declared] at declared
    exact ⟨_, declared.1 (.kind .pointer) ⟨.pointer, rfl, Nat.le_refl _⟩⟩
  | .named name definition =>
    rw [declared_named] at declared
    exact ⟨_, declared.2.1 (.named name) ⟨name, rfl, String.le_refl _⟩⟩

mutual
theorem declared_evident (hint : Hint) {here : Label}
    (declared : scene.Declared pointerSize [] hint here) :
    scene.evident.Declared pointerSize [] hint here := by
  match hint with
  | .void =>
    simp only [Declared] at declared ⊢
    exact declared
  | .int size signedness =>
    simp only [Declared] at declared ⊢
    exact declared
  | .pointer inner =>
    simp only [Declared] at declared ⊢
    obtain ⟨shows', target, refers, declared⟩ := declared
    refine ⟨shows', target, evident_refers refers nofun, ?_⟩
    cases size : inner.size pointerSize with
    | some bytes =>
      simp only [size] at declared ⊢
      obtain ⟨value, slot, declared⟩ := declared
      exact ⟨value, ⟨slot, fun _ _ _ => exists_trait_of_sized size declared⟩,
        declared_evident inner declared⟩
    | none =>
      simp only [size] at declared ⊢
      exact declared_evident inner declared
  | .function name params ret =>
    simp only [Declared] at declared ⊢
    obtain ⟨shows', arity, ⟨targets, all, takes⟩, result, returns, declared⟩ := declared
    refine ⟨shows', arity, ⟨targets, declaredAll_evident params all, ?_⟩,
      result, evident_refers returns nofun, declared_evident ret declared⟩
    exact fun place target found => evident_refers (takes place target found) nofun
  | .named name definition =>
    rw [declared_named] at declared ⊢
    exact ⟨declared.1, declared.2.1, declared_evident definition declared.2.2⟩

theorem declaredAll_evident (hints : List Hint) {targets : List Label}
    (declared : scene.DeclaredAll pointerSize [] hints targets) :
    scene.evident.DeclaredAll pointerSize [] hints targets := by
  match hints with
  | [] => exact declared
  | hint :: rest =>
    simp only [DeclaredAll] at declared ⊢
    obtain ⟨target, others, rfl, declared, all⟩ := declared
    exact ⟨_, _, rfl, declared_evident hint declared, declaredAll_evident rest all⟩
end

/-- What is accessed through a pointer is known to take up bytes, for accesses have a size. -/
theorem used_evident {here : Label} {use : Use}
    (sized : ∀ base offset size, use = .dereference base offset size → size ≠ 0)
    (used : scene.Used here use) : scene.evident.Used here use := by
  cases use with
  | read size => exact used
  | write size => exact used
  | assignedFrom source => exact used
  | dereference base offset size =>
    simp only [Used] at used ⊢
    obtain ⟨dereferenced, accessed, target, points, slot⟩ := used
    have positive : 0 < size := UInt8.pos_iff_ne_zero.2 (sized base offset size rfl)
    have access : scene.has here (.access size) :=
      accessed (.access size) ⟨positive, UInt8.le_refl _⟩
    exact ⟨dereferenced, accessed, target, evident_refers points nofun,
      slot, fun _ _ _ => ⟨_, access⟩⟩
  | callWithArgs args =>
    simp only [Used] at used ⊢
    obtain ⟨called, ⟨result, returns⟩, arity, takes⟩ := used
    exact ⟨called, ⟨result, evident_refers returns nofun⟩, arity,
      fun place arg found => evident_refers (takes place arg found) nofun⟩
  | callReturns callee => exact ⟨used.1, used.2.1, evident_refers used.2.2 nofun⟩
  | comparedWith other signedness => exact used
  | arithmeticWith other operator => exact used

end Scene

theorem Event.sized_of_transcribe {table : LocationTable} {event : Event}
    {observation : Observation} (ok : event.transcribe table = .ok observation) {base : LocId}
    {offset : Int64} {size : UInt8} (use : observation.use = .dereference base offset size) :
    size ≠ 0 := by
  obtain ⟨wellFormed, recorded⟩ := recordedAs_of_transcribe ok
  have usedAs := recorded.use
  rw [use] at usedAs
  cases usedAs with
  | deref action _ given =>
    obtain ⟨known, found, nonzero⟩ := wellFormed.sized (by rw [action]; rfl)
    rw [given, Option.some.injEq] at found
    rwa [found]

theorem Typing.exists_slot_of_sameAs {config : Config} {store : Store} (inside : store.RefersInside)
    {cls next : ClassId} (link : (ofStore config store).typeOfClass? cls = some (.sameAs next)) :
    ∃ known slot, slot ∈ (store.constraint known).slots ∧ slot.cls.index < store.size ∧
      next = (readingOf config store).number slot.cls := by
  obtain ⟨known, _, read⟩ := exists_of_typeOfClass? inside link
  obtain ⟨slot, only, _, same⟩ := Reading.of_sameAs read.symm
  have member : slot ∈ (store.constraint known).slots := by
    rw [only]
    exact List.mem_singleton_self slot
  have refers : (store.constraint known).Refers (.slot slot.offset slot.size) slot.cls := member
  exact ⟨known, slot, member, inside refers, same⟩

namespace Analysis

variable {observations : List Observation} {locationCount : Nat} {config : Config}
  {seeded : Seeding} {final : Propagation}
  (analysis : Analysis observations locationCount config seeded final)
include analysis

theorem hasOwnEvidence_of_slot (sized : ∀ observation ∈ observations, ∀ base offset size,
    observation.use = .dereference base offset size → size ≠ 0) {cls : ClassId} {slot : Slot}
    (member : slot ∈ (final.store.constraint cls).slots) :
    (final.store.constraint slot.cls).hasOwnEvidence = true := by
  have observed : ∀ observation ∈ observations,
      final.store.scene.evident.Observed config.pointerSize [] observation := by
    intro observation seen
    obtain ⟨used, declared⟩ := analysis.observed observation seen
    exact ⟨Scene.used_evident (sized observation seen) used,
      fun hint hinted => Scene.declared_evident hint (declared hint hinted)⟩
  obtain ⟨label, placed, holds⟩ :=
    analysis.exists_labels (Scene.evident_unique analysis.unique) observed
  -- The labels that were found are the roots, for slots aside the scene is that of the store.
  have rooted : final.store.Holds label final.store.model :=
    ⟨holds.root, fun cls => ⟨(holds.constraint cls).has,
      fun role target refers => ((holds.constraint cls).refers role target refers).1⟩⟩
  have refers : (final.store.constraint cls).Refers (.slot slot.offset slot.size) slot.cls := member
  have inside : slot.cls.index < final.store.size := analysis.finalInside.refers refers
  obtain ⟨trait, has⟩ := ((holds.constraint cls).refers _ _ refers).2 _ _ rfl
  rw [analysis.label_eq_root rooted placed inside] at has
  rw [← final.store.constraint_root slot.cls]
  exact Constraint.hasOwnEvidence_of_has has

theorem not_sameAs_of_sameAs (sized : ∀ observation ∈ observations, ∀ base offset size,
    observation.use = .dereference base offset size → size ≠ 0) {cls next : ClassId}
    (link : (Typing.ofStore config final.store).typeOfClass? cls = some (.sameAs next)) :
    ∃ type, (Typing.ofStore config final.store).typeOfClass? next = some type ∧
      ∀ further, type ≠ .sameAs further := by
  have inside : final.store.RefersInside := analysis.finalInside.refers
  obtain ⟨known, slot, member, slotInside, rfl⟩ := Typing.exists_slot_of_sameAs inside link
  refine ⟨_, Typing.typeOfClass?_number inside slotInside, fun further same => ?_⟩
  have bare := Reading.hasOwnEvidence_of_sameAs same
  rw [analysis.hasOwnEvidence_of_slot sized member] at bare
  cases bare

end Analysis

namespace Typing

variable {typing : Typing}

def AliasOf (typing : Typing) (cls next : ClassId) : Prop :=
  typing.typeOfClass? cls = some (.sameAs next)

theorem size_pos_of_typeOfClass? {cls : ClassId} {type : CType}
    (found : typing.typeOfClass? cls = some type) : 0 < typing.size := by
  obtain ⟨typed, known, _⟩ := Option.map_eq_some_iff.1 found
  unfold class? at known
  split at known
  · cases known
  · have inside := (Array.getElem?_eq_some_iff.1 known).1
    exact Nat.lt_of_le_of_lt (Nat.zero_le _) inside

theorem follow_of_ne {type : CType} (last : ∀ next, type ≠ .sameAs next) (steps : Nat) :
    typing.follow steps type = some type := by
  unfold follow
  split
  · rename_i next
    exact absurd rfl (last next)
  · rfl

theorem expand?_of_ne {cls : ClassId} {type : CType} (found : typing.typeOfClass? cls = some type)
    (last : ∀ next, type ≠ .sameAs next) : typing.expand? cls = some type := by
  rw [expand?, found]
  exact follow_of_ne last _

theorem expand?_of_aliasOf {cls next : ClassId} {type : CType} (link : typing.AliasOf cls next)
    (found : typing.typeOfClass? next = some type) (last : ∀ further, type ≠ .sameAs further) :
    typing.expand? cls = some type := by
  obtain ⟨steps, size⟩ := Nat.exists_eq_succ_of_ne_zero
    (Nat.pos_iff_ne_zero.1 (size_pos_of_typeOfClass? link))
  rw [expand?, link, size]
  show (typing.typeOfClass? next).bind (typing.follow steps) = some type
  rw [found]
  exact follow_of_ne last _

end Typing

/-- Aliases never chain. Expanding a class follows one alias at most, and gives a type that is none
to every class that has a type. -/
theorem inferTypes_aliases {table : LocationTable} {events : List Event} {config : Config}
    {schedule : Schedule} {typing : Typing}
    (ok : inferTypes table events config schedule = .ok typing) :
    (∀ cls next, typing.AliasOf cls next → ∃ type, typing.typeOfClass? next = some type ∧
      typing.expand? cls = some type ∧ ∀ further, type ≠ .sameAs further) ∧
    (∀ cls type, typing.typeOfClass? cls = some type → (∀ next, type ≠ .sameAs next) →
      typing.expand? cls = some type) ∧
    (∀ cls next, typing.expand? cls ≠ some (.sameAs next)) ∧
    (∀ cls next further, typing.AliasOf cls next → ¬ typing.AliasOf next further) ∧
    ∀ cls, ¬ Relation.TransGen typing.AliasOf cls cls := by
  obtain ⟨observations, seeded, final, collected, analysis, rfl⟩ := inferTypes_ok ok
  have sized : ∀ observation ∈ observations, ∀ base offset size,
      observation.use = .dereference base offset size → size ≠ 0 := by
    intro observation seen base offset size use
    obtain ⟨_, _, transcribed⟩ := (collect_ok collected).2 observation seen
    exact Event.sized_of_transcribe transcribed use
  have ends {cls next : ClassId} (link : (Typing.ofStore config final.store).AliasOf cls next) :=
    analysis.not_sameAs_of_sameAs sized link
  have single {cls next further : ClassId}
      (link : (Typing.ofStore config final.store).AliasOf cls next) :
      ¬ (Typing.ofStore config final.store).AliasOf next further := by
    intro second
    obtain ⟨type, found, last⟩ := ends link
    rw [Typing.AliasOf, found, Option.some.injEq] at second
    exact last further second
  refine ⟨?_, fun cls type => Typing.expand?_of_ne, ?_, fun _ _ _ => single, ?_⟩
  · intro cls next link
    obtain ⟨type, found, last⟩ := ends link
    exact ⟨type, found, Typing.expand?_of_aliasOf link found last, last⟩
  · intro cls next expanded
    obtain ⟨type, found, _⟩ := Option.bind_eq_some_iff.1 expanded
    by_cases last : ∀ next, type ≠ .sameAs next
    · rw [Typing.expand?_of_ne found last, Option.some.injEq] at expanded
      exact last next expanded
    · obtain ⟨middle, same⟩ := not_forall.1 last
      rw [not_not.1 same] at found
      obtain ⟨type, found', last⟩ := ends found
      rw [Typing.expand?_of_aliasOf found found' last, Option.some.injEq] at expanded
      exact last next expanded
  · intro cls cycle
    obtain ⟨_, first, _⟩ := Relation.TransGen.head'_iff.1 cycle
    obtain ⟨_, _, last⟩ := Relation.TransGen.tail'_iff.1 cycle
    exact single last first

def cellTable : LocationTable := .ofList [.temporary 0]

def cellEvents : List Event :=
  [⟨⟨0⟩, ⟨0⟩, .read, [], none, some 8, none, none, some (.pointer (.int 4 none))⟩]

theorem inferTypes_aliases_cell : ∃ typing, inferTypes cellTable cellEvents {} = .ok typing ∧
    typing.AliasOf ⟨2⟩ ⟨3⟩ ∧ ∃ type, typing.typeOfClass? ⟨3⟩ = some type ∧
      typing.expand? ⟨2⟩ = some type ∧ ∀ further, type ≠ .sameAs further := by
  have ok : ∃ typing, inferTypes cellTable cellEvents {} = .ok typing ∧
      typing.AliasOf ⟨2⟩ ⟨3⟩ := ⟨_, rfl, rfl⟩
  obtain ⟨typing, ok, link⟩ := ok
  exact ⟨typing, ok, link, (inferTypes_aliases ok).1 _ _ link⟩

namespace Typing

open Relation

variable {typing : Typing} {cls next last : ClassId} {type : CType}

theorem typeOfClass?_eq_none_iff :
    typing.typeOfClass? cls = none ↔ cls.index = 0 ∨ typing.size < cls.index := by
  rw [typeOfClass?, Option.map_eq_none_iff, class?, size]
  split
  · rename_i zero
    simp [zero]
  · rename_i place found
    rw [Array.getElem?_eq_none_iff, found]
    omega

theorem aliasOf_inside (link : typing.AliasOf cls next) :
    1 ≤ cls.index ∧ cls.index ≤ typing.size := by
  have found : typing.typeOfClass? cls ≠ none := by
    rw [AliasOf] at link
    rw [link]
    exact Option.some_ne_none _
  rw [Ne, typeOfClass?_eq_none_iff] at found
  omega

theorem aliasOf_unique {other : ClassId} (link : typing.AliasOf cls next)
    (again : typing.AliasOf cls other) : next = other := by
  rw [AliasOf] at link again
  rw [link] at again
  cases again
  rfl

/-- What a class expands to when no more than so many aliases are followed. -/
def expandWithin (typing : Typing) (steps : Nat) (cls : ClassId) : Option CType :=
  (typing.typeOfClass? cls).bind (typing.follow steps)

theorem expandWithin_zero : typing.expandWithin 0 cls = typing.typeOfClass? cls := by
  unfold expandWithin
  cases typing.typeOfClass? cls <;> rfl

theorem expandWithin_succ (link : typing.AliasOf cls next) (steps : Nat) :
    typing.expandWithin (steps + 1) cls = typing.expandWithin steps next := by
  rw [AliasOf] at link
  rw [expandWithin, link]
  rfl

theorem expandWithin_of_last (stops : ∀ next, ¬ typing.AliasOf cls next) (steps : Nat) :
    typing.expandWithin steps cls = typing.typeOfClass? cls := by
  unfold expandWithin
  cases found : typing.typeOfClass? cls with
  | none => rfl
  | some type =>
    refine follow_of_ne (fun next same => stops next ?_) steps
    rw [AliasOf, found, same]

def nextAlias (typing : Typing) (cls : ClassId) : ClassId :=
  match typing.typeOfClass? cls with
  | some (.sameAs next) => next
  | _ => cls

theorem nextAlias_eq (link : typing.AliasOf cls next) : typing.nextAlias cls = next := by
  rw [AliasOf] at link
  rw [nextAlias, link]

theorem aliasOf_iterate {count place : Nat}
    (links : ∀ place < count, ∃ next, typing.AliasOf (typing.nextAlias^[place] cls) next)
    (inside : place < count) :
    typing.AliasOf (typing.nextAlias^[place] cls) (typing.nextAlias^[place + 1] cls) := by
  obtain ⟨next, link⟩ := links place inside
  rw [Function.iterate_succ_apply', nextAlias_eq link]
  exact link

theorem transGen_iterate {count first second : Nat}
    (links : ∀ place < count, ∃ next, typing.AliasOf (typing.nextAlias^[place] cls) next)
    (ahead : first < second) (inside : second ≤ count) :
    TransGen typing.AliasOf (typing.nextAlias^[first] cls) (typing.nextAlias^[second] cls) := by
  induction ahead with
  | refl => exact .single (aliasOf_iterate links inside)
  | step _ ih => exact .tail (ih (Nat.le_of_lt inside)) (aliasOf_iterate links inside)

theorem reflTransGen_iterate {count : Nat}
    (links : ∀ place < count, ∃ next, typing.AliasOf (typing.nextAlias^[place] cls) next) :
    ReflTransGen typing.AliasOf cls (typing.nextAlias^[count] cls) := by
  rcases Nat.eq_zero_or_pos count with rfl | some
  · exact .refl
  · exact (transGen_iterate links some (Nat.le_refl count)).to_reflTransGen

theorem expandWithin_iterate {count : Nat}
    (links : ∀ place < count, ∃ next, typing.AliasOf (typing.nextAlias^[place] cls) next)
    (more : Nat) :
    typing.expandWithin (count + more) cls =
      typing.expandWithin more (typing.nextAlias^[count] cls) := by
  induction count generalizing more with
  | zero => rw [Nat.zero_add, Function.iterate_zero_apply]
  | succ count ih =>
    have link := aliasOf_iterate links (Nat.lt_succ_self count)
    have earlier := ih (fun place before => links place (Nat.lt_succ_of_lt before)) (more + 1)
    rw [Nat.add_right_comm, Nat.add_assoc, earlier, expandWithin_succ link]

/-- A chain of more aliases than there are classes has passed one of them twice. -/
theorem exists_cycle {count : Nat}
    (links : ∀ place < count, ∃ next, typing.AliasOf (typing.nextAlias^[place] cls) next)
    (long : typing.size < count) :
    ∃ place < count, TransGen typing.AliasOf (typing.nextAlias^[place] cls)
      (typing.nextAlias^[place] cls) := by
  have inside (place : Fin count) := aliasOf_inside (aliasOf_iterate links place.isLt)
  let number (place : Fin count) : Fin typing.size :=
    ⟨(typing.nextAlias^[place] cls).index - 1, by have := inside place; omega⟩
  obtain ⟨first, second, apart, same⟩ :=
    Fintype.exists_ne_map_eq_of_card_lt number (by simpa using long)
  have equal : typing.nextAlias^[first] cls = typing.nextAlias^[second] cls := by
    have indices : (typing.nextAlias^[first] cls).index - 1 =
        (typing.nextAlias^[second] cls).index - 1 := congrArg Fin.val same
    have := inside first
    have := inside second
    exact ClassId.eq_of_index (by omega)
  rcases Nat.lt_or_gt_of_ne (Fin.val_ne_of_ne apart) with ahead | ahead
  · have cycle := transGen_iterate links ahead (Nat.le_of_lt second.isLt)
    exact ⟨first, first.isLt, by rwa [← equal] at cycle⟩
  · have cycle := transGen_iterate links ahead (Nat.le_of_lt first.isLt)
    exact ⟨second, second.isLt, by rwa [equal] at cycle⟩

/-- Expansion comes to the end of the chain, or the chain runs into a cycle. -/
theorem expand?_cases (typing : Typing) (cls : ClassId) :
    (∃ last, ReflTransGen typing.AliasOf cls last ∧ (∀ next, ¬ typing.AliasOf last next) ∧
      typing.expand? cls = typing.typeOfClass? last) ∨
    ∃ passed next, ReflTransGen typing.AliasOf cls passed ∧
      TransGen typing.AliasOf passed passed ∧ typing.expand? cls = some (.sameAs next) := by
  by_cases ends : ∃ count ≤ typing.size,
      ∀ next, ¬ typing.AliasOf (typing.nextAlias^[count] cls) next
  · -- The first class on the way that is no alias.
    classical
    obtain ⟨short, stops⟩ := Nat.find_spec ends
    have links (place : Nat) (before : place < Nat.find ends) :
        ∃ next, typing.AliasOf (typing.nextAlias^[place] cls) next := by
      by_contra none
      exact Nat.find_min ends before
        ⟨Nat.le_trans (Nat.le_of_lt before) short, not_exists.1 none⟩
    refine Or.inl ⟨_, reflTransGen_iterate links, stops, ?_⟩
    have rest := expandWithin_iterate links (typing.size - Nat.find ends)
    rw [Nat.add_sub_cancel' short, expandWithin_of_last stops] at rest
    exact rest
  · have links (place : Nat) (before : place < typing.size + 1) :
        ∃ next, typing.AliasOf (typing.nextAlias^[place] cls) next := by
      by_contra none
      exact ends ⟨place, Nat.le_of_lt_succ before, not_exists.1 none⟩
    obtain ⟨place, before, cycle⟩ := exists_cycle links (Nat.lt_succ_self typing.size)
    obtain ⟨next, link⟩ := links typing.size (Nat.lt_succ_self typing.size)
    refine Or.inr ⟨_, next, reflTransGen_iterate fun earlier ahead =>
      links earlier (Nat.lt_trans ahead before), cycle, ?_⟩
    have rest := expandWithin_iterate
      (fun earlier ahead => links earlier (Nat.lt_succ_of_lt ahead)) 0
    rw [Nat.add_zero, expandWithin_zero] at rest
    exact rest.trans link

theorem reflTransGen_last {passed : ClassId} (leads : ReflTransGen typing.AliasOf cls last)
    (stops : ∀ next, ¬ typing.AliasOf last next)
    (passes : ReflTransGen typing.AliasOf cls passed) :
    ReflTransGen typing.AliasOf passed last := by
  have unique : Relator.RightUnique typing.AliasOf := fun _ _ _ link again =>
    aliasOf_unique link again
  rcases ReflTransGen.total_of_right_unique unique leads passes with onward | onward
  · rcases ReflTransGen.cases_head onward with rfl | ⟨next, link, _⟩
    · exact .refl
    · exact absurd link (stops next)
  · exact onward

theorem last_unique {other : ClassId} (leads : ReflTransGen typing.AliasOf cls last)
    (stops : ∀ next, ¬ typing.AliasOf last next) (again : ReflTransGen typing.AliasOf cls other)
    (ends : ∀ next, ¬ typing.AliasOf other next) : last = other := by
  rcases ReflTransGen.cases_head (reflTransGen_last leads stops again) with same | ⟨next, link, _⟩
  · exact same.symm
  · exact absurd link (ends next)

theorem not_cycle {passed : ClassId} (leads : ReflTransGen typing.AliasOf cls last)
    (stops : ∀ next, ¬ typing.AliasOf last next)
    (passes : ReflTransGen typing.AliasOf cls passed) :
    ¬ TransGen typing.AliasOf passed passed := by
  have onward := reflTransGen_last leads stops passes
  -- From the end backwards: a class whose next one is on no cycle is on none itself.
  induction onward using ReflTransGen.head_induction_on with
  | refl =>
    intro cycle
    obtain ⟨next, link, _⟩ := TransGen.head'_iff.1 cycle
    exact stops next link
  | head link _ ih =>
    intro cycle
    obtain ⟨next, first, back⟩ := TransGen.head'_iff.1 cycle
    cases aliasOf_unique link first
    exact ih (passes.tail link) (TransGen.tail' back link)

theorem not_aliasOf_of_ne (found : typing.typeOfClass? cls = some type)
    (plain : ∀ next, type ≠ .sameAs next) (next : ClassId) : ¬ typing.AliasOf cls next := by
  rw [AliasOf, found, Option.some.injEq]
  exact plain next

theorem not_aliasOf_of_none (absent : typing.typeOfClass? cls = none) (next : ClassId) :
    ¬ typing.AliasOf cls next := by
  rw [AliasOf, absent]
  exact (Option.some_ne_none _).symm

theorem expand?_of_last (leads : ReflTransGen typing.AliasOf cls last)
    (stops : ∀ next, ¬ typing.AliasOf last next) :
    typing.expand? cls = typing.typeOfClass? last := by
  rcases expand?_cases typing cls with ⟨other, again, ends, expanded⟩ |
    ⟨passed, _, passes, cycle, _⟩
  · rw [expanded, last_unique again ends leads stops]
  · exact absurd cycle (not_cycle leads stops passes)

/-- A class expands to the first type on its chain that is no alias, however long the chain is. It
expands to nothing just when the chain leaves the classes of the typing, and to an alias just when
the chain runs into a cycle. -/
theorem expand?_exact (typing : Typing) (cls : ClassId) :
    (∀ type, (∀ next, type ≠ .sameAs next) → (typing.expand? cls = some type ↔
      ∃ last, ReflTransGen typing.AliasOf cls last ∧ typing.typeOfClass? last = some type)) ∧
    (typing.expand? cls = none ↔ ∃ last, ReflTransGen typing.AliasOf cls last ∧
      (last.index = 0 ∨ typing.size < last.index)) ∧
    ((∃ next, typing.expand? cls = some (.sameAs next)) ↔
      ∃ passed, ReflTransGen typing.AliasOf cls passed ∧
        TransGen typing.AliasOf passed passed) := by
  refine ⟨fun type plain => ⟨fun expanded => ?_, ?_⟩, ⟨fun expanded => ?_, ?_⟩,
    ⟨fun ⟨next, expanded⟩ => ?_, ?_⟩⟩
  · rcases expand?_cases typing cls with ⟨last, leads, _, same⟩ | ⟨_, next, _, _, same⟩
    · exact ⟨last, leads, same.symm.trans expanded⟩
    · rw [same, Option.some.injEq] at expanded
      exact absurd expanded.symm (plain next)
  · rintro ⟨last, leads, found⟩
    rw [expand?_of_last leads (not_aliasOf_of_ne found plain), found]
  · rcases expand?_cases typing cls with ⟨last, leads, _, same⟩ | ⟨_, next, _, _, same⟩
    · exact ⟨last, leads, typeOfClass?_eq_none_iff.1 (same.symm.trans expanded)⟩
    · rw [same] at expanded
      cases expanded
  · rintro ⟨last, leads, outside⟩
    have absent := typeOfClass?_eq_none_iff.2 outside
    rw [expand?_of_last leads (not_aliasOf_of_none absent), absent]
  · rcases expand?_cases typing cls with ⟨last, _, stops, same⟩ | ⟨passed, _, passes, cycle, _⟩
    · exact absurd (same.symm.trans expanded) (stops next)
    · exact ⟨passed, passes, cycle⟩
  · rintro ⟨passed, passes, cycle⟩
    rcases expand?_cases typing cls with ⟨last, leads, stops, _⟩ | ⟨_, next, _, _, same⟩
    · exact absurd cycle (not_cycle leads stops passes)
    · exact ⟨next, same⟩

def ofTypes (types : List CType) : Typing where
  classes := (types.mapIdx fun place type => ⟨⟨place + 1⟩, [], type, none, none⟩).toArray
  locationClasses := #[]
  diagnostics := []
  pointerSize := 8

def chained : Typing :=
  ofTypes [.sameAs ⟨2⟩, .sameAs ⟨3⟩, .sameAs ⟨4⟩, .primitive ⟨4, none⟩, .sameAs ⟨5⟩]

theorem expand?_exact_chained : (∀ next, CType.primitive ⟨4, none⟩ ≠ .sameAs next) ∧
    chained.expand? ⟨1⟩ = some (.primitive ⟨4, none⟩) := by
  have plain : ∀ next, CType.primitive ⟨4, none⟩ ≠ .sameAs next := nofun
  have first : chained.AliasOf ⟨1⟩ ⟨2⟩ := rfl
  have second : chained.AliasOf ⟨2⟩ ⟨3⟩ := rfl
  have third : chained.AliasOf ⟨3⟩ ⟨4⟩ := rfl
  have leads : ReflTransGen chained.AliasOf ⟨1⟩ ⟨4⟩ :=
    ((ReflTransGen.single first).tail second).tail third
  exact ⟨plain, ((expand?_exact chained ⟨1⟩).1 _ plain).2 ⟨⟨4⟩, leads, rfl⟩⟩

end Typing

end TypeRecovery
