import TypeRecovery.Proofs.LeastCongruence
import TypeRecovery.Proofs.Scene
import TypeRecovery.Seeding
/-!
The moves that seeding is made of. A class is made with a first constraint, a class is refined by
another constraint, classes are equated, and a typedef name is bound. A labelling holds after a move
exactly when it held before and the move was right about the labels, except that what follows from
refining a class twice needs a model in which one label plays a role for another.
-/
namespace TypeRecovery

variable {Label : Type} {label : ClassId → Label}

namespace Constraint

structure Formed (size : Nat) (constraint : Constraint) : Prop where
  refers : ∀ {role target}, constraint.Refers role target → target.index < size
  ordered : Slot.Ordered constraint.slots

/-- A constraint as seeding refines classes by it. Only propagation finds extents. -/
structure Fits (size : Nat) (constraint : Constraint) : Prop extends Formed size constraint where
  extent : constraint.extent = 0

theorem Formed.grow {size more : Nat} {constraint : Constraint} (formed : constraint.Formed size)
    (grown : size ≤ more) : constraint.Formed more :=
  ⟨fun refers => Nat.lt_of_lt_of_le (formed.refers refers) grown, formed.ordered⟩

theorem Formed.join {size : Nat} {a b : Constraint} (left : a.Formed size) (right : b.Formed size) :
    (a.join b).Formed size where
  refers refers := (refers_of_join refers).elim left.refers right.refers
  ordered := Slot.addAll_ordered b.slots left.ordered

theorem max_zero_extent (extent : UInt64) : max extent 0 = extent := by
  show (if extent ≤ 0 then 0 else extent) = extent
  split
  · rename_i least
    exact (UInt64.le_antisymm least (UInt64.zero_le)).symm
  · rfl

theorem extent_join {size : Nat} {a b : Constraint} (fits : b.Fits size) :
    (a.join b).extent = a.extent := by
  show max a.extent b.extent = a.extent
  rw [fits.extent, max_zero_extent]

end Constraint

namespace Store

variable {model : Model Label} {store : Store} {cls : ClassId} {constraint : Constraint}

theorem holds_of_refine (inside : cls.index < store.size)
    (holds : (store.refine cls constraint).2.Holds label model) : store.Holds label model := by
  refine ⟨fun other => ?_, fun other => ?_⟩
  · rw [← root_refine store cls constraint other, holds.root]
  · have held := holds.constraint other
    rw [constraint_refine inside] at held
    split at held
    · rename_i same
      rw [← store.constraint_root other, same, store.constraint_root cls]
      exact Constraint.holds_left_of_join held
    · exact held

theorem constraint_holds_of_refine (inside : cls.index < store.size)
    (holds : (store.refine cls constraint).2.Holds label model)
    (agree : Agree label (store.refine cls constraint).1) :
    constraint.Holds label model (label cls) := by
  have joined := holds.constraint cls
  rw [constraint_refine inside, if_pos rfl] at joined
  rw [implied_refine] at agree
  exact Constraint.holds_right_of_join joined agree

theorem holds_refine (unique : model.Unique) (inside : cls.index < store.size)
    (holds : store.Holds label model) (given : constraint.Holds label model (label cls)) :
    (store.refine cls constraint).2.Holds label model ∧
      Agree label (store.refine cls constraint).1 := by
  refine ⟨⟨fun other => ?_, fun other => ?_⟩, ?_⟩
  · rw [root_refine, holds.root]
  · rw [constraint_refine inside]
    split
    · rename_i same
      rw [← holds.root other, same, holds.root]
      exact Constraint.holds_join (holds.constraint cls) given
    · exact holds.constraint other
  · rw [implied_refine]
    exact Constraint.agree_implied unique (holds.constraint cls) given

theorem holds_fresh : (store.fresh constraint).2.Holds label model ↔
    store.Holds label model ∧ constraint.Holds label model (label ⟨store.size⟩) := by
  have outside : store.constraint ⟨store.size⟩ = {} := constraint_of_outside (Nat.le_refl _)
  constructor
  · rintro ⟨root, constraints⟩
    have new := constraints ⟨store.size⟩
    rw [constraint_fresh, if_pos rfl] at new
    refine ⟨⟨fun cls => root_fresh store constraint cls ▸ root cls, fun cls => ?_⟩, new⟩
    by_cases last : cls = ⟨store.size⟩
    · subst last
      rw [outside]
      exact Constraint.holds_empty
    · have held := constraints cls
      rwa [constraint_fresh, if_neg last] at held
  · rintro ⟨holds, new⟩
    refine ⟨fun cls => by rw [root_fresh, holds.root], fun cls => ?_⟩
    rw [constraint_fresh]
    split
    · rename_i last
      exact last ▸ new
    · exact holds.constraint cls

theorem update_eq (store : Store) (cls : ClassId) (change : Constraint → Constraint) :
    store.update cls change =
      store.update (store.root cls) fun _ => change (store.constraint cls) := by
  have constraints : store.constraints.modify (store.root cls).index change =
      store.constraints.modify (store.root cls).index fun _ => change (store.constraint cls) := by
    apply Array.ext
    · simp
    · intro place inside _
      rw [Array.getElem_modify, Array.getElem_modify]
      split
      · rename_i here
        subst here
        have held : (store.root cls).index < store.constraints.size := by simpa using inside
        simp [constraint, held]
      · rfl
  unfold update
  simp only [root_root, constraints]

theorem SameClasses.typedef? {after : Store} (same : SameClasses store after) (name : String) :
    after.typedef? name = store.typedef? name := by
  unfold Store.typedef?
  simp only [same.typedefs, same.root]

theorem SameClasses.holds {after : Store} (same : SameClasses store after) :
    after.Holds label model ↔ store.Holds label model := by
  constructor
  · rintro ⟨root, constraint⟩
    exact ⟨fun cls => same.root cls ▸ root cls, fun cls => same.constraint cls ▸ constraint cls⟩
  · rintro ⟨root, constraint⟩
    exact ⟨fun cls => by rw [same.root, root],
      fun cls => by rw [same.constraint]; exact constraint cls⟩

theorem typedef?_fresh (store : Store) (constraint : Constraint) (name : String) :
    (store.fresh constraint).2.typedef? name = store.typedef? name := by
  unfold typedef?
  simp only [root_fresh]
  rfl

theorem typedef?_bindTypedef {store : Store} {name : String} (cls : ClassId) (definition : Hint)
    (free : store.typedef? name = none) (other : String) :
    (store.bindTypedef name cls definition).typedef? other =
      if name = other then some (store.root cls, definition) else store.typedef? other := by
  simp only [bindTypedef, free]
  unfold typedef?
  rw [List.find?_cons]
  split <;> simp_all <;> rfl

end Store

namespace Seeding

variable {scene : Scene Label} {seeding after : Seeding}

structure Holds (label : ClassId → Label) (scene : Scene Label) (seeding : Seeding) : Prop where
  store : seeding.store.Holds label scene.toModel
  merges : Agree label seeding.merges
  place : ∀ loc : LocId, loc.index < seeding.store.locationCount →
    label loc.initialClass = scene.place loc
  named : ∀ {name entry}, seeding.store.typedef? name = some entry →
    label entry.1 = scene.named name

structure WellFormed (seeding : Seeding) : Prop where
  formed : seeding.store.Each (Constraint.Formed seeding.store.size)
  merges : ∀ pair ∈ seeding.merges,
    pair.1.index < seeding.store.size ∧ pair.2.index < seeding.store.size
  typedefs : ∀ {name entry}, seeding.store.typedef? name = some entry →
    entry.1.index < seeding.store.size

/-- Seeding went on from one state to another. Even where the equalities that it found are left out
of account, what holds of the store after it held of the store before. -/
structure Extends (seeding after : Seeding) : Prop where
  size : seeding.store.size ≤ after.store.size
  root : ∀ cls, after.store.root cls = seeding.store.root cls
  extent : ∀ cls, (after.store.constraint cls).extent = (seeding.store.constraint cls).extent
  locationCount : after.store.locationCount = seeding.store.locationCount
  typedef : ∀ {name entry}, seeding.store.typedef? name = some entry →
    after.store.typedef? name = some entry
  wellFormed : after.WellFormed
  holds_of : ∀ {Label : Type} {label : ClassId → Label} {scene : Scene Label},
    after.Holds label scene → seeding.Holds label scene
  store_of : ∀ {Label : Type} {label : ClassId → Label} {model : Model Label},
    after.store.Holds label model → seeding.store.Holds label model

theorem Extends.refl (wellFormed : seeding.WellFormed) : Extends seeding seeding :=
  ⟨Nat.le_refl _, fun _ => rfl, fun _ => rfl, rfl, id, wellFormed, id, id⟩

theorem Extends.trans {middle : Seeding} (first : Extends seeding middle)
    (second : Extends middle after) : Extends seeding after where
  size := Nat.le_trans first.size second.size
  root cls := (second.root cls).trans (first.root cls)
  extent cls := (second.extent cls).trans (first.extent cls)
  locationCount := second.locationCount.trans first.locationCount
  typedef found := second.typedef (first.typedef found)
  wellFormed := second.wellFormed
  holds_of holds := first.holds_of (second.holds_of holds)
  store_of holds := first.store_of (second.store_of holds)

structure Same (seeding after : Seeding) : Prop where
  store : Store.SameClasses seeding.store after.store
  merges : after.merges = seeding.merges

theorem Same.holds (same : Same seeding after) :
    after.Holds label scene ↔ seeding.Holds label scene := by
  constructor
  · rintro ⟨store, merges, place, named⟩
    refine ⟨same.store.holds.1 store, same.merges ▸ merges, ?_, fun found => named ?_⟩
    · rw [← same.store.locationCount]
      exact place
    · rw [same.store.typedef?]
      exact found
  · rintro ⟨store, merges, place, named⟩
    refine ⟨same.store.holds.2 store, same.merges ▸ merges, ?_, fun found => named ?_⟩
    · rw [same.store.locationCount]
      exact place
    · rw [← same.store.typedef?]
      exact found

theorem Same.extends (same : Same seeding after) (wellFormed : seeding.WellFormed) :
    Extends seeding after where
  size := Nat.le_of_eq same.store.size.symm
  root := same.store.root
  extent cls := by rw [same.store.constraint]
  locationCount := same.store.locationCount
  typedef found := by rw [same.store.typedef?, found]
  wellFormed := by
    refine ⟨fun cls => ?_, ?_, fun found => ?_⟩
    · rw [same.store.constraint, same.store.size]
      exact wellFormed.formed cls
    · rw [same.merges, same.store.size]
      exact wellFormed.merges
    · rw [same.store.typedef?] at found
      rw [same.store.size]
      exact wellFormed.typedefs found
  holds_of := same.holds.1
  store_of := same.store.holds.1

def refineWith (seeding : Seeding) (cls : ClassId) (constraint : Constraint) : Seeding :=
  seeding.declareRealized cls (.constraint constraint)

variable {cls : ClassId} {constraint : Constraint}

theorem holds_of_refineWith (inside : cls.index < seeding.store.size)
    (holds : (seeding.refineWith cls constraint).Holds label scene) :
    seeding.Holds label scene ∧ constraint.Holds label scene.toModel (label cls) := by
  rcases holds with ⟨store, merges, place, named⟩
  have agree := agree_append.1 merges
  have given := Store.constraint_holds_of_refine inside store agree.2
  have same := Store.refine_same seeding.store cls constraint
  refine ⟨⟨Store.holds_of_refine inside store, agree.1, fun loc declared => place loc ?_,
    fun found => named ?_⟩, given⟩
  · exact (same.locationCount ▸ declared :)
  · exact (same.typedef? _).trans found

theorem holds_refineWith (unique : scene.Unique) (inside : cls.index < seeding.store.size)
    (holds : seeding.Holds label scene) (given : constraint.Holds label scene.toModel (label cls)) :
    (seeding.refineWith cls constraint).Holds label scene := by
  rcases holds with ⟨store, merges, place, named⟩
  rcases Store.holds_refine unique inside store given with ⟨after, implied⟩
  have same := Store.refine_same seeding.store cls constraint
  refine ⟨after, agree_append.2 ⟨merges, implied⟩, fun loc declared => place loc ?_,
    fun found => named ?_⟩
  · exact same.locationCount ▸ declared
  · exact (same.typedef? _).symm.trans found

theorem refineWith_extends (wellFormed : seeding.WellFormed)
    (inside : cls.index < seeding.store.size)
    (fits : constraint.Fits seeding.store.size) :
    Extends seeding (seeding.refineWith cls constraint) := by
  have same := Store.refine_same seeding.store cls constraint
  have size : (seeding.refineWith cls constraint).store.size = seeding.store.size := same.size
  refine ⟨Nat.le_of_eq size.symm, same.root, fun other => ?_, same.locationCount, fun found => ?_,
    ⟨?_, ?_, ?_⟩, fun holds => (holds_of_refineWith inside holds).1, Store.holds_of_refine inside⟩
  · show ((seeding.store.refine cls constraint).2.constraint other).extent = _
    rw [Store.constraint_refine inside]
    split
    · rename_i given
      rw [Constraint.extent_join fits, ← seeding.store.constraint_root other, given,
        seeding.store.constraint_root]
    · rfl
  · exact (same.typedef? _).trans found
  · intro other
    rw [size]
    show ((seeding.store.refine cls constraint).2.constraint other).Formed _
    rw [Store.constraint_refine inside]
    split
    · exact (wellFormed.formed cls).join fits.toFormed
    · exact wellFormed.formed other
  · rw [size]
    intro pair member
    rcases List.mem_append.1 member with waiting | implied
    · exact wellFormed.merges pair waiting
    · have found : pair ∈ (seeding.store.refine cls constraint).1 := implied
      rw [Store.implied_refine] at found
      rcases Constraint.refers_of_implied found with ⟨role, first, second⟩
      exact ⟨first.elim (wellFormed.formed cls).refers fits.refers, fits.refers second⟩
  · intro name entry found
    rw [size]
    exact wellFormed.typedefs ((same.typedef? name).symm.trans found)

theorem equate_nil (seeding : Seeding) : seeding.equate [] = seeding := by
  simp [equate]

theorem update_same {change : Constraint → Constraint} {pairs : List ClassPair}
    (joins : change (seeding.store.constraint cls) = (seeding.store.constraint cls).join constraint)
    (implied : (seeding.store.constraint cls).implied constraint = pairs) :
    Same (seeding.refineWith cls constraint) ((seeding.update cls change).equate pairs) := by
  have same := Store.refine_same seeding.store cls constraint
  rw [← joins, ← Store.update_eq] at same
  refine ⟨⟨same.forest.symm, same.constraints.symm, same.locationCount.symm,
    same.typedefs.symm⟩, ?_⟩
  show seeding.merges ++ pairs = seeding.merges ++ (seeding.store.refine cls constraint).1
  rw [Store.implied_refine, implied]

theorem holds_equate {pairs : List ClassPair} :
    (seeding.equate pairs).Holds label scene ↔ seeding.Holds label scene ∧ Agree label pairs := by
  constructor
  · rintro ⟨store, merges, place, named⟩
    have agree := agree_append.1 merges
    exact ⟨⟨store, agree.1, place, named⟩, agree.2⟩
  · rintro ⟨⟨store, merges, place, named⟩, agree⟩
    exact ⟨store, agree_append.2 ⟨merges, agree⟩, place, named⟩

theorem equate_extends {pairs : List ClassPair} (wellFormed : seeding.WellFormed)
    (inside : ∀ pair ∈ pairs,
      pair.1.index < seeding.store.size ∧ pair.2.index < seeding.store.size) :
    Extends seeding (seeding.equate pairs) where
  size := Nat.le_refl _
  root _ := rfl
  extent _ := rfl
  locationCount := rfl
  typedef := id
  wellFormed := ⟨wellFormed.formed, List.forall_mem_append.2 ⟨wellFormed.merges, inside⟩,
    wellFormed.typedefs⟩
  holds_of holds := (holds_equate.1 holds).1
  store_of := id

theorem holds_fresh : (seeding.fresh constraint).2.Holds label scene ↔
    seeding.Holds label scene ∧
      constraint.Holds label scene.toModel (label ⟨seeding.store.size⟩) := by
  have typedefs := Store.typedef?_fresh seeding.store constraint
  constructor
  · rintro ⟨store, merges, place, named⟩
    rcases Store.holds_fresh.1 store with ⟨before, new⟩
    exact ⟨⟨before, merges, place, fun found => named ((typedefs _).trans found)⟩, new⟩
  · rintro ⟨⟨store, merges, place, named⟩, new⟩
    exact ⟨Store.holds_fresh.2 ⟨store, new⟩, merges, place,
      fun found => named ((typedefs _).symm.trans found)⟩

theorem size_fresh (seeding : Seeding) (constraint : Constraint) :
    (seeding.fresh constraint).2.store.size = seeding.store.size + 1 := Store.size_fresh ..

theorem fresh_extends (wellFormed : seeding.WellFormed)
    (fits : constraint.Fits seeding.store.size) :
    Extends seeding (seeding.fresh constraint).2 := by
  have grown : seeding.store.size ≤ (seeding.fresh constraint).2.store.size := by
    rw [size_fresh]
    exact Nat.le_succ _
  have typedefs := Store.typedef?_fresh seeding.store constraint
  refine ⟨grown, Store.root_fresh _ _, fun cls => ?_, rfl, fun found => (typedefs _).trans found,
    ⟨?_, ?_, ?_⟩, fun holds => (holds_fresh.1 holds).1, fun holds => (Store.holds_fresh.1 holds).1⟩
  · show ((seeding.store.fresh constraint).2.constraint cls).extent = _
    rw [Store.constraint_fresh]
    split
    · rename_i new
      rw [fits.extent, Store.constraint_of_outside (Nat.le_of_eq (congrArg ClassId.index new.symm))]
    · rfl
  · exact Store.each_fresh (fun cls => (wellFormed.formed cls).grow grown)
      (fits.toFormed.grow grown)
  · intro pair member
    exact (wellFormed.merges pair member).imp (Nat.lt_of_lt_of_le · grown)
      (Nat.lt_of_lt_of_le · grown)
  · intro name entry found
    exact Nat.lt_of_lt_of_le (wellFormed.typedefs ((typedefs name).symm.trans found)) grown

def bind (seeding : Seeding) (name : String) (cls : ClassId) (definition : Hint) : Seeding :=
  { seeding with store := seeding.store.bindTypedef name cls definition }

variable {name : String} {definition : Hint}

theorem bind_store (free : seeding.store.typedef? name = none) :
    (seeding.bind name cls definition).store =
      { seeding.store with typedefs := ⟨name, cls, definition⟩ :: seeding.store.typedefs } := by
  simp [bind, Store.bindTypedef, free]

theorem size_bind (free : seeding.store.typedef? name = none) :
    (seeding.bind name cls definition).store.size = seeding.store.size := by
  rw [bind_store free]
  rfl

theorem typedef?_bind (free : seeding.store.typedef? name = none) (other : String) :
    (seeding.bind name cls definition).store.typedef? other =
      if name = other then some (seeding.store.root cls, definition)
      else seeding.store.typedef? other := Store.typedef?_bindTypedef cls definition free other

theorem typedef?_keeps_bind (free : seeding.store.typedef? name = none) {other : String}
    {entry : ClassId × Hint} (found : seeding.store.typedef? other = some entry) :
    (seeding.bind name cls definition).store.typedef? other = some entry := by
  rw [typedef?_bind free, if_neg, found]
  rintro rfl
  rw [free] at found
  cases found

theorem holds_bind (free : seeding.store.typedef? name = none) :
    (seeding.bind name cls definition).Holds label scene ↔
      seeding.Holds label scene ∧ label cls = scene.named name := by
  have store := @bind_store seeding cls name definition free
  constructor
  · rintro ⟨holds, merges, place, named⟩
    rw [store] at holds place
    have root : label (seeding.store.root cls) = label cls := holds.root cls
    refine ⟨⟨⟨holds.root, holds.constraint⟩, merges, place, fun found => ?_⟩, ?_⟩
    · exact named (typedef?_keeps_bind free found)
    · rw [← root]
      exact named (by rw [typedef?_bind free, if_pos rfl])
  · rintro ⟨⟨holds, merges, place, named⟩, new⟩
    refine ⟨?_, merges, ?_, fun {other entry} found => ?_⟩
    · rw [store]
      exact ⟨holds.root, holds.constraint⟩
    · rw [store]
      exact place
    · rw [typedef?_bind free] at found
      split at found
      · rename_i same
        cases found
        rw [holds.root, new, same]
      · exact named found

theorem bind_extends (wellFormed : seeding.WellFormed) (inside : cls.index < seeding.store.size)
    (free : seeding.store.typedef? name = none) :
    Extends seeding (seeding.bind name cls definition) := by
  have store := @bind_store seeding cls name definition free
  have size := @size_bind seeding cls name definition free
  refine ⟨Nat.le_of_eq size.symm, fun other => ?_, fun other => ?_, ?_, typedef?_keeps_bind free,
    ⟨?_, ?_, ?_⟩, fun holds => ((holds_bind free).1 holds).1, fun holds => ?_⟩
  · rw [store]
    rfl
  · rw [store]
    rfl
  · rw [store]
  · rw [size, store]
    exact wellFormed.formed
  · rw [size]
    exact wellFormed.merges
  · intro other entry found
    rw [size]
    rw [typedef?_bind free] at found
    split at found
    · cases found
      exact Store.root_inside inside
    · exact wellFormed.typedefs found
  · rw [store] at holds
    exact ⟨holds.root, holds.constraint⟩

/-- The other labelling gives the first so many classes the labels that they have. -/
def Continues (size : Nat) (label other : ClassId → Label) : Prop :=
  ∀ cls : ClassId, cls.index < size → other cls = label cls

theorem Continues.refl (size : Nat) (label : ClassId → Label) : Continues size label label :=
  fun _ _ => rfl

theorem Continues.trans {size more : Nat} {other last : ClassId → Label}
    (first : Continues size label other) (second : Continues more other last)
    (grown : size ≤ more) : Continues size label last :=
  fun cls inside => (second cls (Nat.lt_of_lt_of_le inside grown)).trans (first cls inside)

theorem Holds.continues {other : ClassId → Label} (wellFormed : seeding.WellFormed)
    (same : Continues seeding.store.size label other) (holds : seeding.Holds label scene) :
    seeding.Holds other scene := by
  rcases holds with ⟨⟨root, constraint⟩, merges, place, named⟩
  refine ⟨⟨fun cls => ?_, fun cls => ?_⟩, fun pair member => ?_, fun loc declared => ?_,
    fun found => ?_⟩
  · by_cases inside : cls.index < seeding.store.size
    · rw [same _ (Store.root_inside inside), same cls inside, root]
    · rw [Store.root_of_outside (Nat.le_of_not_lt inside)]
  · by_cases inside : cls.index < seeding.store.size
    · rw [same cls inside]
      exact (constraint cls).congr fun role target refers =>
        same target ((wellFormed.formed cls).refers refers)
    · rw [Store.constraint_of_outside (Nat.le_of_not_lt inside)]
      exact Constraint.holds_empty
  · rcases wellFormed.merges pair member with ⟨first, second⟩
    rw [same _ first, same _ second, merges pair member]
  · rw [same _ (Nat.lt_of_lt_of_le declared seeding.store.locations_inside), place loc declared]
  · rw [same _ (wellFormed.typedefs found), named found]

/-- A new class can have any label at which its constraint holds. -/
theorem exists_fresh (wellFormed : seeding.WellFormed) (fits : constraint.Fits seeding.store.size)
    (holds : seeding.Holds label scene) {here : Label}
    (given : constraint.Holds label scene.toModel here) :
    ∃ other, Continues seeding.store.size label other ∧ other ⟨seeding.store.size⟩ = here ∧
      (seeding.fresh constraint).2.Holds other scene := by
  let other : ClassId → Label := fun cls => if cls = ⟨seeding.store.size⟩ then here else label cls
  have same : Continues seeding.store.size label other := by
    intro cls inside
    apply if_neg
    rintro rfl
    exact Nat.lt_irrefl _ inside
  have new : other ⟨seeding.store.size⟩ = here := if_pos rfl
  refine ⟨other, same, new, holds_fresh.2 ⟨holds.continues wellFormed same, ?_⟩⟩
  rw [new]
  exact given.congr fun role target refers => same target (fits.refers refers)

end Seeding
end TypeRecovery
