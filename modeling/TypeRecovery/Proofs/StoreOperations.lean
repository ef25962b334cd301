import TypeRecovery.Forest
import TypeRecovery.Store
/-!
What each operation of the store does to the root and to the constraint of every class. Making,
changing and refining a class change no root; a change shows in the classes of one root. A merge
gives the classes of one root the other root, whichever way ranks decide and however far paths are
shortened on the way, and it shows in the classes of the root that stays.
-/
namespace TypeRecovery

namespace Forest

theorem root_inside {forest : Forest} {cls : ClassId} (inside : cls.index < forest.size) :
    (forest.root cls).index < forest.size := by
  have climbed : ∀ steps cls, cls.index < forest.size →
      (Node.climb forest.nodes steps cls).index < forest.size := by
    intro steps
    induction steps with
    | zero => exact fun _ inside => inside
    | succ steps ih =>
      intro cls inside
      by_cases isRoot : forest.parent cls = cls
      · rw [climb_of_root isRoot]
        exact inside
      · rw [climb_succ isRoot]
        exact ih _ (forest.parent_inside cls inside)
  exact climbed forest.height cls inside

theorem root_of_outside {forest : Forest} {cls : ClassId} (outside : forest.size ≤ cls.index) :
    forest.root cls = cls := by
  apply root_of_root
  simp [parent, Node.parentIn, Array.getElem?_eq_none outside]

theorem root_singletons (count : Nat) (cls : ClassId) : (singletons count).root cls = cls := by
  apply root_of_root
  by_cases inside : cls.index < count <;> simp [parent, singletons, Node.parentIn, inside]

theorem root_add (forest : Forest) (cls : ClassId) : forest.add.2.root cls = forest.root cls := by
  symm
  apply label_eq_root
  · intro cls
    rw [show forest.add.2.parent cls = forest.parent cls from Node.parentIn_push_root ..]
    exact forest.root_parent cls
  · intro cls isRoot
    exact root_of_root ((Node.parentIn_push_root ..).symm.trans isRoot)

theorem parent_attach_of_fits {forest : Forest} {child target : ClassId}
    (childInside : child.index < forest.size) (targetInside : target.index < forest.size)
    (lower : forest.rank child < forest.rank target) (cls : ClassId) :
    (forest.attach child target).parent cls =
      if cls = child then target else forest.parent cls := by
  have fits : (child.index < forest.nodes.size ∧ target.index < forest.nodes.size) ∧
      Node.rankIn forest.nodes child < Node.rankIn forest.nodes target :=
    ⟨⟨childInside, targetInside⟩, lower⟩
  simp only [attach, fits, and_self, dite_true, parent]
  rw [Node.parentIn_set _ _ _ _ childInside]

theorem root_attach {forest : Forest} {child target : ClassId}
    (childInside : child.index < forest.size) (targetInside : target.index < forest.size)
    (lower : forest.rank child < forest.rank target) (childRoot : forest.parent child = child)
    (targetRoot : forest.parent target = target) (cls : ClassId) :
    (forest.attach child target).root cls =
      if forest.root cls = child then target else forest.root cls := by
  have apart : target ≠ child := by
    rintro rfl
    exact Nat.lt_irrefl _ lower
  symm
  apply @label_eq_root _ fun cls => if forest.root cls = child then target else forest.root cls
  · intro cls
    rw [parent_attach_of_fits childInside targetInside lower]
    by_cases moved : cls = child
    · simp [moved, root_of_root childRoot, root_of_root targetRoot]
    · simp [moved, root_parent]
  · intro cls isRoot
    rw [parent_attach_of_fits childInside targetInside lower] at isRoot
    by_cases moved : cls = child
    · simp only [moved, if_true] at isRoot
      exact absurd isRoot apart
    · simp only [moved, if_false] at isRoot
      simp [root_of_root isRoot, moved]

theorem parent_raise (forest : Forest) (top cls : ClassId) :
    (forest.raise top).parent cls = forest.parent cls := by
  unfold raise
  split
  · rename_i isRoot
    simp only [parent]
    rw [Node.parentIn_set _ _ _ _ isRoot.1]
    split
    · rename_i same
      rw [same]
      exact isRoot.2.symm
    · rfl
  · rfl

theorem rank_raise {forest : Forest} {top : ClassId} (inside : top.index < forest.size)
    (isRoot : forest.parent top = top) (cls : ClassId) :
    (forest.raise top).rank cls = if cls = top then forest.rank top + 1 else forest.rank cls := by
  have fits : top.index < forest.nodes.size ∧ Node.parentIn forest.nodes top = top :=
    ⟨inside, isRoot⟩
  simp only [raise, fits, and_self, dite_true, rank]
  rw [Node.rankIn_set _ _ _ _ inside]

theorem root_raise (forest : Forest) (top cls : ClassId) :
    (forest.raise top).root cls = forest.root cls := by
  symm
  apply label_eq_root
  · intro cls
    rw [parent_raise]
    exact forest.root_parent cls
  · intro cls isRoot
    exact root_of_root ((parent_raise ..).symm.trans isRoot)

theorem root_attach_raise {forest : Forest} {child target : ClassId}
    (childInside : child.index < forest.size) (targetInside : target.index < forest.size)
    (level : forest.rank child ≤ forest.rank target) (childRoot : forest.parent child = child)
    (targetRoot : forest.parent target = target) (apart : child ≠ target) (cls : ClassId) :
    ((forest.raise target).attach child target).root cls =
      if forest.root cls = child then target else forest.root cls := by
  rw [root_attach, root_raise]
  · rwa [size_raise]
  · rwa [size_raise]
  · rw [rank_raise targetInside targetRoot, rank_raise targetInside targetRoot]
    simp only [apart, if_false, if_true]
    omega
  · rwa [parent_raise]
  · rwa [parent_raise]

/-- What merging the sets of two classes does to the roots. -/
structure Merges (forest : Forest) (a b : ClassId) (merged : Merged) : Prop where
  apart : merged.root ≠ merged.absorbed
  roots : merged.root = forest.root a ∧ merged.absorbed = forest.root b ∨
    merged.root = forest.root b ∧ merged.absorbed = forest.root a
  root : ∀ cls, merged.forest.root cls =
    if forest.root cls = merged.absorbed then merged.root else forest.root cls

theorem Merges.isRoot {forest : Forest} {a b : ClassId} {merged : Merged}
    (merges : Merges forest a b merged) : forest.root merged.root = merged.root := by
  rcases merges.roots with ⟨same, _⟩ | ⟨same, _⟩
  · rw [same, root_root]
  · rw [same, root_root]

theorem Merges.inside {forest : Forest} {a b : ClassId} {merged : Merged}
    (merges : Merges forest a b merged) (aInside : a.index < forest.size)
    (bInside : b.index < forest.size) : merged.root.index < forest.size := by
  rcases merges.roots with ⟨same, _⟩ | ⟨same, _⟩
  · rw [same]
    exact root_inside aInside
  · rw [same]
    exact root_inside bInside

theorem merge_none {forest : Forest} {a b : ClassId} :
    forest.merge a b = none ↔ forest.root a = forest.root b := by
  have tops : (forest.find a).1 = forest.root a ∧
      ((forest.find a).2.find b).1 = forest.root b := ⟨rfl, root_find ..⟩
  simp only [merge, tops]
  constructor
  · intro none
    by_cases same : forest.root a = forest.root b
    · exact same
    · simp only [same, if_false] at none
      repeat' split at none
      all_goals cases none
  · intro same
    simp [same]

theorem merge_some {forest : Forest} {a b : ClassId} {merged : Merged}
    (aInside : a.index < forest.size) (bInside : b.index < forest.size)
    (found : forest.merge a b = some merged) : Merges forest a b merged := by
  generalize shortened : ((forest.find a).2.find b).2 = short at *
  have tops : (forest.find a).1 = forest.root a ∧
      ((forest.find a).2.find b).1 = forest.root b := ⟨rfl, root_find ..⟩
  have roots (cls : ClassId) : short.root cls = forest.root cls := by
    rw [← shortened, root_find, root_find]
  have inside {cls : ClassId} (inside : cls.index < forest.size) :
      (forest.root cls).index < short.size := by
    rw [← shortened, size_find, size_find]
    exact root_inside inside
  have isRoot (cls : ClassId) : short.parent (forest.root cls) = forest.root cls := by
    rw [← roots]
    exact short.parent_root cls
  simp only [merge, tops, shortened] at found
  -- Finding the tops has shortened paths, but both are still roots, and every class has its own.
  split at found
  · cases found
  rename_i apart
  split at found
  · rename_i lower
    cases found
    refine ⟨apart, Or.inl ⟨rfl, rfl⟩, fun cls => ?_⟩
    rw [← roots cls]
    exact root_attach (inside bInside) (inside aInside) lower (isRoot b) (isRoot a) cls
  split at found
  · rename_i lower
    cases found
    refine ⟨Ne.symm apart, Or.inr ⟨rfl, rfl⟩, fun cls => ?_⟩
    rw [← roots cls]
    exact root_attach (inside aInside) (inside bInside) lower (isRoot a) (isRoot b) cls
  rename_i notHigher notLower
  split at found
  · cases found
    refine ⟨apart, Or.inl ⟨rfl, rfl⟩, fun cls => ?_⟩
    rw [← roots cls]
    exact root_attach_raise (inside bInside) (inside aInside) (Nat.le_of_not_lt notLower)
      (isRoot b) (isRoot a) (Ne.symm apart) cls
  · cases found
    refine ⟨Ne.symm apart, Or.inr ⟨rfl, rfl⟩, fun cls => ?_⟩
    rw [← roots cls]
    exact root_attach_raise (inside aInside) (inside bInside) (Nat.le_of_not_lt notHigher)
      (isRoot a) (isRoot b) apart cls

end Forest

namespace Store

theorem size_fresh (store : Store) (constraint : Constraint) :
    (store.fresh constraint).2.size = store.size + 1 := Forest.size_add ..

theorem root_fresh (store : Store) (constraint : Constraint) (cls : ClassId) :
    (store.fresh constraint).2.root cls = store.root cls := Forest.root_add ..

theorem root_of_outside {store : Store} {cls : ClassId} (outside : store.size ≤ cls.index) :
    store.root cls = cls := Forest.root_of_outside outside

theorem root_inside {store : Store} {cls : ClassId} (inside : cls.index < store.size) :
    (store.root cls).index < store.size := Forest.root_inside inside

theorem root_root (store : Store) (cls : ClassId) : store.root (store.root cls) = store.root cls :=
  Forest.root_root ..

theorem constraint_root (store : Store) (cls : ClassId) :
    store.constraint (store.root cls) = store.constraint cls := by
  simp only [constraint, root_root]

theorem constraint_of_outside {store : Store} {cls : ClassId} (outside : store.size ≤ cls.index) :
    store.constraint cls = {} := by
  have empty : store.constraints.size ≤ cls.index := by rw [store.constraints_size]; exact outside
  simp [constraint, root_of_outside outside, Array.getElem?_eq_none empty]

theorem constraint_fresh (store : Store) (constraint : Constraint) (cls : ClassId) :
    (store.fresh constraint).2.constraint cls =
      if cls = ⟨store.size⟩ then constraint else store.constraint cls := by
  have sizes : store.constraints.size = store.size := store.constraints_size
  show (store.constraints.push constraint)[((store.fresh constraint).2.root cls).index]?.getD {} = _
  rw [root_fresh, Array.getElem?_push, sizes]
  by_cases new : cls = ⟨store.size⟩
  · have fixed : store.root cls = cls := root_of_outside (by simp [new])
    rw [fixed]
    simp [new]
  · have apart : (store.root cls).index ≠ store.size := by
      intro last
      apply new
      have outside : store.size ≤ cls.index := by
        apply Nat.le_of_not_lt
        intro inside
        have := root_inside inside
        omega
      rw [root_of_outside outside] at last
      rw [← last]
    simp only [new, apart, if_false]
    rfl

theorem constraint_fresh_empty (store : Store) (cls : ClassId) :
    (store.fresh {}).2.constraint cls = store.constraint cls := by
  rw [constraint_fresh]
  split
  · rename_i new
    exact (constraint_of_outside (Nat.le_of_eq (congrArg ClassId.index new).symm)).symm
  · rfl

theorem constraint_withLocations (count : Nat) (cls : ClassId) :
    (withLocations count).constraint cls = {} := by
  by_cases inside : cls.index < count
  · have fixed : (withLocations count).root cls = cls := Forest.root_singletons count cls
    unfold constraint
    rw [fixed]
    simp [withLocations, inside]
  · exact constraint_of_outside (Nat.le_of_not_lt (by simpa [withLocations, size, Forest.size,
      Forest.singletons] using inside))

theorem constraint_update {store : Store} {cls : ClassId} (inside : cls.index < store.size)
    (change : Constraint → Constraint) (other : ClassId) :
    (store.update cls change).constraint other =
      if store.root other = store.root cls then change (store.constraint cls)
      else store.constraint other := by
  have held : (store.root cls).index < store.constraints.size := by
    rw [store.constraints_size]
    exact root_inside inside
  show (store.constraints.modify (store.root cls).index
    change)[(store.root other).index]?.getD {} = _
  rw [Array.getElem?_modify]
  by_cases same : store.root other = store.root cls
  · simp [same, constraint, held]
  · have apart : (store.root cls).index ≠ (store.root other).index :=
      fun equal => same (ClassId.eq_of_index equal.symm)
    simp [same, apart, constraint]

theorem constraint_update_of_outside {store : Store} {cls : ClassId}
    (outside : store.size ≤ cls.index) (change : Constraint → Constraint) (other : ClassId) :
    (store.update cls change).constraint other = store.constraint other := by
  have none : store.constraints[cls.index]? = none :=
    Array.getElem?_eq_none (by rw [store.constraints_size]; exact outside)
  show (store.constraints.modify (store.root cls).index
    change)[(store.root other).index]?.getD {} = _
  rw [Array.getElem?_modify, root_of_outside outside]
  split
  · rename_i same
    rw [constraint, ← same, none]
    rfl
  · rfl

/-- Recorded conflicts are told apart from everything else in a store. -/
structure SameClasses (store after : Store) : Prop where
  forest : after.forest = store.forest
  constraints : after.constraints = store.constraints
  locationCount : after.locationCount = store.locationCount
  typedefs : after.typedefs = store.typedefs

theorem recordConflicts_same (store : Store) (cls : ClassId) (conflicts : List Conflict) :
    SameClasses store (conflicts.foldl (fun store => store.recordConflict cls) store) := by
  induction conflicts generalizing store with
  | nil => exact ⟨rfl, rfl, rfl, rfl⟩
  | cons conflict rest ih =>
    have later := ih (store.recordConflict cls conflict)
    exact ⟨later.forest, later.constraints, later.locationCount, later.typedefs⟩

namespace SameClasses

variable {store after : Store} (same : SameClasses store after)
include same

theorem size : after.size = store.size := by
  unfold Store.size
  rw [same.forest]

theorem root (cls : ClassId) : after.root cls = store.root cls := by
  unfold Store.root
  rw [same.forest]

theorem constraint (cls : ClassId) : after.constraint cls = store.constraint cls := by
  unfold Store.constraint
  rw [same.root, same.constraints]

end SameClasses

theorem refine_same (store : Store) (cls : ClassId) (constraint : Constraint) :
    SameClasses (store.update (store.root cls) fun _ => (store.constraint cls).join constraint)
      (store.refine cls constraint).2 := by
  rw [← constraint_root]
  exact recordConflicts_same ..

theorem size_refine (store : Store) (cls : ClassId) (constraint : Constraint) :
    (store.refine cls constraint).2.size = store.size := (refine_same ..).size

theorem root_refine (store : Store) (cls : ClassId) (constraint : Constraint) (other : ClassId) :
    (store.refine cls constraint).2.root other = store.root other := (refine_same ..).root other

theorem implied_refine (store : Store) (cls : ClassId) (constraint : Constraint) :
    (store.refine cls constraint).1 = (store.constraint cls).implied constraint := by
  rw [← constraint_root]
  rfl

theorem constraint_refine {store : Store} {cls : ClassId} (inside : cls.index < store.size)
    (constraint : Constraint) (other : ClassId) :
    (store.refine cls constraint).2.constraint other =
      if store.root other = store.root cls then (store.constraint cls).join constraint
      else store.constraint other := by
  rw [(refine_same store cls constraint).constraint, constraint_update (root_inside inside),
    root_root]

theorem conflicts_recordConflicts (store : Store) (cls : ClassId) (conflicts : List Conflict) :
    (conflicts.foldl (fun store => store.recordConflict cls) store).conflicts.toList =
      store.conflicts.toList ++ conflicts.map (ClassConflict.mk cls) := by
  induction conflicts generalizing store with
  | nil => simp
  | cons conflict rest ih =>
    rw [List.foldl_cons, ih]
    simp [recordConflict]

theorem conflicts_refine (store : Store) (cls : ClassId) (constraint : Constraint) :
    (store.refine cls constraint).2.conflicts.toList = store.conflicts.toList ++
      ((store.constraint cls).conflicts constraint).map (ClassConflict.mk (store.root cls)) := by
  rw [← constraint_root]
  exact conflicts_recordConflicts ..

/-- What merging the classes of `a` and `b` does to a store. -/
structure Unites (store : Store) (a b : ClassId) (merge : Merge) (after : Store) : Prop where
  apart : merge.root ≠ merge.absorbed
  roots : merge.root = store.root a ∧ merge.absorbed = store.root b ∨
    merge.root = store.root b ∧ merge.absorbed = store.root a
  root : ∀ cls, after.root cls =
    if store.root cls = merge.absorbed then merge.root else store.root cls
  constraint : ∀ cls, after.constraint cls =
    if after.root cls = merge.root then
      (store.constraint merge.root).join (store.constraint merge.absorbed)
    else store.constraint cls
  implied : merge.implied =
    (store.constraint merge.root).implied (store.constraint merge.absorbed)
  size : after.size = store.size
  locationCount : after.locationCount = store.locationCount
  typedefs : after.typedefs = store.typedefs

namespace Unites

variable {store after : Store} {a b cls : ClassId} {merge : Merge}
  (unites : Unites store a b merge after)
include unites

theorem isRoot :
    store.root merge.root = merge.root ∧ store.root merge.absorbed = merge.absorbed := by
  rcases unites.roots with ⟨first, second⟩ | ⟨first, second⟩
  · rw [first, second, root_root, root_root]
    exact ⟨rfl, rfl⟩
  · rw [first, second, root_root, root_root]
    exact ⟨rfl, rfl⟩

theorem inside (aInside : a.index < store.size) (bInside : b.index < store.size) :
    merge.root.index < store.size ∧ merge.absorbed.index < store.size := by
  rcases unites.roots with ⟨first, second⟩ | ⟨first, second⟩
  · rw [first, second]
    exact ⟨root_inside aInside, root_inside bInside⟩
  · rw [first, second]
    exact ⟨root_inside bInside, root_inside aInside⟩

theorem root_eq_iff : after.root cls = merge.root ↔
    store.root cls = merge.root ∨ store.root cls = merge.absorbed := by
  rw [unites.root]
  constructor
  · intro same
    split at same
    · exact Or.inr ‹_›
    · exact Or.inl same
  · rintro (same | same)
    · rw [same, if_neg unites.apart]
    · rw [if_pos same]

theorem label_eq_iff {Label : Type} {label : ClassId → Label}
    (rootLabel : ∀ cls, label (store.root cls) = label cls) :
    label merge.root = label merge.absorbed ↔ label a = label b := by
  -- The two roots are those of the ends, in one order or the other.
  rcases unites.roots with ⟨first, second⟩ | ⟨first, second⟩
  · rw [first, second, rootLabel, rootLabel]
  · rw [first, second, rootLabel, rootLabel]
    exact eq_comm

end Unites

theorem union_none {store : Store} {a b : ClassId} :
    store.union a b = none ↔ store.root a = store.root b := by
  rw [← show _ ↔ store.root a = store.root b from Forest.merge_none]
  unfold union
  split <;> simp [*]

section linked

-- The absorbed class is linked first, with an empty constraint, and its own is conjoined after.
variable {store linked : Store} {a b : ClassId} {merged : Forest.Merged}

theorem root_linked (merges : Forest.Merges store.forest a b merged)
    (forest : linked.forest = merged.forest) (cls : ClassId) : linked.root cls =
    if store.root cls = merged.absorbed then merged.root else store.root cls := by
  unfold Store.root
  rw [forest]
  exact merges.root cls

theorem constraint_linked (merges : Forest.Merges store.forest a b merged)
    (forest : linked.forest = merged.forest)
    (constraints : linked.constraints = store.constraints.setIfInBounds merged.absorbed.index {})
    (cls : ClassId) : linked.constraint cls =
      if linked.root cls = merged.root then store.constraint merged.root
      else store.constraint cls := by
  have root := root_linked merges forest cls
  have isRoot : store.root merged.root = merged.root := merges.isRoot
  -- No class has the absorbed one for a root any more, so the constraint that was cleared is not
  -- read.
  have untouched : merged.absorbed.index ≠ (linked.root cls).index := by
    intro same
    have absorbed := ClassId.eq_of_index same
    rw [root] at absorbed
    split at absorbed
    · exact merges.apart absorbed.symm
    · rename_i other
      exact other absorbed.symm
  unfold Store.constraint
  rw [constraints, Array.getElem?_setIfInBounds_ne untouched]
  by_cases kept : linked.root cls = merged.root
  · simp [kept, isRoot]
  · simp only [kept, if_false]
    rw [root] at kept ⊢
    split at kept
    · exact absurd rfl kept
    · rename_i other
      simp [other]

theorem unites_of_linked (merges : Forest.Merges store.forest a b merged)
    (forest : linked.forest = merged.forest) (aInside : a.index < store.size)
    (bInside : b.index < store.size) (size : linked.size = store.size)
    (constraints : linked.constraints = store.constraints.setIfInBounds merged.absorbed.index {})
    (locationCount : linked.locationCount = store.locationCount)
    (typedefs : linked.typedefs = store.typedefs) :
    Unites store a b
      ⟨merged.root, merged.absorbed,
        (linked.refine merged.root (store.constraint merged.absorbed)).1⟩
      (linked.refine merged.root (store.constraint merged.absorbed)).2 := by
  have root := root_linked merges forest
  have constraint := constraint_linked merges forest constraints
  have isRoot : store.root merged.root = merged.root := merges.isRoot
  have linkedRoot : linked.root merged.root = merged.root := by
    rw [root, isRoot, if_neg merges.apart]
  have inside : merged.root.index < linked.size := by
    rw [size]
    exact merges.inside aInside bInside
  refine ⟨merges.apart, merges.roots, fun cls => ?_, fun cls => ?_, ?_, ?_, ?_, ?_⟩
  · rw [root_refine, root]
  · rw [root_refine, constraint_refine inside, linkedRoot, constraint merged.root, linkedRoot]
    by_cases kept : linked.root cls = merged.root
    · simp [kept]
    · simp [kept, constraint]
  · rw [implied_refine, constraint, linkedRoot]
    simp
  · rw [size_refine, size]
  · exact (refine_same ..).locationCount.trans locationCount
  · exact (refine_same ..).typedefs.trans typedefs

theorem conflicts_linked (merges : Forest.Merges store.forest a b merged)
    (forest : linked.forest = merged.forest)
    (constraints : linked.constraints = store.constraints.setIfInBounds merged.absorbed.index {})
    (conflicts : linked.conflicts = store.conflicts) (constraint : Constraint) :
    (linked.refine merged.root constraint).2.conflicts.toList = store.conflicts.toList ++
      ((store.constraint merged.root).conflicts constraint).map (ClassConflict.mk merged.root) := by
  have linkedRoot : linked.root merged.root = merged.root := by
    rw [root_linked merges forest, show store.root merged.root = merged.root from merges.isRoot,
      if_neg merges.apart]
  rw [conflicts_refine, constraint_linked merges forest constraints, linkedRoot, if_pos rfl,
    conflicts]

end linked

theorem union_some {store after : Store} {a b : ClassId} {merge : Merge}
    (aInside : a.index < store.size) (bInside : b.index < store.size)
    (found : store.union a b = some (merge, after)) : Unites store a b merge after := by
  unfold union at found
  split at found
  · cases found
  · rename_i merged merging
    cases found
    have merges := Forest.merge_some aInside bInside merging
    exact unites_of_linked merges rfl aInside bInside (Forest.size_merge merging) rfl rfl rfl

theorem conflicts_union {store after : Store} {a b : ClassId} {merge : Merge}
    (aInside : a.index < store.size) (bInside : b.index < store.size)
    (found : store.union a b = some (merge, after)) :
    after.conflicts.toList = store.conflicts.toList ++
      ((store.constraint merge.root).conflicts (store.constraint merge.absorbed)).map
        (ClassConflict.mk merge.root) := by
  unfold union at found
  split at found
  · cases found
  · rename_i merged merging
    cases found
    have merges := Forest.merge_some aInside bInside merging
    apply conflicts_linked merges
    all_goals rfl

end Store

end TypeRecovery
