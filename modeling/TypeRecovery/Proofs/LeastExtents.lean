import TypeRecovery.Proofs.Extents
import TypeRecovery.Proofs.FixedPoint
import TypeRecovery.Proofs.StepBudget
/-!
Extents as a least solution. What a run makes of the extents of a store solves a system of
inequalities over the classes that are left: an extent is at least as great as those of all the
classes that became one, and no slot goes beyond it. No solution is less, whichever extents the
store began with. All runs merge the same pairs before they refine anything, so they solve the same
system, and the order in which classes are sent back makes no difference to what they find.
-/
namespace TypeRecovery

namespace Store

/-- Extents of the classes that are left. None is less than those of the classes that became one,
and no slot goes beyond the extent of its class. -/
structure Solves (before after : Store) (extent : ClassId → UInt64) : Prop where
  start : ∀ cls, before.extent cls ≤ extent (after.root cls)
  reach : ∀ root ∈ after.roots, ∀ slot ∈ (after.constraint root).slots,
    slotReach after.width extent root slot ≤ extent root

theorem extent_root (store : Store) (cls : ClassId) :
    store.extent (store.root cls) = store.extent cls := by
  unfold extent
  rw [store.constraint_root]

theorem slots_shape {store : Store} {cls : ClassId} (linked : store.Linked cls) :
    (store.shape cls).slots = (store.constraint cls).slots := by
  unfold shape
  rw [Constraint.relink_of_fixed linked]

theorem solves_iff {before after : Store} (linked : ∀ cls, after.Linked (after.root cls))
    {extent : ClassId → UInt64} : before.Solves after extent ↔
      before.Bounded after.root extent ∧ after.Closed extent := by
  -- A root that refers to roots lists the slots of its shape, and closedness is about the latter.
  have slots {root : ClassId} (isRoot : after.root root = root) :
      (after.shape root).slots = (after.constraint root).slots :=
    slots_shape (isRoot ▸ linked root)
  constructor
  · rintro ⟨start, reach⟩
    refine ⟨start, fun owner isRoot slot member => ?_⟩
    by_cases inside : owner.index < after.size
    · rw [slots isRoot] at member
      exact reach owner (mem_roots.2 ⟨inside, isRoot⟩) slot member
    · rw [slots_of_outside (Nat.le_of_not_lt inside)] at member
      cases member
  · rintro ⟨start, closed⟩
    refine ⟨start, fun root listed slot member => ?_⟩
    have isRoot := (mem_roots.1 listed).2
    exact closed root isRoot slot (slots isRoot ▸ member)

end Store

namespace Propagation

variable {schedule again : Schedule} {state after final other : Propagation}

theorem extent_le_leads (leads : Step.Leads schedule state after) (inside : state.Inside)
    (cls : ClassId) : state.store.extent cls ≤ after.store.extent cls := by
  cases leads with
  | same a b pending same store =>
    rw [store]
    exact UInt64.le_refl _
  | united a b more merge pending found =>
    have unites := inside.unites pending found
    unfold Store.extent
    rw [unites.constraint]
    split
    · rename_i root
      have joined := (le_max_extent (state.store.extent merge.root)
        (state.store.extent merge.absorbed) _).1 (UInt64.le_refl _)
      show state.store.extent cls ≤ max (state.store.extent merge.root)
        (state.store.extent merge.absorbed)
      rw [← Store.extent_root]
      rcases unites.root_eq_iff.1 root with same | same
      · rw [same]
        exact joined.1
      · rw [same]
        exact joined.2
    · exact UInt64.le_refl _
  | refined refined more pending worklist rest store =>
    rw [store, Store.extent_refresh (inside.first worklist)]
    split
    · rename_i same
      rw [← Store.extent_root, same, Store.extent_root]
      exact (Store.refreshed_extent_le.1 (UInt64.le_refl _)).1
    · exact UInt64.le_refl _

theorem Steps.extent_le {count : Nat} (steps : Steps schedule count state final)
    (inside : state.Inside) (cls : ClassId) :
    state.store.extent cls ≤ final.store.extent cls := by
  induction steps with
  | none => exact UInt64.le_refl _
  | next found _ ih =>
    have leads := @leads schedule _ _ _ found
    exact UInt64.le_trans (extent_le_leads leads inside cls) (ih (inside_leads leads inside))

/-- A run keeps within extents that are closed at its end. -/
theorem Steps.bounded_of_closed {count : Nat} {extent : ClassId → UInt64}
    (steps : Steps schedule count state final) (inside : state.Inside)
    (rest : final.pending = []) (closed : final.store.Closed extent)
    (bounded : state.store.Bounded final.store.root extent) :
    final.store.Bounded final.store.root extent := by
  have holds : final.Holds final.store.root final.store.model := by
    refine ⟨final.store.holds_model, ?_⟩
    rw [rest]
    exact List.forall_mem_nil _
  induction steps with
  | none => exact bounded
  | next found later ih =>
    have leads := @leads schedule _ _ _ found
    have insideNext := inside_leads leads inside
    refine ih insideNext rest closed ?_ holds
    apply bounded_leads_of leads inside (later.holds_of insideNext holds) bounded
    intro cls clsInside merged refined
    -- All pairs are merged by now, so the classes and their slots are those of the end.
    have refreshes : Store.Refreshes _ cls _ := ⟨clsInside, refined⟩
    have alike := refreshes.alike.trans (later.alike insideNext merged)
    rw [funext alike.root] at bounded ⊢
    rw [refined]
    exact within_refresh clsInside (alike.closed.1 closed) bounded

end Propagation

namespace Store

theorem Alike.solves {before store after : Store} (alike : Alike store after)
    (linked : ∀ cls, store.Linked (store.root cls))
    (linkedAfter : ∀ cls, after.Linked (after.root cls))
    {extent : ClassId → UInt64} (solves : before.Solves after extent) :
    before.Solves store extent := by
  obtain ⟨start, closed⟩ := (solves_iff linkedAfter).1 solves
  rw [funext alike.root] at start
  exact (solves_iff linked).2 ⟨start, alike.closed.1 closed⟩

theorem steps_of_propagate {schedule : Schedule} {cap : Nat} {pairs : List ClassPair}
    {store after : Store} {work : Work}
    (ran : store.propagate schedule cap pairs = (after, .ok work)) :
    ∃ count final, Propagation.Steps schedule count (.start store pairs) final ∧
      final.next? = none ∧ after = final.store := by
  obtain ⟨count, _, final, steps, done, last, _⟩ := Propagation.run_ok (congrArg Prod.snd ran)
  exact ⟨count, final, steps, done, (congrArg Prod.fst ran).symm.trans last⟩

section run

variable {schedule again : Schedule} {store after other : Store} {pairs : List ClassPair}
  {cap otherCap : Nat} {work otherWork : Work}

theorem linked_propagate (refersInside : store.RefersInside)
    (pairsInside : ∀ pair ∈ pairs, store.contains pair.1 ∧ store.contains pair.2)
    (ran : store.propagate schedule cap pairs = (after, .ok work)) (cls : ClassId) :
    after.Linked (after.root cls) := by
  have inside := Propagation.inside_of_contains refersInside pairsInside
  obtain ⟨_, final, steps, done, rfl⟩ := steps_of_propagate ran
  exact Propagation.linked_of_done (steps.links inside (Propagation.tracksExtents_start store pairs)
    (Propagation.links_start store pairs)) done cls

theorem solves_propagate (refersInside : store.RefersInside)
    (pairsInside : ∀ pair ∈ pairs, store.contains pair.1 ∧ store.contains pair.2)
    (ran : store.propagate schedule cap pairs = (after, .ok work)) :
    store.Solves after after.extent := by
  apply (solves_iff (linked_propagate refersInside pairsInside ran)).2
  have inside := Propagation.inside_of_contains refersInside pairsInside
  obtain ⟨_, final, steps, done, rfl⟩ := steps_of_propagate ran
  refine ⟨fun cls => ?_, Propagation.closed_of_done
    (steps.tracksExtents inside (Propagation.tracksExtents_start store pairs)) done⟩
  rw [extent_root]
  exact steps.extent_le inside cls

theorem extent_le_of_solves (refersInside : store.RefersInside)
    (pairsInside : ∀ pair ∈ pairs, store.contains pair.1 ∧ store.contains pair.2)
    (ran : store.propagate schedule cap pairs = (after, .ok work)) {extent : ClassId → UInt64}
    (solves : store.Solves after extent) (cls : ClassId) :
    after.extent cls ≤ extent (after.root cls) := by
  obtain ⟨start, closed⟩ := (solves_iff (linked_propagate refersInside pairsInside ran)).1 solves
  have inside := Propagation.inside_of_contains refersInside pairsInside
  obtain ⟨_, final, steps, done, rfl⟩ := steps_of_propagate ran
  exact steps.bounded_of_closed inside (Propagation.done_iff.1 done).1 closed start cls

theorem alike_propagate (refersInside : store.RefersInside)
    (pairsInside : ∀ pair ∈ pairs, store.contains pair.1 ∧ store.contains pair.2)
    (ran : store.propagate schedule cap pairs = (after, .ok work))
    (ranAgain : store.propagate again otherCap pairs = (other, .ok otherWork)) :
    Alike after other := by
  have inside := Propagation.inside_of_contains refersInside pairsInside
  obtain ⟨_, final, steps, done, rfl⟩ := steps_of_propagate ran
  obtain ⟨_, final', steps', done', rfl⟩ := steps_of_propagate ranAgain
  exact steps.alike_of_same steps' inside inside rfl rfl (Propagation.done_iff.1 done).1
    (Propagation.done_iff.1 done').1

theorem extent_le_propagate (refersInside : store.RefersInside)
    (pairsInside : ∀ pair ∈ pairs, store.contains pair.1 ∧ store.contains pair.2)
    (ran : store.propagate schedule cap pairs = (after, .ok work))
    (ranAgain : store.propagate again otherCap pairs = (other, .ok otherWork)) (cls : ClassId) :
    after.extent cls ≤ other.extent cls := by
  have alike := alike_propagate refersInside pairsInside ran ranAgain
  have solves := alike.solves (linked_propagate refersInside pairsInside ran)
    (linked_propagate refersInside pairsInside ranAgain)
    (solves_propagate refersInside pairsInside ranAgain)
  have least := extent_le_of_solves refersInside pairsInside ran solves cls
  rwa [← alike.root, extent_root] at least

end run

/-- The extents that propagation finds are the least that solve the system of the classes that are
left. They do not depend on the order in which referrers are sent back. -/
theorem propagate_least_extents {schedule : Schedule} {cap : Nat} {store after : Store}
    {pairs : List ClassPair} {work : Work} (refersInside : store.RefersInside)
    (pairsInside : ∀ pair ∈ pairs, store.contains pair.1 ∧ store.contains pair.2)
    (ran : store.propagate schedule cap pairs = (after, .ok work)) :
    store.Solves after after.extent ∧
    (∀ extent, store.Solves after extent → ∀ root ∈ after.roots, after.extent root ≤ extent root) ∧
    ∀ again otherCap other otherWork,
      store.propagate again otherCap pairs = (other, .ok otherWork) →
        ∀ cls, other.root cls = after.root cls ∧ other.extent cls = after.extent cls := by
  refine ⟨solves_propagate refersInside pairsInside ran, ?_, ?_⟩
  · intro extent solves root listed
    have least := extent_le_of_solves refersInside pairsInside ran solves root
    rwa [(mem_roots.1 listed).2] at least
  · intro again otherCap other otherWork ranAgain cls
    refine ⟨(alike_propagate refersInside pairsInside ran ranAgain).root cls, ?_⟩
    exact UInt64.le_antisymm (extent_le_propagate refersInside pairsInside ranAgain ran cls)
      (extent_le_propagate refersInside pairsInside ran ranAgain cls)

def outgrown : Store :=
  (((withLocations 2).update ⟨0⟩ fun _ => { extent := 12 }).update ⟨1⟩ fun _ =>
    { extent := 4 }).fresh { slots := [⟨8, 1, ⟨1⟩⟩] } |>.2

/-- Where the first two become one, the third goes as far as the greater of their extents. -/
theorem propagate_least_extents_outgrown : outgrown.RefersInside ∧
    ∃ after work, outgrown.propagate .listed 1000 [(⟨0⟩, ⟨1⟩)] = (after, .ok work) ∧
      after.extent ⟨2⟩ = 20 ∧ ∀ extent, outgrown.Solves after extent →
        ∀ root ∈ after.roots, after.extent root ≤ extent root := by
  have refersInside : outgrown.RefersInside := by
    apply refersInside_fresh
    · intro cls role target refers
      rw [constraint_update (by decide), constraint_update (by decide),
        constraint_withLocations] at refers
      split at refers
      · cases role <;> simp [Constraint.Refers] at refers
      · split at refers <;> cases role <;> simp [Constraint.Refers] at refers
    · intro role target refers
      cases role <;> simp [Constraint.Refers] at refers
      obtain ⟨_, _, rfl⟩ := refers
      decide
  have ran : outgrown.propagate .listed 1000 [(⟨0⟩, ⟨1⟩)] =
      ((outgrown.propagate .listed 1000 [(⟨0⟩, ⟨1⟩)]).1, .ok ⟨1, 1, 4⟩) := rfl
  exact ⟨refersInside, _, _, ran, rfl,
    (propagate_least_extents refersInside (by decide) ran).2.1⟩

end Store
end TypeRecovery
