import Mathlib.Algebra.Group.Action.Defs
import Mathlib.Algebra.Order.BigOperators.Group.List
import Mathlib.Algebra.Order.Ring.Nat
import Mathlib.Tactic.Ring
import TypeRecovery.Proofs.StepBounds
/-!
Propagation comes to an end on every store, whether or not fields contain each other in a circle.
Merging ends because pairs are made of references. After that a class is refined and no other is
sent back, or its extent grew. Extents have 64 bits, so what is left for them to grow is finite, and
each growth sends no more classes back than there are. So a run fails only because its cap is less
than the steps that there are.
-/
namespace TypeRecovery

namespace Store

/-- How far the extents of the roots can grow, all together. -/
def headroom (store : Store) : Nat :=
  (store.roots.map fun root => UInt64.size - 1 - (store.extent root).toNat).sum

theorem headroom_le (store : Store) : store.headroom ≤ store.size * (UInt64.size - 1) := by
  have each : ∀ room ∈ store.roots.map fun root => UInt64.size - 1 - (store.extent root).toNat,
      room ≤ UInt64.size - 1 := by
    intro room member
    obtain ⟨root, _, rfl⟩ := List.mem_map.1 member
    exact Nat.sub_le ..
  have bounded := List.sum_le_card_nsmul _ _ each
  rw [List.length_map, smul_eq_mul] at bounded
  refine Nat.le_trans bounded (Nat.mul_le_mul_right _ ?_)
  exact length_le_size store.nodup_roots fun root member => (mem_roots.1 member).1

theorem lt_refreshed_of_not_spans {store : Store} {cls : ClassId}
    (short : ¬ store.Spans (store.root cls)) :
    store.extent (store.root cls) < (store.refreshed (store.root cls)).extent := by
  apply UInt64.not_le.1
  intro reach
  apply short
  intro slot member
  have bounded := (refreshed_extent_le.1 reach).2 slot
  rw [shape_root] at member
  exact bounded member

namespace Refreshes

variable {store after : Store} {cls : ClassId} (refreshes : store.Refreshes cls after)
include refreshes

theorem roots : after.roots = store.roots := by
  rw [refreshes.same]
  rfl

theorem headroom_of_spans (spans : store.Spans (store.root cls)) :
    after.headroom = store.headroom := by
  unfold headroom
  rw [refreshes.roots, funext (refreshes.extent_of_spans spans)]

theorem headroom_lt (short : ¬ store.Spans (store.root cls)) : after.headroom < store.headroom := by
  have grown := lt_refreshed_of_not_spans short
  unfold headroom
  rw [refreshes.roots]
  apply List.sum_lt_sum
  · intro root member
    rw [refreshes.extent root, (mem_roots.1 member).2]
    split
    · rename_i same
      rw [same]
      exact Nat.sub_le_sub_left (Nat.le_of_lt (UInt64.lt_iff_toNat_lt.1 grown)) _
    · exact Nat.le_refl _
  · refine ⟨store.root cls, root_mem_roots refreshes.inside, ?_⟩
    rw [refreshes.extent, if_pos (store.root_root cls)]
    have below := (store.refreshed (store.root cls)).extent.toNat_lt_size
    have grown := UInt64.lt_iff_toNat_lt.1 grown
    omega

end Refreshes
end Store

namespace Propagation

variable {schedule : Schedule} {state : Propagation}

theorem exists_ended (inside : state.Inside) (distinct : state.worklist.Nodup)
    (pending : state.pending = []) : ∃ count final,
      count ≤ state.worklist.length + state.store.headroom * state.store.size ∧
      Steps schedule count state final ∧ final.next? = none := by
  -- A class leaves the worklist, or others are sent back and the room left for extents is less.
  induction measure : state.worklist.length + state.store.headroom * state.store.size
    using Nat.strongRecOn generalizing state with
  | _ bound ih =>
    cases worklist : state.worklist with
    | nil => exact ⟨0, state, Nat.zero_le _, .none state, done_iff.2 ⟨pending, worklist⟩⟩
    | cons cls more =>
      obtain ⟨middle, step, rest, refreshes, _, behind⟩ :=
        @exists_refined schedule _ inside cls more pending worklist
      have middleInside := step.inside inside
      have middleDistinct := step.nodup distinct
      have size := step.size inside
      have fewer : middle.worklist.length + middle.store.headroom * middle.store.size <
          state.worklist.length + state.store.headroom * state.store.size := by
        rw [size]
        by_cases spans : state.store.Spans (state.store.root cls)
        · rw [behind spans, refreshes.headroom_of_spans spans, worklist, List.length_cons]
          omega
        · have short := length_worklist_le middleInside middleDistinct
          have room := Nat.mul_le_mul_right state.store.size (refreshes.headroom_lt spans)
          rw [size] at short
          rw [Nat.succ_mul] at room
          rw [worklist, List.length_cons]
          omega
      obtain ⟨count, final, bounded, steps, done⟩ :=
        ih _ (measure ▸ fewer) middleInside middleDistinct rest rfl
      exact ⟨1 + count, final, by omega, step.trans steps, done⟩

theorem steps_le_square (size : Nat) :
    size + size * (UInt64.size - 1) * size ≤ UInt64.size * size ^ 2 := by
  calc size + size * (UInt64.size - 1) * size
      ≤ size * size + size * (UInt64.size - 1) * size :=
        Nat.add_le_add_right (Nat.le_mul_self size) _
    _ = (UInt64.size - 1 + 1) * size ^ 2 := by ring
    _ = UInt64.size * size ^ 2 := rfl

/-- Propagation comes to an end, within a bound that the order of the referrers does not change. -/
theorem exists_end (inside : state.Inside) (distinct : state.worklist.Nodup) :
    ∃ count final, count ≤ state.pending.length + state.store.referenceCount +
        UInt64.size * state.store.size ^ 2 ∧
      Steps schedule count state final ∧ final.next? = none := by
  obtain ⟨merges, merged, steps, rest, _, most⟩ := @exists_merged schedule _ inside
  have mergedInside := steps.inside inside
  have mergedDistinct := steps.nodup distinct
  obtain ⟨refinements, final, bounded, later, done⟩ :=
    @exists_ended schedule _ mergedInside mergedDistinct rest
  refine ⟨merges + refinements, final, ?_, steps.trans later, done⟩
  have short := length_worklist_le mergedInside mergedDistinct
  have room := Nat.mul_le_mul_right merged.store.size merged.store.headroom_le
  have wide := steps_le_square state.store.size
  rw [steps.size inside] at bounded short room
  omega

end Propagation

/-- Enough steps are enough for every run, and they all come to the same. With fewer there is still
something to do when they are used up. -/
theorem Store.propagate_ends (schedule : Schedule) {store : Store} {pairs : List ClassPair}
    (refersInside : store.RefersInside)
    (pairsInside : ∀ pair ∈ pairs, store.contains pair.1 ∧ store.contains pair.2) :
    ∃ needed final work, needed ≤ pairs.length + store.referenceCount +
        UInt64.size * store.size ^ 2 ∧
      (∀ cap, needed ≤ cap → store.propagate schedule cap pairs = (final, .ok work)) ∧
      ∀ cap < needed, ∃ cls,
        (store.propagate schedule cap pairs).2 = .error (.nonTerminating cap cls) := by
  have inside := Propagation.inside_of_contains refersInside pairsInside
  obtain ⟨needed, final, bounded, steps, done⟩ :=
    @Propagation.exists_end schedule _ inside store.nodup_roots
  refine ⟨needed, final.store, final.work, bounded, fun cap enough => ?_, fun cap beyond => ?_⟩
  · exact Propagation.run_of_steps steps done enough
  · exact Propagation.run_error_of_steps steps beyond

def Store.entwined : Store :=
  ((withLocations 2).update ⟨0⟩ fun _ => { slots := [⟨8, 4, ⟨1⟩⟩] }).update ⟨1⟩ fun _ =>
    { slots := [⟨8, 4, ⟨0⟩⟩] }

theorem Store.propagate_ends_entwined : entwined.RefersInside ∧ ∃ needed final work,
    64 < needed ∧ ∀ cap, needed ≤ cap →
      entwined.propagate .listed cap [] = (final, .ok work) := by
  have refersInside : entwined.RefersInside := by
    intro cls role target refers
    unfold entwined at refers
    rw [constraint_update (by decide), constraint_update (by decide),
      constraint_withLocations] at refers
    split at refers
    · cases role <;> simp [Constraint.Refers] at refers
      obtain ⟨_, _, rfl⟩ := refers
      decide
    · split at refers
      · cases role <;> simp [Constraint.Refers] at refers
        obtain ⟨_, _, rfl⟩ := refers
        decide
      · cases role <;> simp [Constraint.Refers] at refers
  obtain ⟨needed, final, work, _, enough, _⟩ :=
    propagate_ends .listed refersInside (List.forall_mem_nil _)
  refine ⟨refersInside, needed, final, work, ?_, enough⟩
  apply Nat.lt_of_not_le
  intro few
  have stopped : (entwined.propagate .listed 64 []).2 =
    .error (.nonTerminating 64 ⟨0⟩) := rfl
  rw [enough 64 few] at stopped
  cases stopped

end TypeRecovery
