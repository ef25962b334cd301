import TypeRecovery.Proofs.StepBounds
import TypeRecovery.Proofs.StoreCorrespondence
import TypeRecovery.Proofs.TypingClasses
/-!
A run that succeeds leaves a fixed point. As every root waits or has slots within its extent, so
every root waits or refers to roots alone. Once nothing waits both hold of all roots, and then
refining a root changes nothing: another run goes through the roots once and is done. The first run
had to go through those roots too, so the same cap is enough.
-/
namespace TypeRecovery

theorem Signature.relink_of_fixed {find : ClassId → ClassId} {signature : Signature}
    (fixed : ∀ target ∈ signature.references, find target = target) :
    signature.relink find = signature := by
  rcases signature with ⟨params, ret⟩
  obtain ⟨inputs, result⟩ := List.forall_mem_append.1 fixed
  have ret : find ret = ret := result ret List.mem_cons_self
  cases params with
  | none => simp only [relink, Option.map_none, ret]
  | some params =>
    have params : params.map find = params := (List.map_congr_left inputs).trans (List.map_id _)
    simp only [relink, Option.map_some, params, ret]

namespace Constraint

variable {find : ClassId → ClassId} {constraint : Constraint}

theorem relink_of_fixed (fixed : ∀ target ∈ constraint.references, find target = target) :
    constraint.relink find = constraint := by
  rcases constraint with ⟨_, _, _, _, _, pointee, slots, signature, _⟩
  simp only [references, List.forall_mem_append] at fixed
  obtain ⟨⟨pointed, fields⟩, called⟩ := fixed
  have pointees : pointee.map find = pointee := by
    cases pointee with
    | none => rfl
    | some target => exact congrArg some (pointed target List.mem_cons_self)
  have slots : slots.map (fun slot => { slot with cls := find slot.cls }) = slots := by
    refine (List.map_congr_left fun slot member => ?_).trans (List.map_id slots)
    rw [fields slot.cls (List.mem_map_of_mem member)]
    rfl
  have signatures : signature.map (Signature.relink find) = signature := by
    cases signature with
    | none => rfl
    | some signature => exact congrArg some (Signature.relink_of_fixed called)
  simp only [relink, pointees, slots, signatures]

theorem isStale_eq_false_iff : constraint.isStale find = false ↔
    ∀ target ∈ constraint.references, find target = target := by
  simp [isStale, List.any_eq_false]

end Constraint

namespace Store

/-- The class refers to roots alone. -/
def Linked (store : Store) (cls : ClassId) : Prop :=
  ∀ target ∈ (store.constraint cls).references, store.root target = target

namespace Refreshes

variable {store after : Store} {cls : ClassId} (refreshes : store.Refreshes cls after)
include refreshes

theorem linked : after.Linked (store.root cls) := by
  have constraint : after.constraint (store.root cls) = store.refreshed (store.root cls) := by
    rw [refreshes.same, constraint_update (root_inside refreshes.inside), if_pos rfl]
  have references : (store.refreshed (store.root cls)).references =
      (store.constraint (store.root cls)).references.map store.root :=
    Constraint.references_relink store.root (store.constraint (store.root cls))
  intro target member
  rw [constraint, references] at member
  obtain ⟨old, _, rfl⟩ := List.mem_map.1 member
  rw [refreshes.alike.root, root_root]

theorem linked_of_apart {other : ClassId} (isRoot : store.root other = other)
    (apart : other ≠ store.root cls) (linked : store.Linked other) : after.Linked other := by
  have constraint : after.constraint other = store.constraint other := by
    rw [refreshes.same, constraint_update (root_inside refreshes.inside), isRoot, root_root,
      if_neg apart]
  intro target member
  rw [constraint] at member
  rw [refreshes.alike.root]
  exact linked target member

end Refreshes

theorem update_constraint (store : Store) (cls : ClassId) :
    store.update (store.root cls) (fun _ => store.constraint cls) = store := by
  have same : store.constraints.modify (store.root cls).index id = store.constraints := by
    apply Array.ext_getElem?
    intro place
    rw [Array.getElem?_modify]
    split <;> simp
  have updated : store.update cls id = store := by
    unfold update
    simp only [same]
  exact (update_eq store cls id).symm.trans updated

end Store

namespace Propagation

variable {schedule : Schedule} {state after : Propagation}

/-- Every root that does not wait refers to roots alone. -/
def Links (state : Propagation) : Prop :=
  ∀ cls : ClassId, cls.index < state.store.size →
    state.Waiting (state.store.root cls) ∨ state.store.Linked (state.store.root cls)

theorem links_start (store : Store) (pairs : List ClassPair) : (start store pairs).Links :=
  fun _ inside => Or.inl (waiting_start inside)

theorem links_leads (leads : Step.Leads schedule state after) (inside : state.Inside)
    (tracks : state.TracksExtents) (links : state.Links) : after.Links := by
  intro other otherInside
  rw [size_leads leads inside] at otherInside
  by_cases busy : state.pending = []
  · cases leads with
    | same a b pending => rw [busy] at pending; cases pending
    | united a b more merge pending => rw [busy] at pending; cases pending
    | refined cls more pending worklist rest store _ members requeued =>
      have refines : Refines schedule state cls after :=
        ⟨⟨inside.first worklist, store⟩, members, more, worklist, requeued⟩
      rw [refines.store.alike.root]
      by_cases here : state.store.root other = state.store.root cls
      · rw [here]
        exact Or.inr refines.store.linked
      · rcases links other otherInside with waits | linked
        · exact Or.inl (refines.waiting here waits)
        · exact Or.inr (refines.store.linked_of_apart (state.store.root_root other) here linked)
  · exact Or.inl (waiting_leads leads inside tracks busy otherInside)

theorem Steps.links {count : Nat} {final : Propagation} (steps : Steps schedule count state final)
    (inside : state.Inside) (tracks : state.TracksExtents) (links : state.Links) : final.Links := by
  induction steps with
  | none => exact links
  | next found _ ih =>
    exact ih (inside_leads (leads found) inside) (tracksExtents_leads (leads found) inside tracks)
      (links_leads (leads found) inside tracks links)

theorem linked_of_done (links : state.Links) (done : state.next? = none) (cls : ClassId) :
    state.store.Linked (state.store.root cls) := by
  by_cases inside : cls.index < state.store.size
  · rcases links cls inside with ⟨waiting, member, _⟩ | linked
    · rw [(done_iff.1 done).2] at member
      cases member
    · exact linked
  · intro target member
    rw [state.store.constraint_root,
      Store.constraint_of_outside (Nat.le_of_not_lt inside)] at member
    cases member

theorem length_worklist_leads (leads : Step.Leads schedule state after) :
    state.worklist.length ≤ after.worklist.length + 1 := by
  -- A merge only appends to the worklist, and refining takes the first class off.
  cases leads with
  | same a b pending same store worklist => rw [worklist]; omega
  | united a b more merge pending found rest worklist =>
    obtain ⟨tail, appended⟩ := Distinct.exists_addAll state.worklist
      (merge.root :: schedule.arrange after.work.steps (after.referrersOf merge.root))
    rw [worklist.trans appended, List.length_append]
    omega
  | refined cls more pending worklist rest store _ _ requeued =>
    rw [worklist, requeued, List.length_cons]
    split
    · obtain ⟨tail, appended⟩ := Distinct.exists_addAll more
        (schedule.arrange after.work.steps (after.referrersOf (state.store.root cls)))
      rw [appended, List.length_append]
      omega
    · exact Nat.le_refl _

theorem Steps.length_worklist {count : Nat} {final : Propagation}
    (steps : Steps schedule count state final) :
    state.worklist.length ≤ final.worklist.length + count := by
  induction steps with
  | none => exact Nat.le_refl _
  | next found _ ih =>
    have first := @length_worklist_leads schedule _ _ (leads found)
    omega

theorem mem_roots_of_leads (leads : Step.Leads schedule state after) (inside : state.Inside)
    {cls : ClassId} (root : cls ∈ after.store.roots) : cls ∈ state.store.roots := by
  cases leads with
  | same a b pending same store => rwa [store] at root
  | united a b more merge pending found =>
    exact ((Store.mem_roots_of_unites (inside.unites pending found)).1 root).1
  | refined cls more pending worklist rest store =>
    rwa [store] at root

theorem Steps.mem_roots {count : Nat} {final : Propagation}
    (steps : Steps schedule count state final) (inside : state.Inside) {cls : ClassId}
    (root : cls ∈ final.store.roots) : cls ∈ state.store.roots := by
  induction steps with
  | none => exact root
  | next found _ ih =>
    exact mem_roots_of_leads (leads found) inside (ih (inside_leads (leads found) inside) root)

/-- A run that starts with the roots of a store takes a step for each that is a root at its end. -/
theorem Steps.length_roots {count : Nat} {store : Store} {pairs : List ClassPair}
    {final : Propagation} (steps : Steps schedule count (start store pairs) final)
    (inside : (start store pairs).Inside) (done : final.next? = .none) :
    final.store.roots.length ≤ count := by
  have fewer : final.store.roots.length ≤ store.roots.length :=
    final.store.nodup_roots.length_le_of_subset fun _ root => steps.mem_roots inside root
  have waiting : store.roots.length ≤ final.worklist.length + count := steps.length_worklist
  rw [(done_iff.1 done).2, List.length_nil] at waiting
  omega

theorem perform_settled {cls : ClassId} (linked : state.store.Linked (state.store.root cls))
    (spans : state.store.Spans (state.store.root cls)) : ∃ referrers,
      state.perform schedule (.refine cls) =
        { state with referrers, work := { state.work with steps := state.work.steps + 1 } } := by
  have relinked := Constraint.relink_of_fixed linked
  have current := Constraint.isStale_eq_false_iff.2 linked
  have reach : state.store.extentOf (state.store.root cls)
      (state.store.constraint (state.store.root cls)).slots ≤
        (state.store.constraint (state.store.root cls)).extent := by
    apply Store.extentOf_le.2
    intro slot member
    exact spans slot (by rwa [← relinked] at member)
  have still := UInt64.not_lt.2 reach
  have greatest := UInt64.le_antisymm ((le_max_extent _ _ _).2 ⟨UInt64.le_refl _, reach⟩)
    ((le_max_extent _ _ _).1 (UInt64.le_refl _)).1
  have kept := state.store.update_constraint (state.store.root cls)
  rw [state.store.root_root] at kept
  obtain ⟨referrers, folded, _⟩ := addReferrers (state.store.root cls)
    (state.store.constraint (state.store.root cls)).references
    { state with work := { state.work with steps := state.work.steps + 1 } }
  refine ⟨referrers, ?_⟩
  simp only [perform, refine, relinked, current, still, greatest, kept, decide_false, Bool.or_false,
    Bool.false_eq_true, if_false, Nat.add_zero]
  exact folded

theorem exists_done_of_settled (pending : state.pending = [])
    (linked : ∀ cls, state.store.Linked (state.store.root cls))
    (spans : ∀ cls, state.store.Spans (state.store.root cls)) :
    ∃ final, Steps schedule state.worklist.length state final ∧ final.next? = none ∧
      final.store = state.store ∧
      final.work = { state.work with steps := state.work.steps + state.worklist.length } := by
  induction worklist : state.worklist generalizing state with
  | nil => exact ⟨state, .none state, done_iff.2 ⟨pending, worklist⟩, rfl, rfl⟩
  | cons cls more ih =>
    have found : state.next? = some (.refine cls, { state with worklist := more }) := by
      simp only [next?, pending, worklist]
    obtain ⟨referrers, performed⟩ := @perform_settled schedule { state with worklist := more } cls
      (linked cls) (spans cls)
    obtain ⟨final, steps, done, store, work⟩ := @ih { state with
      worklist := more
      referrers
      work := { state.work with steps := state.work.steps + 1 } } pending linked spans rfl
    refine ⟨final, .next found (performed ▸ steps), done, store, ?_⟩
    rw [work, List.length_cons, Nat.add_right_comm]
    rfl

end Propagation

namespace Store

/-- What propagation leaves is a fixed point. -/
theorem propagate_fixedPoint {schedule again : Schedule} {cap : Nat} {store after : Store}
    {pairs : List ClassPair} {work : Work} (refersInside : store.RefersInside)
    (pairsInside : ∀ pair ∈ pairs, store.contains pair.1 ∧ store.contains pair.2)
    (ran : store.propagate schedule cap pairs = (after, .ok work)) :
    (∀ root ∈ after.roots, (∀ target ∈ (after.constraint root).references, target ∈ after.roots) ∧
      after.extentOf root (after.constraint root).slots ≤ (after.constraint root).extent) ∧
    after.propagate again cap [] = (after, .ok ⟨0, 0, after.roots.length⟩) := by
  have inside := Propagation.inside_of_contains refersInside pairsInside
  obtain ⟨count, within, final, steps, done, last, _⟩ := Propagation.run_ok (congrArg Prod.snd ran)
  have last : after = final.store := (congrArg Prod.fst ran).symm.trans last
  subst last
  have tracks := Propagation.tracksExtents_start store pairs
  have closed := Propagation.closed_of_done (steps.tracksExtents inside tracks) done
  have linked := Propagation.linked_of_done (steps.links inside tracks
    (Propagation.links_start store pairs)) done
  refine ⟨fun root isRoot => ?_, ?_⟩
  · have fixed := (mem_roots.1 isRoot).2
    have references := linked root
    rw [fixed] at references
    refine ⟨fun target member => ?_, ?_⟩
    · obtain ⟨role, refers⟩ := Constraint.mem_references_iff.1 member
      exact mem_roots.2 ⟨(steps.inside inside).refers refers, references target member⟩
    · apply extentOf_le.2
      intro slot member
      apply closed root fixed slot
      rw [← Constraint.relink_of_fixed references] at member
      exact member
  · obtain ⟨ended, repeated, settled, same, work⟩ := @Propagation.exists_done_of_settled again
      (.start final.store []) rfl linked fun cls => closed _ (final.store.root_root cls)
    have fits := Nat.le_trans (steps.length_roots inside done) within
    unfold propagate
    rw [Propagation.run_of_steps repeated settled fits, same, work]
    show (final.store, Except.ok (⟨0, 0, 0 + final.store.roots.length⟩ : Work)) = _
    rw [Nat.zero_add]

def aggregatePointer : Store :=
  (((withLocations 2).fresh { slots := [⟨7, 1, ⟨1⟩⟩] }).2.fresh { pointee := some ⟨2⟩ }).2

theorem propagate_fixedPoint_aggregatePointer : aggregatePointer.RefersInside ∧
    ∃ after work, aggregatePointer.propagate .listed 1000 [(⟨0⟩, ⟨1⟩)] = (after, .ok work) ∧
      work.isFixedPoint = false ∧
      after.propagate .listed 1000 [] = (after, .ok ⟨0, 0, after.roots.length⟩) := by
  have refersInside : aggregatePointer.RefersInside := by
    apply refersInside_fresh
    · apply refersInside_fresh
      · intro cls role target refers
        rw [constraint_withLocations] at refers
        exact absurd refers (Constraint.not_refers_empty role target)
      · intro role target refers
        cases role <;> simp [Constraint.Refers] at refers
        obtain ⟨_, _, rfl⟩ := refers
        decide
    · intro role target refers
      cases role <;> simp [Constraint.Refers] at refers
      subst refers
      decide
  have ran : aggregatePointer.propagate .listed 1000 [(⟨0⟩, ⟨1⟩)] =
      ((aggregatePointer.propagate .listed 1000 [(⟨0⟩, ⟨1⟩)]).1, .ok ⟨1, 1, 5⟩) := rfl
  exact ⟨refersInside, _, _, ran, rfl, (propagate_fixedPoint refersInside (by decide) ran).2⟩

end Store
end TypeRecovery
