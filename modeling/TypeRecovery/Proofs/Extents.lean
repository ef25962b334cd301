import TypeRecovery.Proofs.LeastCongruence
/-!
Extents after propagation. Extents that are not exceeded by the slots of their classes are closed.
Those that propagation finds are closed, since every class that one of its fields outgrew was sent
back, and no closed extents are less. So they depend on the partition, on the slots and on the
widths alone, and not on the order in which classes were refined.

While a run goes on a field may be measured by more than in the end: a width that is declared has
precedence over a wider access, and a field that turns out to be its own aggregate is not measured
any further. What bounds extents at all times has room for every field, however it is measured.
-/
namespace TypeRecovery

theorem le_max_extent (a b bound : UInt64) : max a b ≤ bound ↔ a ≤ bound ∧ b ≤ bound := by
  show (if a ≤ b then b else a) ≤ bound ↔ _
  split <;> simp only [UInt64.le_iff_toNat_le] at * <;> omega

theorem toNat_ofNatClamp (n : Nat) :
    (UInt64.ofNatClamp n).toNat = min n (UInt64.size - 1) := by
  by_cases small : n < UInt64.size
  · rw [UInt64.toNat_ofNatClamp_of_lt small]
    omega
  · rw [UInt64.toNat_ofNatClamp_of_le (Nat.le_of_not_lt small)]
    omega

namespace Store

/-- Where a slot ends, by the widths and the extents that classes have. -/
def slotReach (width : ClassId → Nat) (extent : ClassId → UInt64) (owner : ClassId)
    (slot : Slot) : UInt64 :=
  if slot.offset < 0 then 0
  else
    let inner := if slot.cls = owner then 0 else max (width slot.cls) (extent slot.cls).toNat
    .ofNatClamp (slot.offset.toInt.toNat + max slot.size.toNat inner)

theorem slotReach_mono {width : ClassId → Nat} {less more : ClassId → UInt64} {owner : ClassId}
    {slot : Slot} (tracks : less slot.cls ≤ more slot.cls) :
    slotReach width less owner slot ≤ slotReach width more owner slot := by
  unfold slotReach
  split
  · exact UInt64.le_refl 0
  · rw [UInt64.le_iff_toNat_le, toNat_ofNatClamp, toNat_ofNatClamp]
    rw [UInt64.le_iff_toNat_le] at tracks
    split <;> omega

theorem slotReach_congr {width : ClassId → Nat} {extent other : ClassId → UInt64} {owner : ClassId}
    {slot : Slot} (same : slot.cls ≠ owner → other slot.cls = extent slot.cls) :
    slotReach width other owner slot = slotReach width extent owner slot := by
  unfold slotReach
  by_cases own : slot.cls = owner
  · simp [own]
  · simp [own, same own]

def width (store : Store) (cls : ClassId) : Nat := ((store.constraint cls).width.getD 0).toNat

def extent (store : Store) (cls : ClassId) : UInt64 := (store.constraint cls).extent

theorem extentOf_le {store : Store} {owner : ClassId} {slots : List Slot} {bound : UInt64} :
    store.extentOf owner slots ≤ bound ↔
      ∀ slot ∈ slots, slotReach store.width store.extent owner slot ≤ bound := by
  have fold (start : UInt64) :
      slots.foldl (fun extent slot => max extent (store.slotEnd owner slot)) start ≤ bound ↔
        start ≤ bound ∧ ∀ slot ∈ slots, slotReach store.width store.extent owner slot ≤ bound := by
    induction slots generalizing start with
    | nil => simp
    | cons slot rest ih =>
      rw [List.foldl_cons, ih, le_max_extent, List.forall_mem_cons, and_assoc]
      exact Iff.rfl
  exact (fold 0).trans (and_iff_right UInt64.zero_le)

/-- All that is known of a class but its extent, with references brought up to date. -/
def shape (store : Store) (cls : ClassId) : Constraint :=
  { (store.constraint cls).relink store.root with extent := 0 }

theorem width_shape (store : Store) (cls : ClassId) :
    store.width cls = ((store.shape cls).width.getD 0).toNat := rfl

def Spans (store : Store) (owner : ClassId) : Prop :=
  ∀ slot ∈ (store.shape owner).slots,
    slotReach store.width store.extent owner slot ≤ store.extent owner

/-- No slot goes beyond the extent of its class. -/
def Closed (store : Store) (extent : ClassId → UInt64) : Prop :=
  ∀ owner, store.root owner = owner → ∀ slot ∈ (store.shape owner).slots,
    slotReach store.width extent owner slot ≤ extent owner

def Least (store : Store) : Prop :=
  ∀ extent, store.Closed extent → ∀ cls, store.extent cls ≤ extent (store.root cls)

/-- Stores that differ in extents at most. -/
structure Alike (store after : Store) : Prop where
  root : ∀ cls, after.root cls = store.root cls
  shape : ∀ cls, after.shape cls = store.shape cls

theorem Alike.refl (store : Store) : Alike store store := ⟨fun _ => rfl, fun _ => rfl⟩

theorem Alike.symm {store after : Store} (alike : Alike store after) : Alike after store :=
  ⟨fun cls => (alike.root cls).symm, fun cls => (alike.shape cls).symm⟩

theorem Alike.trans {store middle after : Store} (first : Alike store middle)
    (second : Alike middle after) : Alike store after where
  root cls := (second.root cls).trans (first.root cls)
  shape cls := (second.shape cls).trans (first.shape cls)

theorem Alike.width {store after : Store} (alike : Alike store after) (cls : ClassId) :
    after.width cls = store.width cls := by
  rw [width_shape, width_shape, alike.shape]

theorem Alike.closed {store after : Store} (alike : Alike store after)
    {extent : ClassId → UInt64} : after.Closed extent ↔ store.Closed extent := by
  have widths : after.width = store.width := funext alike.width
  unfold Closed
  simp only [alike.root, alike.shape, widths]

theorem relink_relink (first second : ClassId → ClassId) (constraint : Constraint) :
    (constraint.relink first).relink second = constraint.relink (second ∘ first) := by
  rcases constraint with ⟨_, _, _, _, _, pointee, slots, signature, _⟩
  have signatures : Signature.relink second ∘ Signature.relink first =
      Signature.relink (second ∘ first) := by
    funext signature
    simp [Signature.relink, Option.map_map, Function.comp_def]
  simp only [Constraint.relink, Option.map_map, List.map_map, signatures]
  rfl

theorem shape_root (store : Store) (cls : ClassId) :
    store.shape (store.root cls) = store.shape cls := by
  unfold shape
  rw [store.constraint_root]

theorem root_of_shape {store : Store} {cls : ClassId} {slot : Slot}
    (member : slot ∈ (store.shape cls).slots) : store.root slot.cls = slot.cls := by
  obtain ⟨old, _, rfl⟩ := List.mem_map.1 member
  exact store.root_root old.cls

theorem slots_of_outside {store : Store} {cls : ClassId} (outside : store.size ≤ cls.index) :
    (store.shape cls).slots = [] := by
  have nothing : store.constraint cls = {} := constraint_of_outside outside
  simp only [shape, nothing, Constraint.relink, List.map_nil]

theorem mem_roots {store : Store} {cls : ClassId} :
    cls ∈ store.roots ↔ cls.index < store.size ∧ store.root cls = cls := by
  have fixed : store.forest.parent cls = cls ↔ store.root cls = cls :=
    ⟨Forest.root_of_root, fun root => by
      have parent := store.forest.parent_root cls
      rwa [show store.forest.root cls = cls from root] at parent⟩
  unfold roots Forest.roots
  simp only [List.mem_filter, List.mem_map, List.mem_range, decide_eq_true_eq, fixed]
  constructor
  · rintro ⟨⟨place, inside, rfl⟩, root⟩
    exact ⟨inside, root⟩
  · rintro ⟨inside, root⟩
    exact ⟨⟨cls.index, inside, rfl⟩, root⟩

theorem root_mem_roots {store : Store} {cls : ClassId} (inside : cls.index < store.size) :
    store.root cls ∈ store.roots := mem_roots.2 ⟨root_inside inside, store.root_root cls⟩

theorem alike_refresh {store : Store} {cls : ClassId} (inside : cls.index < store.size) :
    Alike store (store.update (store.root cls) fun _ => store.refreshed (store.root cls)) where
  root _ := rfl
  shape other := by
    have twice : store.root ∘ store.root = store.root := funext store.root_root
    rw [shape, constraint_update (root_inside inside), root_root]
    split
    · rename_i same
      rw [← shape_root store other, same]
      show ({ ((store.constraint (store.root cls)).relink store.root).relink store.root with
        extent := 0 } : Constraint) = _
      rw [relink_relink, twice]
      rfl
    · rfl

theorem extent_refresh {store : Store} {cls : ClassId} (inside : cls.index < store.size)
    (other : ClassId) :
    (store.update (store.root cls) fun _ => store.refreshed (store.root cls)).extent other =
      if store.root other = store.root cls then (store.refreshed (store.root cls)).extent
      else store.extent other := by
  unfold extent
  rw [constraint_update (root_inside inside), store.root_root]
  split <;> rfl

theorem refreshed_extent_le {store : Store} {cls : ClassId} {bound : UInt64} :
    (store.refreshed (store.root cls)).extent ≤ bound ↔ store.extent cls ≤ bound ∧
      ∀ slot ∈ (store.shape cls).slots,
        slotReach store.width store.extent (store.root cls) slot ≤ bound := by
  rw [← shape_root, ← extentOf_le]
  unfold extent
  rw [← store.constraint_root cls]
  exact le_max_extent ..

theorem zeroExtents_unites {store after : Store} {a b : ClassId} {merge : Merge}
    (unites : Unites store a b merge after) (zeroExtents : ∀ cls, store.extent cls = 0)
    (cls : ClassId) :
    after.extent cls = 0 := by
  unfold extent
  rw [unites.constraint]
  split
  · have left : (store.constraint merge.root).extent = 0 := zeroExtents merge.root
    have right : (store.constraint merge.absorbed).extent = 0 := zeroExtents merge.absorbed
    simp only [Constraint.join, left, right]
    rfl
  · exact zeroExtents cls

theorem spans_of_outside {store : Store} {cls : ClassId} (outside : store.size ≤ cls.index) :
    store.Spans cls := by
  intro slot member
  rw [slots_of_outside outside] at member
  cases member

theorem spans_of_same {store after : Store} (alike : Alike store after) {owner : ClassId}
    (own : after.extent owner = store.extent owner)
    (fields : ∀ slot ∈ (store.shape owner).slots, slot.cls ≠ owner →
      after.extent slot.cls = store.extent slot.cls) (spans : store.Spans owner) :
    after.Spans owner := by
  have widths : after.width = store.width := funext alike.width
  intro slot member
  rw [alike.shape] at member
  rw [own, widths, slotReach_congr (fields slot member)]
  exact spans slot member

theorem extent_refreshed_of_spans {store : Store} {cls : ClassId}
    (spans : store.Spans (store.root cls)) :
    (store.refreshed (store.root cls)).extent = store.extent cls := by
  have same : store.extent (store.root cls) = store.extent cls := by
    unfold extent
    rw [store.constraint_root]
  apply UInt64.le_antisymm
  · apply refreshed_extent_le.2
    refine ⟨UInt64.le_refl _, ?_⟩
    intro slot member
    rw [← same]
    exact spans slot (by rwa [shape_root])
  · exact (refreshed_extent_le.1 (UInt64.le_refl _)).1

/-- The class is brought up to date, and nothing else changes. -/
structure Refreshes (store : Store) (cls : ClassId) (after : Store) : Prop where
  inside : cls.index < store.size
  same : after = store.update (store.root cls) fun _ => store.refreshed (store.root cls)

namespace Refreshes

variable {store after : Store} {cls : ClassId} (refreshes : store.Refreshes cls after)
include refreshes

theorem alike : Alike store after := refreshes.same ▸ alike_refresh refreshes.inside

theorem extent (other : ClassId) : after.extent other =
    if store.root other = store.root cls then (store.refreshed (store.root cls)).extent
    else store.extent other := by
  rw [refreshes.same, extent_refresh refreshes.inside]

theorem extent_of_still (still : (store.refreshed (store.root cls)).extent = store.extent cls)
    (other : ClassId) : after.extent other = store.extent other := by
  rw [refreshes.extent]
  split
  · rename_i same
    rw [still, Store.extent, Store.extent, ← store.constraint_root cls, ← same,
      store.constraint_root]
  · rfl

theorem extent_of_spans (spans : store.Spans (store.root cls)) (other : ClassId) :
    after.extent other = store.extent other :=
  refreshes.extent_of_still (extent_refreshed_of_spans spans) other

theorem extent_of_apart {other : ClassId} (isRoot : store.root other = other)
    (apart : other ≠ store.root cls) : after.extent other = store.extent other := by
  rw [refreshes.extent, if_neg (by rwa [isRoot])]

theorem spans : after.Spans (store.root cls) := by
  have widths : after.width = store.width := funext refreshes.alike.width
  have own : after.extent (store.root cls) = (store.refreshed (store.root cls)).extent := by
    rw [refreshes.extent, if_pos (store.root_root cls)]
  intro slot member
  rw [refreshes.alike.shape, shape_root] at member
  have bounded := (refreshed_extent_le.1 (UInt64.le_refl _)).2 slot member
  rw [own, widths, slotReach_congr]
  · exact bounded
  · intro apart
    exact refreshes.extent_of_apart (root_of_shape member) apart

end Refreshes

end Store

namespace Propagation

variable {schedule : Schedule} {state after : Propagation}

/-- No slot of the class goes beyond its extent, and the class is sent back when one might. -/
structure UpToDate (state : Propagation) (cls : ClassId) : Prop where
  reach : ∀ slot ∈ (state.store.shape cls).slots,
    Store.slotReach state.store.width state.store.extent cls slot ≤ state.store.extent cls
  registered : ∀ slot ∈ (state.store.shape cls).slots, cls ∈ state.referrersOf slot.cls

def Waiting (state : Propagation) (cls : ClassId) : Prop :=
  ∃ waiting ∈ state.worklist, state.store.root waiting = cls

/-- What lets extents grow as far as they must. While pairs are merged every root is waiting. -/
structure TracksExtents (state : Propagation) : Prop where
  waiting : state.pending ≠ [] → ∀ cls : ClassId, cls.index < state.store.size →
    state.Waiting (state.store.root cls)
  upToDate : ∀ cls : ClassId, cls.index < state.store.size →
    state.Waiting (state.store.root cls) ∨ state.UpToDate (state.store.root cls)

/-- What lets extents grow no further. While pairs are merged none has grown. -/
structure MinimalExtents (state : Propagation) : Prop where
  zeroExtents : state.pending ≠ [] → ∀ cls, state.store.extent cls = 0
  least : state.store.Least

theorem least_of_zeroExtents {store : Store} (zeroExtents : ∀ cls, store.extent cls = 0) :
    store.Least := by
  intro extent _ cls
  rw [zeroExtents cls]
  exact UInt64.zero_le

theorem minimalExtents_start {store : Store} {pairs : List ClassPair}
    (zeroExtents : ∀ cls, store.extent cls = 0) : (start store pairs).MinimalExtents :=
  ⟨fun _ => zeroExtents, least_of_zeroExtents zeroExtents⟩

theorem waiting_start {store : Store} {pairs : List ClassPair} {cls : ClassId}
    (inside : cls.index < store.size) : (start store pairs).Waiting (store.root cls) :=
  ⟨store.root cls, Store.root_mem_roots inside, store.root_root cls⟩

theorem tracksExtents_start (store : Store) (pairs : List ClassPair) :
    (start store pairs).TracksExtents :=
  ⟨fun _ _ inside => waiting_start inside, fun _ inside => Or.inl (waiting_start inside)⟩

theorem within_refresh {store : Store} {cls : ClassId} (inside : cls.index < store.size)
    {extent : ClassId → UInt64} (closed : store.Closed extent)
    (within : ∀ cls, store.extent cls ≤ extent (store.root cls)) (other : ClassId) :
    (store.update (store.root cls) fun _ => store.refreshed (store.root cls)).extent other ≤
      extent (store.root other) := by
  rw [Store.extent_refresh inside]
  split
  · rename_i same
    rw [same, Store.refreshed_extent_le]
    refine ⟨within cls, fun slot member => ?_⟩
    rw [← Store.shape_root] at member
    have bounded := closed (store.root cls) (store.root_root cls) slot member
    refine UInt64.le_trans (Store.slotReach_mono ?_) bounded
    have below := within slot.cls
    rwa [Store.root_of_shape member] at below
  · exact within other

theorem least_refresh {store : Store} {cls : ClassId} (inside : cls.index < store.size)
    (least : store.Least) :
    (store.update (store.root cls) fun _ => store.refreshed (store.root cls)).Least := by
  intro extent closed
  have closedBefore := (Store.alike_refresh inside).closed.1 closed
  exact within_refresh inside closedBefore (least extent closedBefore)

theorem mem_references {constraint : Constraint} {slot : Slot} (member : slot ∈ constraint.slots) :
    slot.cls ∈ constraint.references := by
  unfold Constraint.references
  exact List.mem_append_left _ (List.mem_append_right _ (List.mem_map_of_mem member))

theorem slot_inside {owner : ClassId} {slot : Slot} (inside : state.Inside)
    (member : slot ∈ (state.store.shape owner).slots) : slot.cls.index < state.referrers.size := by
  obtain ⟨old, held, rfl⟩ := List.mem_map.1 member
  have refers : (state.store.constraint owner).Refers (.slot old.offset old.size) old.cls := held
  rw [inside.table]
  exact Store.root_inside (inside.refers refers)

/-- A step refines the first class that waits. What it refers to knows it as a referrer, and those
that refer to it are sent back when it grew. -/
structure Refines (schedule : Schedule) (state : Propagation) (cls : ClassId)
    (after : Propagation) : Prop where
  store : state.store.Refreshes cls after.store
  members : ∀ referrer other : ClassId, other.index < state.referrers.size →
    (referrer ∈ after.referrersOf other ↔ referrer ∈ state.referrersOf other ∨
      referrer = state.store.root cls ∧ other ∈
        ((state.store.constraint cls).relink state.store.root).references)
  worklist : ∃ more, state.worklist = cls :: more ∧
    after.worklist = if (state.store.constraint cls).extent <
        (state.store.refreshed (state.store.root cls)).extent then
      Distinct.addAll more
        (schedule.arrange after.work.steps (after.referrersOf (state.store.root cls)))
      else more

namespace Refines

variable {cls root : ClassId} (refines : Refines schedule state cls after)
include refines

theorem upToDate_self (inside : state.Inside) : after.UpToDate (state.store.root cls) := by
  refine ⟨refines.store.spans, fun slot member => ?_⟩
  rw [refines.store.alike.shape, Store.shape_root] at member
  exact (refines.members _ _ (slot_inside inside member)).2 (Or.inr ⟨rfl, mem_references member⟩)

theorem upToDate_other (inside : state.Inside) (isRoot : state.store.root root = root)
    (other : root ≠ state.store.root cls) (upToDate : state.UpToDate root)
    (still : ∀ slot ∈ (state.store.shape root).slots, slot.cls = state.store.root cls →
      (state.store.refreshed (state.store.root cls)).extent ≤ state.store.extent cls) :
    after.UpToDate root := by
  -- Only a slot of the refined class could reach further now, and `still` rules that out.
  constructor
  · apply Store.spans_of_same refines.store.alike (refines.store.extent_of_apart isRoot other) _
      upToDate.reach
    intro slot member _
    by_cases refined : slot.cls = state.store.root cls
    · have grown : state.store.extent cls ≤ (state.store.refreshed (state.store.root cls)).extent :=
        (Store.refreshed_extent_le.1 (UInt64.le_refl _)).1
      have same := UInt64.le_antisymm (still slot member refined) grown
      exact refines.store.extent_of_still same slot.cls
    · exact refines.store.extent_of_apart (Store.root_of_shape member) refined
  · intro slot member
    rw [refines.store.alike.shape] at member
    exact (refines.members _ _ (slot_inside inside member)).2
      (Or.inl (upToDate.registered slot member))

theorem waiting (other : root ≠ state.store.root cls) (waits : state.Waiting root) :
    after.Waiting root := by
  obtain ⟨more, worklist, requeued⟩ := refines.worklist
  obtain ⟨waiting, member, same⟩ := waits
  have root := (refines.store.alike.root waiting).trans same
  rw [worklist] at member
  rcases List.mem_cons.1 member with rfl | later
  · exact absurd same.symm other
  · refine ⟨waiting, ?_, root⟩
    rw [requeued]
    split
    · exact Distinct.mem_addAll.2 (Or.inl later)
    · exact later

theorem waiting_sent (isRoot : state.store.root root = root)
    (grew : (state.store.constraint cls).extent <
      (state.store.refreshed (state.store.root cls)).extent)
    (registered : root ∈ after.referrersOf (state.store.root cls)) : after.Waiting root := by
  obtain ⟨more, _, requeued⟩ := refines.worklist
  refine ⟨root, ?_, (refines.store.alike.root root).trans isRoot⟩
  rw [requeued, if_pos grew]
  exact Distinct.mem_addAll.2 (Or.inr ((schedule.arrange_perm _ _).mem_iff.2 registered))

theorem upToDate (inside : state.Inside) (isRoot : state.store.root root = root)
    (before : state.Waiting root ∨ state.UpToDate root) :
    after.Waiting root ∨ after.UpToDate root := by
  by_cases here : root = state.store.root cls
  · rw [here]
    exact Or.inr (refines.upToDate_self inside)
  · rcases before with waits | upToDate
    · exact Or.inl (refines.waiting here waits)
    · -- A field of the refined class may have outgrown this one, which then was sent back.
      by_cases sent : (state.store.constraint cls).extent <
          (state.store.refreshed (state.store.root cls)).extent ∧
          ∃ slot ∈ (state.store.shape root).slots, slot.cls = state.store.root cls
      · obtain ⟨grew, slot, member, same⟩ := sent
        have registered := (refines.members root _ (slot_inside inside member)).2
          (Or.inl (upToDate.registered slot member))
        exact Or.inl (refines.waiting_sent isRoot grew (same ▸ registered))
      · refine Or.inr (refines.upToDate_other inside isRoot here upToDate ?_)
        exact fun slot member same => UInt64.not_lt.1 fun grew => sent ⟨grew, slot, member, same⟩

end Refines

theorem waiting_leads (leads : Step.Leads schedule state after) (inside : state.Inside)
    (tracks : state.TracksExtents) (busy : state.pending ≠ []) {cls : ClassId}
    (clsInside : cls.index < state.store.size) : after.Waiting (after.store.root cls) := by
  obtain ⟨waiting, member, root⟩ := tracks.waiting busy cls clsInside
  cases leads with
  | same a b pending same store worklist referrers =>
    exact ⟨waiting, by rwa [worklist], by rw [store, root]⟩
  | united a b more merge pending found rest worklist referrers =>
    have unites := inside.unites pending found
    refine ⟨waiting, ?_, ?_⟩
    · rw [worklist]
      exact Distinct.mem_addAll.2 (Or.inl (Distinct.mem_add.2 (Or.inl member)))
    · rw [unites.root, unites.root cls, root]
  | refined cls more pending => exact absurd pending busy

theorem tracksExtents_leads (leads : Step.Leads schedule state after) (inside : state.Inside)
    (tracks : state.TracksExtents) : after.TracksExtents := by
  have size := size_leads leads inside
  by_cases busy : state.pending = []
  · cases leads with
    | same a b pending => rw [busy] at pending; cases pending
    | united a b more merge pending => rw [busy] at pending; cases pending
    | refined cls more pending worklist rest store _ members requeued =>
      have refines : Refines schedule state cls after :=
        ⟨⟨inside.first worklist, store⟩, members, more, worklist, requeued⟩
      refine ⟨fun busy => absurd rest busy, fun other here => ?_⟩
      rw [size] at here
      rw [refines.store.alike.root]
      exact refines.upToDate inside (state.store.root_root other) (tracks.upToDate other here)
  · have waiting (cls : ClassId) (clsInside : cls.index < after.store.size) :
        after.Waiting (after.store.root cls) :=
      waiting_leads leads inside tracks busy (size ▸ clsInside)
    exact ⟨fun _ => waiting, fun cls clsInside => Or.inl (waiting cls clsInside)⟩

theorem minimalExtents_leads (leads : Step.Leads schedule state after) (inside : state.Inside)
    (minimal : state.MinimalExtents) : after.MinimalExtents := by
  cases leads with
  | same a b pending same store worklist referrers =>
    have busy : state.pending ≠ [] := by simp [pending]
    constructor
    · rw [store]
      exact fun _ => minimal.zeroExtents busy
    · rw [store]
      exact minimal.least
  | united a b more merge pending found rest worklist referrers =>
    have busy : state.pending ≠ [] := by simp [pending]
    have zeroExtents := Store.zeroExtents_unites (inside.unites pending found)
      (minimal.zeroExtents busy)
    exact ⟨fun _ => zeroExtents, least_of_zeroExtents zeroExtents⟩
  | refined cls more pending worklist rest store =>
    refine ⟨fun busy => absurd rest busy, ?_⟩
    rw [store]
    exact least_refresh (inside.first worklist) minimal.least

theorem Steps.tracksExtents {count : Nat} {final : Propagation}
    (steps : Steps schedule count state final)
    (inside : state.Inside) (tracks : state.TracksExtents) : final.TracksExtents := by
  induction steps with
  | none => exact tracks
  | next found _ ih =>
    exact ih (inside_leads (leads found) inside) (tracksExtents_leads (leads found) inside tracks)

theorem Steps.minimalExtents {count : Nat} {final : Propagation}
    (steps : Steps schedule count state final)
    (inside : state.Inside) (minimal : state.MinimalExtents) : final.MinimalExtents := by
  induction steps with
  | none => exact minimal
  | next found _ ih =>
    exact ih (inside_leads (leads found) inside) (minimalExtents_leads (leads found) inside minimal)

/-- When no work is left, no slot goes beyond the extent of its class. -/
theorem closed_of_done (tracks : state.TracksExtents) (done : state.next? = none) :
    state.store.Closed state.store.extent := by
  intro owner isRoot slot member
  by_cases inside : owner.index < state.store.size
  · rcases tracks.upToDate owner inside with ⟨waiting, member, _⟩ | upToDate
    · rw [(done_iff.1 done).2] at member
      cases member
    · rw [isRoot] at upToDate
      exact upToDate.reach slot member
  · rw [Store.slots_of_outside (Nat.le_of_not_lt inside)] at member
    cases member

end Propagation

variable {Label : Type} {label : ClassId → Label} {model : Model Label} {bound : Label → UInt64}

/-- A field of so many bytes may be found in the label. -/
def Model.Measures (model : Model Label) (bound : Label → UInt64) (here : Label) (bytes : Nat) :
    Prop :=
  (∃ width, (model.has here (.width width) ∨ model.has here (.access width)) ∧
    bytes ≤ width.toNat) ∨ bytes ≤ (bound here).toNat

theorem Model.Measures.max {here : Label} {a b : Nat} (first : model.Measures bound here a)
    (second : model.Measures bound here b) : model.Measures bound here (max a b) := by
  rcases Nat.le_total a b with le | le
  · rwa [Nat.max_eq_right le]
  · rwa [Nat.max_eq_left le]

/-- No field goes beyond the bound of its aggregate, however it is measured. -/
def Model.Roomy (model : Model Label) (bound : Label → UInt64) : Prop :=
  ∀ ⦃here offset size inner⦄, model.refers here (.slot offset size) inner → ¬ offset < 0 →
    ∀ bytes, bytes ≤ size.toNat ∨ model.Measures bound inner bytes →
      .ofNatClamp (offset.toInt.toNat + bytes) ≤ bound here

namespace Store

def Bounded (label : ClassId → Label) (bound : Label → UInt64) (store : Store) : Prop :=
  ∀ cls, store.extent cls ≤ bound (label cls)

variable {store : Store}

theorem measures_width (holds : store.Holds label model) (cls : ClassId) :
    model.Measures bound (label cls) (store.width cls) := by
  have has := (holds.constraint cls).has
  unfold width Constraint.width
  cases declared : (store.constraint cls).declaredWidth with
  | some width =>
    have given : (store.constraint cls).Has (.width width) :=
      ⟨width, declared, UInt8.le_refl width⟩
    exact Or.inl ⟨width, Or.inl (has _ given), Nat.le_refl _⟩
  | none =>
    by_cases unseen : (store.constraint cls).maxAccess = 0
    · simp only [unseen, if_true]
      exact Or.inr (Nat.zero_le _)
    · simp only [unseen, if_false]
      have given : (store.constraint cls).Has (.access (store.constraint cls).maxAccess) :=
        ⟨UInt8.pos_iff_ne_zero.2 unseen, UInt8.le_refl _⟩
      exact Or.inl ⟨_, Or.inr (has _ given), Nat.le_refl _⟩

theorem slotReach_le_bound (roomy : model.Roomy bound) (holds : store.Holds label model)
    (bounded : store.Bounded label bound) {owner : ClassId} {slot : Slot}
    (member : slot ∈ (store.shape owner).slots) (root : ClassId) :
    slotReach store.width store.extent root slot ≤ bound (label owner) := by
  obtain ⟨known, held, rfl⟩ := List.mem_map.1 member
  have refers : model.refers (label owner) (.slot known.offset known.size)
      (label (store.root known.cls)) := by
    rw [holds.root]
    exact (holds.constraint owner).refers (.slot known.offset known.size) known.cls held
  have extent : model.Measures bound (label (store.root known.cls))
      (store.extent (store.root known.cls)).toNat :=
    Or.inr (UInt64.le_iff_toNat_le.1 (bounded _))
  unfold slotReach
  split
  · exact UInt64.zero_le
  · rename_i forward
    apply roomy refers forward
    split
    · exact Or.inl (Nat.max_le.2 ⟨Nat.le_refl _, Nat.zero_le _⟩)
    · rcases Nat.le_total known.size.toNat (max (store.width (store.root known.cls))
        (store.extent (store.root known.cls)).toNat) with inner | outer
      · rw [Nat.max_eq_right inner]
        exact Or.inr ((measures_width holds _).max extent)
      · rw [Nat.max_eq_left outer]
        exact Or.inl (Nat.le_refl _)

theorem bounded_refreshed (roomy : model.Roomy bound) (holds : store.Holds label model)
    (bounded : store.Bounded label bound) {cls : ClassId} (inside : cls.index < store.size) :
    (store.update (store.root cls) fun _ => store.refreshed (store.root cls)).Bounded label
      bound := by
  intro other
  rw [extent_refresh inside]
  split
  · rename_i same
    rw [← holds.root other, same, holds.root]
    apply refreshed_extent_le.2
    exact ⟨bounded cls, fun slot member => slotReach_le_bound roomy holds bounded member _⟩
  · exact bounded other

theorem bounded_unites {after : Store} {a b : ClassId} {merge : Merge}
    (unites : Unites store a b merge after) (before : ∀ cls, label (store.root cls) = label cls)
    (rootLabel : ∀ cls, label (after.root cls) = label cls) (same : label a = label b)
    (bounded : store.Bounded label bound) : after.Bounded label bound := by
  intro cls
  unfold extent
  rw [unites.constraint]
  split
  · rename_i root
    have ends : label merge.root = label merge.absorbed := (unites.label_eq_iff before).2 same
    have here : label cls = label merge.root := by rw [← root, rootLabel]
    show max (store.extent merge.root) (store.extent merge.absorbed) ≤ _
    rw [le_max_extent, here]
    exact ⟨bounded merge.root, ends ▸ bounded merge.absorbed⟩
  · exact bounded cls

end Store

namespace Propagation

variable {schedule : Schedule} {state after final : Propagation}

theorem bounded_leads_of (leads : Step.Leads schedule state after) (inside : state.Inside)
    (holds : after.Holds label model) (bounded : state.store.Bounded label bound)
    (refines : ∀ cls : ClassId, cls.index < state.store.size → after.pending = [] →
      after.store = state.store.update (state.store.root cls) (fun _ =>
        state.store.refreshed (state.store.root cls)) → after.store.Bounded label bound) :
    after.store.Bounded label bound := by
  -- A merge keeps to a bound that both ends of the pair share. How refining does is up to the
  -- caller.
  have before := holds_of_leads leads inside holds
  cases leads with
  | same a b pending same store =>
    rw [store]
    exact bounded
  | united a b more merge pending found =>
    have first : (a, b) ∈ state.pending := by
      rw [pending]
      exact List.mem_cons_self
    exact Store.bounded_unites (inside.unites pending found) before.1.root holds.1.root
      (before.2 (a, b) first) bounded
  | refined cls more pending worklist rest store =>
    exact refines cls (inside.first worklist) rest store

theorem bounded_leads (roomy : model.Roomy bound) (leads : Step.Leads schedule state after)
    (inside : state.Inside) (holds : after.Holds label model)
    (bounded : state.store.Bounded label bound) : after.store.Bounded label bound := by
  apply bounded_leads_of leads inside holds bounded
  intro cls clsInside _ store
  rw [store]
  exact Store.bounded_refreshed roomy (holds_of_leads leads inside holds).1 bounded clsInside

theorem Steps.bounded {count : Nat} (roomy : model.Roomy bound)
    (steps : Steps schedule count state final) (inside : state.Inside)
    (holds : final.Holds label model) (bounded : state.store.Bounded label bound) :
    final.store.Bounded label bound := by
  induction steps with
  | none => exact bounded
  | next found later ih =>
    have leads := @leads schedule _ _ _ found
    have insideNext := inside_leads leads inside
    have next := later.holds_of insideNext holds
    exact ih insideNext holds (bounded_leads roomy leads inside next bounded)

end Propagation

end TypeRecovery
