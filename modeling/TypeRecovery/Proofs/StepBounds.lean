import TypeRecovery.Proofs.Extents
/-!
Bounds on the steps of propagation. Of two references in one role a joined constraint keeps one, and
the other becomes an implied pair at most, so each reference is good for one merge besides the pairs
that wait already.

Where no class contains itself, refining goes in rounds, each through the classes that waited when
it began. The first round settles the classes that contain no other, every further one settles those
that contain none but settled ones, and after the last no class is sent back.
-/
namespace TypeRecovery

theorem ClassPair.length_distinct (a b : ClassId) : (distinct a b).length ≤ 1 := by
  unfold distinct
  split
  · exact Nat.zero_le 1
  · exact Nat.le_refl 1

theorem length_flatMap_le {Item Other : Type} {list : Item → List Other} {items : List Item}
    (short : ∀ item, (list item).length ≤ 1) : (items.flatMap list).length ≤ items.length := by
  induction items with
  | nil => exact Nat.le_refl 0
  | cons item rest ih =>
    have first := short item
    rw [List.flatMap_cons, List.length_append, List.length_cons]
    omega

namespace Slot

theorem length_add (slots : List Slot) (slot : Slot) :
    (add slots slot).1.length + (add slots slot).2.toList.length ≤ slots.length + 1 := by
  unfold add
  split
  · split
    · exact Nat.le_succ slots.length
    · exact Nat.le_refl _
  · exact Nat.le_of_eq (insert_perm slot slots).length_eq

theorem length_addAll (slots more : List Slot) :
    (addAll slots more).1.length + (addAll slots more).2.length ≤ slots.length + more.length := by
  induction more generalizing slots with
  | nil => exact Nat.le_refl _
  | cons slot rest ih =>
    have first := length_add slots slot
    have later := ih (add slots slot).1
    simp only [addAll, List.length_append, List.length_cons]
    omega

end Slot

namespace Signature

theorem length_references (signature : Signature) :
    signature.references.length = (signature.params.getD []).length + 1 := by
  rw [references, List.length_append, List.length_singleton]

theorem length_params_join (a b : Signature) : ((a.join b).params.getD []).length =
    max (a.params.getD []).length (b.params.getD []).length := by
  rcases a with ⟨_ | known, _⟩ <;> rcases b with ⟨_ | other, _⟩ <;> simp [join]
  omega

theorem length_references_join (a b : Signature) : (a.join b).references.length =
    max a.references.length b.references.length := by
  rw [length_references, length_references, length_references, length_params_join]
  omega

theorem length_implied (a b : Signature) :
    (a.implied b).length ≤ min a.references.length b.references.length := by
  have result := ClassPair.length_distinct a.ret b.ret
  have params := @length_flatMap_le (ClassId × ClassId) _
    (fun pair => ClassPair.distinct pair.1 pair.2)
    ((a.params.getD []).zip (b.params.getD [])) fun pair => ClassPair.length_distinct pair.1 pair.2
  rw [List.length_zip] at params
  rw [implied, List.length_append, length_references, length_references]
  omega

end Signature

namespace Constraint

theorem length_references (constraint : Constraint) : constraint.references.length =
    constraint.pointee.toList.length + constraint.slots.length +
      ((constraint.signature.map Signature.references).getD []).length := by
  rw [references, List.length_append, List.length_append, List.length_map]

theorem length_pointee_join (a b : Constraint) : (a.join b).pointee.toList.length =
    max a.pointee.toList.length b.pointee.toList.length := by
  rcases a with ⟨_, _, _, _, _, _ | _, _, _, _⟩ <;>
    rcases b with ⟨_, _, _, _, _, _ | _, _, _, _⟩ <;> rfl

theorem length_signature_join (a b : Constraint) :
    (((a.join b).signature.map Signature.references).getD []).length =
      max ((a.signature.map Signature.references).getD []).length
        ((b.signature.map Signature.references).getD []).length := by
  rcases a with ⟨_, _, _, _, _, _, _, _ | known, _⟩ <;>
    rcases b with ⟨_, _, _, _, _, _, _, _ | other, _⟩
  · rfl
  · exact (Nat.zero_max _).symm
  · exact (Nat.max_zero _).symm
  · exact Signature.length_references_join known other

theorem length_implied (a b : Constraint) : (a.implied b).length ≤
    min a.pointee.toList.length b.pointee.toList.length +
      (Slot.addAll a.slots b.slots).2.length +
      min ((a.signature.map Signature.references).getD []).length
        ((b.signature.map Signature.references).getD []).length := by
  simp only [implied, List.length_append]
  apply Nat.add_le_add
  · apply Nat.add_le_add_right
    cases a.pointee <;> cases b.pointee
    · exact Nat.le_refl 0
    · exact Nat.zero_le _
    · exact Nat.zero_le _
    · exact ClassPair.length_distinct _ _
  · cases a.signature <;> cases b.signature
    · exact Nat.le_refl 0
    · exact Nat.zero_le _
    · exact Nat.zero_le _
    · exact Signature.length_implied _ _

theorem length_join (a b : Constraint) : (a.join b).references.length + (a.implied b).length ≤
    a.references.length + b.references.length := by
  have pointees := length_pointee_join a b
  have slots := Slot.length_addAll a.slots b.slots
  have signatures := length_signature_join a b
  have implied := length_implied a b
  have joined : (a.join b).slots = (Slot.addAll a.slots b.slots).1 := rfl
  rw [length_references, length_references, length_references, joined]
  omega

end Constraint

namespace Store

def referenceCount (store : Store) : Nat :=
  (store.roots.map fun root => (store.constraint root).references.length).foldr (· + ·) 0

theorem total_perm {counts others : List Nat} (perm : counts.Perm others) :
    counts.foldr (· + ·) 0 = others.foldr (· + ·) 0 :=
  perm.foldr_eq' (fun count _ other _ total => Nat.add_left_comm other count total) 0

theorem nodup_roots (store : Store) : store.roots.Nodup := by
  unfold roots Forest.roots
  apply List.Nodup.sublist List.filter_sublist
  apply List.pairwise_map.2
  apply List.nodup_range.imp
  intro place other apart same
  exact apart (congrArg ClassId.index same)

theorem mem_roots_of_unites {store after : Store} {a b : ClassId} {merge : Merge}
    (unites : Unites store a b merge after) {cls : ClassId} :
    cls ∈ after.roots ↔ cls ∈ store.roots ∧ cls ≠ merge.absorbed := by
  rw [mem_roots, mem_roots, unites.size, unites.root]
  constructor
  · rintro ⟨inside, isRoot⟩
    split at isRoot
    · rename_i absorbed
      -- The class that stays was not under the absorbed one.
      rw [← isRoot, unites.isRoot.1] at absorbed
      exact absurd absorbed unites.apart
    · rename_i other
      rw [isRoot] at other
      exact ⟨⟨inside, isRoot⟩, other⟩
  · rintro ⟨⟨inside, isRoot⟩, other⟩
    refine ⟨inside, ?_⟩
    rw [isRoot, if_neg other]

theorem referenceCount_unites {store after : Store} {a b : ClassId} {merge : Merge}
    (unites : Unites store a b merge after) (aInside : a.index < store.size)
    (bInside : b.index < store.size) :
    after.referenceCount + merge.implied.length ≤ store.referenceCount := by
  -- The roots are the two that become one and the rest, whose constraints stay.
  have inside := unites.inside aInside bInside
  have ends : merge.root ∈ store.roots ∧ merge.absorbed ∈ store.roots :=
    ⟨mem_roots.2 ⟨inside.1, unites.isRoot.1⟩, mem_roots.2 ⟨inside.2, unites.isRoot.2⟩⟩
  let rest := (store.roots.erase merge.absorbed).erase merge.root
  have others : (store.roots.erase merge.absorbed).Perm (merge.root :: rest) := by
    apply List.perm_cons_erase
    exact (store.nodup_roots.mem_erase_iff).2 ⟨unites.apart, ends.1⟩
  have before : store.roots.Perm (merge.absorbed :: merge.root :: rest) :=
    (List.perm_cons_erase ends.2).trans (others.cons _)
  have later : after.roots.Perm (merge.root :: rest) := by
    refine List.Perm.trans ?_ others
    apply (List.perm_ext_iff_of_nodup after.nodup_roots (store.nodup_roots.erase _)).2
    intro cls
    rw [mem_roots_of_unites unites, store.nodup_roots.mem_erase_iff, and_comm]
  have restSame : rest.map (fun root => (after.constraint root).references.length) =
      rest.map fun root => (store.constraint root).references.length := by
    apply List.map_congr_left
    intro cls member
    have apart := ((store.nodup_roots.erase merge.absorbed).mem_erase_iff).1 member
    have isRoot := (mem_roots.1 (mem_roots_of_unites unites |>.2
      ((store.nodup_roots.mem_erase_iff.1 apart.2).symm))).2
    rw [unites.constraint, isRoot, if_neg apart.1]
  have stays : after.constraint merge.root =
      (store.constraint merge.root).join (store.constraint merge.absorbed) := by
    have isRoot := (mem_roots.1 ((mem_roots_of_unites unites).2 ⟨ends.1, unites.apart⟩)).2
    rw [unites.constraint, if_pos isRoot]
  have joined := (store.constraint merge.root).length_join (store.constraint merge.absorbed)
  unfold referenceCount
  rw [total_perm (before.map _), total_perm (later.map _), unites.implied]
  simp only [List.map_cons, List.foldr_cons, restSame, stays]
  omega

end Store

namespace Propagation

variable {schedule : Schedule} {state after : Propagation}

theorem Steps.trans {first second : Nat} {middle final : Propagation}
    (before : Steps schedule first state middle) (later : Steps schedule second middle final) :
    Steps schedule (first + second) state final := by
  induction before with
  | none => rwa [Nat.zero_add]
  | next found _ ih =>
    rw [Nat.add_right_comm]
    exact .next found (ih later)

/-- What a step takes from the pairs, it does not add to the references and the pairs together. -/
theorem pairs_leads (leads : Step.Leads schedule state after) (inside : state.Inside)
    (busy : state.pending ≠ []) :
    after.pending.length + after.store.referenceCount <
        state.pending.length + state.store.referenceCount ∧
      state.pending.length ≤ after.pending.length + 1 := by
  cases leads with
  | same a b pending same store worklist referrers =>
    rw [pending, store, List.length_cons]
    omega
  | united a b more merge pending found rest worklist referrers =>
    have ends := inside.pending (a, b) (by rw [pending]; exact List.mem_cons_self)
    have unites := Store.union_some ends.1 ends.2 found
    have fewer := Store.referenceCount_unites unites ends.1 ends.2
    rw [pending, rest, List.length_cons, List.length_append]
    omega
  | refined cls more pending => exact absurd pending busy

/-- Merging comes to an end, within a step for every pair and for every reference. -/
theorem exists_merged (inside : state.Inside) : ∃ count merged,
    Steps schedule count state merged ∧ merged.pending = [] ∧ state.pending.length ≤ count ∧
      count ≤ state.pending.length + state.store.referenceCount := by
  -- The pairs that wait and the references that may still become pairs are fewer after each step.
  induction bound : state.pending.length + state.store.referenceCount using Nat.strongRecOn
    generalizing state with
  | _ total ih =>
    cases pending : state.pending with
    | nil => exact ⟨0, state, .none state, pending, Nat.le_refl 0, Nat.zero_le _⟩
    | cons pair more =>
      have found : state.next? = some (.merge pair.1 pair.2, { state with pending := more }) := by
        simp only [next?, pending]
      have leads := @leads schedule _ _ _ found
      have fewer := pairs_leads leads inside (by simp [pending])
      obtain ⟨count, merged, steps, done, least, most⟩ :=
        ih _ (bound ▸ fewer.1) (inside_leads leads inside) rfl
      refine ⟨count + 1, merged, .next found steps, done, ?_, ?_⟩
      · rw [← pending]
        omega
      · omega

end Propagation

namespace Store

def Contains (store : Store) (outer inner : ClassId) : Prop :=
  ∃ slot ∈ (store.shape outer).slots, slot.cls = inner

def Acyclic (store : Store) : Prop := ∀ cls, ¬ Relation.TransGen store.Contains cls cls

/-- No way from field to field that begins with the class goes through more classes. -/
def Shallow (store : Store) : Nat → ClassId → Prop
  | 0, _ => False
  | depth + 1, cls => ∀ inner, store.Contains cls inner → store.Shallow depth inner

def Settled (store : Store) (depth : Nat) : Prop :=
  ∀ cls, store.root cls = cls → store.Shallow depth cls → store.Spans cls

variable {store after : Store}

theorem shallow_succ {depth : Nat} {cls : ClassId} (shallow : store.Shallow depth cls) :
    store.Shallow (depth + 1) cls := by
  induction depth generalizing cls with
  | zero => exact shallow.elim
  | succ depth ih => exact fun inner contains => ih (shallow inner contains)

theorem contains_inside (inside : store.RefersInside) {outer inner : ClassId}
    (contains : store.Contains outer inner) :
    outer.index < store.size ∧ inner.index < store.size := by
  obtain ⟨slot, member, rfl⟩ := contains
  constructor
  · apply Nat.lt_of_not_le
    intro outside
    rw [slots_of_outside outside] at member
    cases member
  · obtain ⟨old, held, rfl⟩ := List.mem_map.1 member
    have refers : (store.constraint outer).Refers (.slot old.offset old.size) old.cls := held
    exact root_inside (inside refers)

theorem Alike.contains (alike : Alike store after) : after.Contains = store.Contains := by
  funext outer inner
  unfold Contains
  rw [alike.shape]

theorem Alike.shallow (alike : Alike store after) {depth : Nat} {cls : ClassId} :
    after.Shallow depth cls ↔ store.Shallow depth cls := by
  induction depth generalizing cls with
  | zero => exact Iff.rfl
  | succ depth ih => simp only [Shallow, alike.contains, ih]

theorem length_le_size {classes : List ClassId} (distinct : classes.Nodup)
    (inside : ∀ cls ∈ classes, cls.index < store.size) : classes.length ≤ store.size := by
  have all : ∀ cls ∈ classes, cls ∈ (List.range store.size).map ClassId.mk := by
    intro cls member
    exact List.mem_map.2 ⟨cls.index, List.mem_range.2 (inside cls member), rfl⟩
  have bounded := distinct.length_le_of_subset all
  rwa [List.length_map, List.length_range] at bounded

theorem shallow_of_acyclic (inside : store.RefersInside) (acyclic : store.Acyclic) {cls : ClassId}
    (clsInside : cls.index < store.size) : store.Shallow store.size cls := by
  -- The classes on the way to a class are different from it, and so from each other.
  have from_way (depth : Nat) (way : List ClassId) (distinct : way.Nodup)
      (wayInside : ∀ outer ∈ way, outer.index < store.size) {cls : ClassId}
      (clsInside : cls.index < store.size)
      (leads : ∀ outer ∈ way, Relation.TransGen store.Contains outer cls)
      (length : depth + way.length = store.size) : store.Shallow depth cls := by
    induction depth generalizing way cls with
    | zero =>
      have apart : cls ∉ way := fun member => acyclic cls (leads cls member)
      have longer := length_le_size (List.nodup_cons.2 ⟨apart, distinct⟩)
        (List.forall_mem_cons.2 ⟨clsInside, wayInside⟩)
      rw [List.length_cons] at longer
      omega
    | succ depth ih =>
      intro inner contains
      have apart : cls ∉ way := fun member => acyclic cls (leads cls member)
      apply ih (cls :: way) (List.nodup_cons.2 ⟨apart, distinct⟩)
        (List.forall_mem_cons.2 ⟨clsInside, wayInside⟩) (contains_inside inside contains).2
      · intro outer member
        rcases List.mem_cons.1 member with rfl | earlier
        · exact .single contains
        · exact (leads outer earlier).tail contains
      · rw [List.length_cons]
        omega
  exact from_way store.size [] List.nodup_nil (List.forall_mem_nil _) clsInside
    (List.forall_mem_nil _) rfl

theorem acyclic_of_rank (rank : ClassId → Nat) (falls : ∀ place < store.size,
    ∀ slot ∈ (store.shape ⟨place⟩).slots, rank slot.cls < rank ⟨place⟩) : store.Acyclic := by
  have falls {outer inner : ClassId} (contains : store.Contains outer inner) :
      rank inner < rank outer := by
    obtain ⟨slot, member, rfl⟩ := contains
    apply falls outer.index _ slot member
    apply Nat.lt_of_not_le
    intro outside
    rw [slots_of_outside outside] at member
    cases member
  intro cls circle
  have lower {outer inner : ClassId} (way : Relation.TransGen store.Contains outer inner) :
      rank inner < rank outer := by
    induction way with
    | single contains => exact falls contains
    | tail _ contains ih => exact Nat.lt_trans (falls contains) ih
  exact Nat.lt_irrefl _ (lower circle)

theorem Refreshes.spans_of_settled {cls : ClassId} (refreshes : store.Refreshes cls after)
    {depth : Nat} (settled : store.Settled depth) {owner : ClassId}
    (isRoot : store.root owner = owner) (shallow : store.Shallow (depth + 1) owner)
    (spans : store.Spans owner ∨ owner = store.root cls) : after.Spans owner := by
  -- Refining a class settles it, and a settled class stays so when all that it contains is settled
  -- already.
  by_cases own : owner = store.root cls
  · rw [own]
    exact refreshes.spans
  · have spans := spans.resolve_right own
    apply spans_of_same refreshes.alike (refreshes.extent_of_apart isRoot own) _ spans
    intro slot member _
    have slotRoot := root_of_shape member
    by_cases moved : slot.cls = store.root cls
    · apply refreshes.extent_of_spans
      rw [← moved]
      exact settled slot.cls slotRoot (shallow slot.cls ⟨slot, member, rfl⟩)
    · exact refreshes.extent_of_apart slotRoot moved

end Store

namespace Propagation

variable {schedule : Schedule} {state : Propagation}

theorem nodup_leads {after : Propagation} (leads : Step.Leads schedule state after)
    (distinct : state.worklist.Nodup) : after.worklist.Nodup := by
  cases leads with
  | same a b pending same store worklist referrers => rwa [worklist]
  | united a b more merge pending found rest worklist referrers =>
    rw [worklist]
    exact Distinct.nodup_addAll (Distinct.nodup_add distinct merge.root) _
  | refined cls more pending worklist rest store size members requeued =>
    rw [worklist] at distinct
    have more := (List.nodup_cons.1 distinct).2
    rw [requeued]
    split
    · exact Distinct.nodup_addAll more _
    · exact more

theorem Steps.nodup {count : Nat} {final : Propagation} (steps : Steps schedule count state final)
    (distinct : state.worklist.Nodup) : final.worklist.Nodup :=
  steps.keeps (fun found kept => nodup_leads (leads found) kept) distinct

theorem exists_refined (inside : state.Inside) {cls : ClassId} {more : List ClassId}
    (pending : state.pending = []) (worklist : state.worklist = cls :: more) :
    ∃ after, Steps schedule 1 state after ∧ after.pending = [] ∧
      state.store.Refreshes cls after.store ∧
      (∃ later, after.worklist = more ++ later) ∧
      (state.store.Spans (state.store.root cls) → after.worklist = more) := by
  -- A class is refined. Those that wait behind it stay in front, and others follow if it grew.
  have found : state.next? = some (.refine cls, { state with worklist := more }) := by
    simp only [next?, pending, worklist]
  refine ⟨_, .next found (.none _), ?_⟩
  cases @leads schedule _ _ _ found with
  | same a b busy =>
    rw [pending] at busy
    cases busy
  | united a b _ _ busy =>
    rw [pending] at busy
    cases busy
  | refined cls' more' _ waiting rest store _ _ requeued =>
    rw [worklist] at waiting
    cases waiting
    refine ⟨rest, ⟨inside.first worklist, store⟩, ?_, ?_⟩
    · rw [requeued]
      split
      · exact Distinct.exists_addAll more _
      · exact ⟨[], (List.append_nil more).symm⟩
    · intro spans
      rw [requeued, if_neg]
      rw [Store.extent_refreshed_of_spans spans]
      exact UInt64.lt_irrefl _

/-- A round goes through the classes that wait when it begins, and settles what is nested deeper by
one than the classes that are settled already. -/
theorem exists_round {depth : Nat} {first later : List ClassId} (inside : state.Inside)
    (pending : state.pending = []) (worklist : state.worklist = first ++ later)
    (settled : state.store.Settled depth)
    (waits : ∀ owner, state.store.root owner = owner → state.store.Shallow (depth + 1) owner →
      state.store.Spans owner ∨ ∃ waiting ∈ first, state.store.root waiting = owner) :
    ∃ after, Steps schedule first.length state after ∧ after.pending = [] ∧
      Store.Alike state.store after.store ∧ after.store.Settled (depth + 1) := by
  induction first generalizing state later with
  | nil =>
    refine ⟨state, .none state, pending, .refl state.store, ?_⟩
    intro owner isRoot shallow
    rcases waits owner isRoot shallow with spans | ⟨_, member, _⟩
    · exact spans
    · cases member
  | cons cls more ih =>
    obtain ⟨middle, step, rest, refreshes, ⟨others, behind⟩, _⟩ :=
      @exists_refined schedule _ inside cls (more ++ later) pending worklist
    have alike := refreshes.alike
    have spans {owner : ClassId} :=
      @Store.Refreshes.spans_of_settled _ _ cls refreshes depth settled owner
    rw [List.append_assoc] at behind
    obtain ⟨after, steps, done, alikeAfter, settledAfter⟩ := ih (step.inside inside) rest behind
      (by
        intro owner isRoot shallow
        rw [alike.root] at isRoot
        rw [alike.shallow] at shallow
        exact spans isRoot (Store.shallow_succ shallow) (Or.inl (settled owner isRoot shallow)))
      (by
        intro owner isRoot shallow
        rw [alike.root] at isRoot
        rw [alike.shallow] at shallow
        rcases waits owner isRoot shallow with spanned | ⟨waiting, member, same⟩
        · exact Or.inl (spans isRoot shallow (Or.inl spanned))
        · rcases List.mem_cons.1 member with rfl | remains
          · exact Or.inl (spans isRoot shallow (Or.inr same.symm))
          · exact Or.inr ⟨waiting, remains, (alike.root waiting).trans same⟩)
    refine ⟨after, ?_, done, alike.trans alikeAfter, settledAfter⟩
    rw [List.length_cons, Nat.add_comm]
    exact step.trans steps

theorem length_worklist_le (inside : state.Inside) (distinct : state.worklist.Nodup) :
    state.worklist.length ≤ state.store.size :=
  Store.length_le_size distinct inside.worklist

theorem exists_settled (inside : state.Inside) (tracks : state.TracksExtents)
    (distinct : state.worklist.Nodup) (pending : state.pending = []) (depth : Nat) :
    ∃ count after, count ≤ depth * state.store.size ∧ Steps schedule count state after ∧
      after.pending = [] ∧ Store.Alike state.store after.store ∧ after.store.Settled depth := by
  induction depth with
  | zero =>
    refine ⟨0, state, Nat.zero_le _, .none state, pending, .refl state.store, ?_⟩
    intro owner _ shallow
    exact shallow.elim
  | succ depth ih =>
    obtain ⟨count, middle, bounded, steps, rest, alike, settled⟩ := ih
    have insideMiddle := steps.inside inside
    have tracksMiddle := steps.tracksExtents inside tracks
    have distinctMiddle := steps.nodup distinct
    have waits (owner : ClassId) (isRoot : middle.store.root owner = owner)
        (_ : middle.store.Shallow (depth + 1) owner) : middle.store.Spans owner ∨
          ∃ waiting ∈ middle.worklist, middle.store.root waiting = owner := by
      by_cases ownerInside : owner.index < middle.store.size
      · have either := tracksMiddle.upToDate owner ownerInside
        rw [isRoot] at either
        rcases either with waiting | upToDate
        · exact Or.inr waiting
        · exact Or.inl upToDate.reach
      · exact Or.inl (Store.spans_of_outside (Nat.le_of_not_lt ownerInside))
    obtain ⟨after, round, done, alikeAfter, settledAfter⟩ := @exists_round schedule _ depth
      middle.worklist [] insideMiddle rest (List.append_nil _).symm settled waits
    refine ⟨count + middle.worklist.length, after, ?_, steps.trans round, done,
      alike.trans alikeAfter, settledAfter⟩
    have short := length_worklist_le insideMiddle distinctMiddle
    rw [steps.size inside] at short
    rw [Nat.succ_mul]
    exact Nat.add_le_add bounded short

theorem exists_done_of_spans (inside : state.Inside) (pending : state.pending = [])
    (spans : ∀ cls, state.store.root cls = cls → state.store.Spans cls) :
    ∃ final, Steps schedule state.worklist.length state final ∧ final.next? = none := by
  -- A class that spans its slots does not grow when it is refined, so it sends none back.
  induction worklist : state.worklist generalizing state with
  | nil => exact ⟨state, .none state, done_iff.2 ⟨pending, worklist⟩⟩
  | cons cls more ih =>
    have own := spans _ (state.store.root_root cls)
    obtain ⟨middle, step, rest, refreshes, _, behind⟩ :=
      @exists_refined schedule _ inside cls more pending worklist
    have alike := refreshes.alike
    have extents := refreshes.extent_of_spans own
    obtain ⟨final, steps, done⟩ := ih (step.inside inside) rest
      (by
        intro owner isRoot
        rw [alike.root] at isRoot
        exact Store.spans_of_same alike (extents owner) (fun slot _ _ => extents slot.cls)
          (spans owner isRoot))
      (behind own)
    refine ⟨final, ?_, done⟩
    rw [List.length_cons, Nat.add_comm]
    exact step.trans steps

/-- Refining comes to an end, within one round more than fields are nested deep. -/
theorem exists_done_of_shallow (inside : state.Inside) (tracks : state.TracksExtents)
    (distinct : state.worklist.Nodup) (pending : state.pending = []) {depth : Nat}
    (shallow : ∀ cls : ClassId, cls.index < state.store.size → state.store.Shallow depth cls) :
    ∃ count final, count ≤ (depth + 1) * state.store.size ∧ Steps schedule count state final ∧
      final.next? = none := by
  obtain ⟨count, middle, bounded, steps, rest, alike, settled⟩ :=
    @exists_settled schedule _ inside tracks distinct pending depth
  have size := steps.size inside
  have spans (cls : ClassId) (isRoot : middle.store.root cls = cls) : middle.store.Spans cls := by
    by_cases clsInside : cls.index < middle.store.size
    · apply settled cls isRoot
      rw [alike.shallow]
      exact shallow cls (by rwa [← size])
    · exact Store.spans_of_outside (Nat.le_of_not_lt clsInside)
  obtain ⟨final, last, done⟩ :=
    @exists_done_of_spans schedule _ (steps.inside inside) rest spans
  refine ⟨count + middle.worklist.length, final, ?_, steps.trans last, done⟩
  have short := length_worklist_le (steps.inside inside) (steps.nodup distinct)
  rw [size] at short
  rw [Nat.succ_mul]
  exact Nat.add_le_add bounded short

end Propagation

end TypeRecovery
