import TypeRecovery.Proofs.Model
import TypeRecovery.Proofs.PropagationSteps
/-!
Propagation computes a least congruence. A labelling of the classes holds in a model when classes of
one root have one label and every constraint holds at the label of its class. No step changes which
labellings hold and agree with the pairs that still wait. So at the end, when none waits, the roots
are such a labelling, and classes have one root exactly when every such labelling makes them equal:
when they were one before, or are a pair, or are found in one role of classes that are one.
-/
namespace TypeRecovery

section

variable {Label : Type} {label : ClassId → Label} {model : Model Label}

namespace Store

structure Holds (label : ClassId → Label) (model : Model Label) (store : Store) : Prop where
  root : ∀ cls, label (store.root cls) = label cls
  constraint : ∀ cls, (store.constraint cls).Holds label model (label cls)

def RefersInside (store : Store) : Prop :=
  ∀ {cls role target}, (store.constraint cls).Refers role target → target.index < store.size

def Each (Kept : Constraint → Prop) (store : Store) : Prop := ∀ cls, Kept (store.constraint cls)

theorem each_fresh {Kept : Constraint → Prop} {store : Store} {constraint : Constraint}
    (each : store.Each Kept) (new : Kept constraint) : (store.fresh constraint).2.Each Kept := by
  intro cls
  rw [constraint_fresh]
  split
  · exact new
  · exact each cls

theorem refersInside_withLocations (count : Nat) : (withLocations count).RefersInside := by
  intro cls role target refers
  rw [constraint_withLocations] at refers
  exact absurd refers (Constraint.not_refers_of_none rfl rfl rfl role target)

theorem refersInside_fresh {store : Store} {constraint : Constraint} (inside : store.RefersInside)
    (new : ∀ {role target}, constraint.Refers role target → target.index ≤ store.size) :
    (store.fresh constraint).2.RefersInside := by
  intro cls role target refers
  rw [size_fresh]
  rw [constraint_fresh] at refers
  split at refers
  · exact Nat.lt_succ_of_le (new refers)
  · exact Nat.lt_succ_of_lt (inside refers)

theorem holds_of_unites {store after : Store} {a b : ClassId} {merge : Merge}
    (unites : Unites store a b merge after) (holds : after.Holds label model)
    (agree : Agree label merge.implied) : store.Holds label model ∧ label a = label b := by
  have rootLabel (cls : ClassId) : label (store.root cls) = label cls := by
    have same : after.root (store.root cls) = after.root cls := by
      rw [unites.root, unites.root cls, root_root]
    rw [← holds.root (store.root cls), same, holds.root]
  have joined {cls : ClassId} (root : after.root cls = merge.root) :
      ((store.constraint merge.root).join (store.constraint merge.absorbed)).Holds label model
        (label cls) := by
    have held := holds.constraint cls
    rw [unites.constraint, if_pos root] at held
    exact held
  -- Either half of the joined constraint holds, the absorbed one by the pairs that were implied.
  have constraint (cls : ClassId) : (store.constraint cls).Holds label model (label cls) := by
    by_cases absorbed : store.root cls = merge.absorbed
    · rw [← store.constraint_root cls, absorbed]
      have held := joined (unites.root_eq_iff.2 (Or.inr absorbed))
      exact Constraint.holds_right_of_join held (unites.implied ▸ agree)
    · by_cases root : store.root cls = merge.root
      · rw [← store.constraint_root cls, root]
        exact Constraint.holds_left_of_join (joined (unites.root_eq_iff.2 (Or.inl root)))
      · have held := holds.constraint cls
        have apart : after.root cls ≠ merge.root := fun same =>
          (unites.root_eq_iff.1 same).elim root absorbed
        rwa [unites.constraint, if_neg apart] at held
  refine ⟨⟨rootLabel, constraint⟩, (unites.label_eq_iff rootLabel).1 ?_⟩
  have moved : after.root merge.absorbed = merge.root :=
    unites.root_eq_iff.2 (Or.inr unites.isRoot.2)
  rw [← holds.root merge.absorbed, moved]

theorem holds_unites (unique : model.Unique) {store after : Store} {a b : ClassId} {merge : Merge}
    (unites : Unites store a b merge after) (holds : store.Holds label model)
    (same : label a = label b) : after.Holds label model ∧ Agree label merge.implied := by
  have ends : label merge.root = label merge.absorbed := (unites.label_eq_iff holds.root).2 same
  have rootLabel (cls : ClassId) : label (after.root cls) = label cls := by
    rw [unites.root]
    split
    · rename_i absorbed
      rw [ends, ← absorbed, holds.root]
    · exact holds.root cls
  have left := holds.constraint merge.root
  have right := holds.constraint merge.absorbed
  rw [← ends] at right
  refine ⟨⟨rootLabel, fun cls => ?_⟩, ?_⟩
  · rw [unites.constraint]
    split
    · rename_i root
      rw [← rootLabel cls, root]
      exact Constraint.holds_join left right
    · exact holds.constraint cls
  · rw [unites.implied]
    exact Constraint.agree_implied unique left right

theorem refersInside_unites {store after : Store} {a b : ClassId} {merge : Merge}
    (unites : Unites store a b merge after) (inside : store.RefersInside) :
    after.RefersInside := by
  intro cls role target refers
  rw [unites.constraint] at refers
  rw [unites.size]
  split at refers
  · exact (Constraint.refers_of_join refers).elim inside inside
  · exact inside refers

theorem refers_refreshed {store : Store} {cls : ClassId} {role : Role} {target : ClassId} :
    (store.refreshed cls).Refers role target ↔
      ∃ old, (store.constraint cls).Refers role old ∧ store.root old = target := by
  rw [← Constraint.refers_relink]
  exact Iff.rfl

theorem holds_refreshed {store : Store} (root : ∀ cls, label (store.root cls) = label cls)
    {here : Label} (cls : ClassId) :
    (store.refreshed cls).Holds label model here ↔
      (store.constraint cls).Holds label model here := by
  rw [← Constraint.holds_relink root (store.constraint cls)]
  constructor
  · rintro ⟨has, refers⟩
    exact ⟨fun trait given => has trait (by cases trait <;> exact given), refers⟩
  · rintro ⟨has, refers⟩
    exact ⟨fun trait given => has trait (by cases trait <;> exact given), refers⟩

theorem holds_refresh {store : Store} {cls : ClassId} (inside : cls.index < store.size) :
    (store.update (store.root cls) fun _ => store.refreshed (store.root cls)).Holds label model ↔
      store.Holds label model := by
  have changed (other : ClassId) :=
    constraint_update (root_inside inside) (fun _ => store.refreshed (store.root cls)) other
  simp only [root_root] at changed
  constructor
  · rintro ⟨root, constraint⟩
    refine ⟨root, fun other => ?_⟩
    have held := constraint other
    rw [changed] at held
    split at held
    · rename_i same
      rw [← store.constraint_root other, same]
      have rootLabel : ∀ cls, label (store.root cls) = label cls := root
      exact (holds_refreshed rootLabel _).1 held
    · exact held
  · rintro ⟨root, constraint⟩
    refine ⟨root, fun other => ?_⟩
    rw [changed]
    split
    · rename_i same
      rw [holds_refreshed root, ← same, store.constraint_root other]
      exact constraint other
    · exact constraint other

theorem refersInside_refresh {store : Store} {cls : ClassId} (inside : cls.index < store.size)
    (refersInside : store.RefersInside) :
    (store.update (store.root cls) fun _ => store.refreshed (store.root cls)).RefersInside := by
  intro other role target refers
  rw [constraint_update (root_inside inside)] at refers
  split at refers
  · rcases refers_refreshed.1 refers with ⟨old, known, rfl⟩
    exact root_inside (refersInside known)
  · exact refersInside refers

end Store

namespace Propagation

variable {schedule : Schedule} {state after : Propagation}

/-- All classes that a state mentions are in its store. -/
structure Inside (state : Propagation) : Prop where
  refers : state.store.RefersInside
  pending : ∀ pair ∈ state.pending,
    pair.1.index < state.store.size ∧ pair.2.index < state.store.size
  worklist : ∀ cls ∈ state.worklist, cls.index < state.store.size
  referrers : ∀ cls, ∀ referrer ∈ state.referrersOf cls, referrer.index < state.store.size
  table : state.referrers.size = state.store.size

def Holds (label : ClassId → Label) (model : Model Label) (state : Propagation) : Prop :=
  state.store.Holds label model ∧ Agree label state.pending

theorem Inside.unites (inside : state.Inside) {a b : ClassId} {more : List ClassPair}
    {merge : Merge} {store : Store} (pending : state.pending = (a, b) :: more)
    (found : state.store.union a b = some (merge, store)) :
    Store.Unites state.store a b merge store := by
  have ends := inside.pending (a, b) (by rw [pending]; exact List.mem_cons_self)
  exact Store.union_some ends.1 ends.2 found

theorem Inside.first (inside : state.Inside) {cls : ClassId} {more : List ClassId}
    (worklist : state.worklist = cls :: more) : cls.index < state.store.size :=
  inside.worklist cls (by rw [worklist]; exact List.mem_cons_self)

theorem size_leads (leads : Step.Leads schedule state after) (inside : state.Inside) :
    after.store.size = state.store.size := by
  cases leads with
  | same a b pending same store => rw [store]
  | united a b more merge pending found => exact (inside.unites pending found).size
  | refined cls more pending worklist rest store =>
    rw [store]
    rfl

theorem refersInside_leads (leads : Step.Leads schedule state after) (inside : state.Inside) :
    after.store.RefersInside := by
  cases leads with
  | same a b pending same store => exact store ▸ inside.refers
  | united a b more merge pending found =>
    exact Store.refersInside_unites (inside.unites pending found) inside.refers
  | refined cls more pending worklist rest store =>
    rw [store]
    exact Store.refersInside_refresh (inside.first worklist) inside.refers

theorem pending_leads (leads : Step.Leads schedule state after) (inside : state.Inside) :
    ∀ pair ∈ after.pending, pair.1.index < state.store.size ∧ pair.2.index < state.store.size := by
  -- The pairs that a merge implies come from two constraints of the store.
  intro pair member
  cases leads with
  | same a b pending =>
    exact inside.pending pair (by rw [pending]; exact List.mem_cons_of_mem _ member)
  | united a b more merge pending found rest =>
    rw [rest] at member
    rcases List.mem_append.1 member with waiting | implied
    · exact inside.pending pair (by rw [pending]; exact List.mem_cons_of_mem _ waiting)
    · rw [(inside.unites pending found).implied] at implied
      rcases Constraint.refers_of_implied implied with ⟨role, first, second⟩
      exact ⟨first.elim inside.refers inside.refers, inside.refers second⟩
  | refined cls more pending worklist rest =>
    rw [rest] at member
    cases member

theorem table_leads (leads : Step.Leads schedule state after) (inside : state.Inside) :
    after.referrers.size = state.store.size := by
  cases leads with
  | same a b pending same store worklist referrers => rw [referrers, inside.table]
  | united a b more merge pending found rest worklist referrers =>
    rw [referrers]
    simpa using inside.table
  | refined cls more pending worklist rest store table => rw [table, inside.table]

theorem referrers_leads (leads : Step.Leads schedule state after) (inside : state.Inside) :
    ∀ cls, ∀ referrer ∈ after.referrersOf cls, referrer.index < state.store.size := by
  have table := table_leads leads inside
  intro cls referrer member
  cases leads with
  | same a b pending same store worklist referrers =>
    unfold referrersOf at member
    rw [referrers] at member
    exact inside.referrers cls referrer member
  | united a b more merge pending found rest worklist referrers =>
    unfold referrersOf at member
    rw [referrers] at member
    exact (mem_movedReferrers member).elim (inside.referrers cls referrer)
      (inside.referrers merge.absorbed referrer)
  | refined other more pending worklist rest store _ members =>
    by_cases listed : cls.index < state.referrers.size
    · rcases (members referrer cls listed).1 member with known | ⟨rfl, _⟩
      · exact inside.referrers cls referrer known
      · exact Store.root_inside (inside.first worklist)
    · have unlisted : after.referrers.size ≤ cls.index := by
        rw [table, ← inside.table]
        exact Nat.le_of_not_lt listed
      simp [referrersOf, Array.getElem?_eq_none unlisted] at member

theorem worklist_leads (leads : Step.Leads schedule state after) (inside : state.Inside) :
    ∀ cls ∈ after.worklist, cls.index < state.store.size := by
  have referrersInside := referrers_leads leads inside
  intro cls member
  cases leads with
  | same a b pending same store worklist =>
    rw [worklist] at member
    exact inside.worklist cls member
  | united a b more merge pending found rest worklist =>
    have ends := inside.pending (a, b) (by rw [pending]; exact List.mem_cons_self)
    rw [worklist, Distinct.mem_addAll, Distinct.mem_add] at member
    rcases member with (waiting | rfl) | referrer
    · exact inside.worklist cls waiting
    · exact ((inside.unites pending found).inside ends.1 ends.2).1
    · exact referrersInside _ cls ((schedule.arrange_perm _ _).mem_iff.1 referrer)
  | refined other more pending worklist rest store _ _ requeued =>
    have waiting (member : cls ∈ more) : cls.index < state.store.size :=
      inside.worklist cls (by rw [worklist]; exact List.mem_cons_of_mem _ member)
    rw [requeued] at member
    split at member
    · rcases Distinct.mem_addAll.1 member with kept | referrer
      · exact waiting kept
      · exact referrersInside _ cls ((schedule.arrange_perm _ _).mem_iff.1 referrer)
    · exact waiting member

theorem inside_leads (leads : Step.Leads schedule state after) (inside : state.Inside) :
    after.Inside := by
  have size := size_leads leads inside
  constructor
  · exact refersInside_leads leads inside
  · rw [size]
    exact pending_leads leads inside
  · rw [size]
    exact worklist_leads leads inside
  · rw [size]
    exact referrers_leads leads inside
  · rw [size]
    exact table_leads leads inside

/-- What holds after a step and agrees with the waiting pairs did so before. -/
theorem holds_of_leads (leads : Step.Leads schedule state after) (inside : state.Inside)
    (holds : after.Holds label model) : state.Holds label model := by
  rcases holds with ⟨holds, agree⟩
  cases leads with
  | same a b pending same store =>
    rw [store] at holds
    refine ⟨holds, ?_⟩
    rw [pending]
    refine List.forall_mem_cons.2 ⟨?_, agree⟩
    rw [← holds.root a, same, holds.root]
  | united a b more merge pending found rest =>
    rw [rest, agree_append] at agree
    rcases Store.holds_of_unites (inside.unites pending found) holds agree.2 with
      ⟨before, same⟩
    refine ⟨before, ?_⟩
    rw [pending]
    exact List.forall_mem_cons.2 ⟨same, agree.1⟩
  | refined cls more pending worklist rest store =>
    have clsInside := inside.first worklist
    rw [store] at holds
    refine ⟨(Store.holds_refresh clsInside).1 holds, ?_⟩
    rw [pending]
    exact List.forall_mem_nil _

theorem holds_leads (unique : model.Unique) (leads : Step.Leads schedule state after)
    (inside : state.Inside) (holds : state.Holds label model) : after.Holds label model := by
  rcases holds with ⟨holds, agree⟩
  cases leads with
  | same a b pending same store =>
    rw [pending] at agree
    exact ⟨store ▸ holds, (List.forall_mem_cons.1 agree).2⟩
  | united a b more merge pending found rest =>
    have unites := inside.unites pending found
    rw [pending] at agree
    rcases Store.holds_unites unique unites holds (List.forall_mem_cons.1 agree).1 with
      ⟨holds, implied⟩
    refine ⟨holds, ?_⟩
    rw [rest]
    exact agree_append.2 ⟨(List.forall_mem_cons.1 agree).2, implied⟩
  | refined cls more pending worklist rest store =>
    have clsInside := inside.first worklist
    rw [pending] at agree
    refine ⟨?_, rest ▸ agree⟩
    rw [store]
    exact (Store.holds_refresh clsInside).2 holds

theorem each_leads {Kept : Constraint → Prop}
    (join : ∀ {a b}, Kept a → Kept b → Kept (a.join b))
    (refresh : ∀ {a} find extent, Kept a → Kept { a.relink find with extent })
    (leads : Step.Leads schedule state after) (inside : state.Inside)
    (each : state.store.Each Kept) : after.store.Each Kept := by
  cases leads with
  | same a b pending same store => exact store ▸ each
  | united a b more merge pending found rest =>
    intro cls
    rw [(inside.unites pending found).constraint]
    split
    · exact join (each _) (each _)
    · exact each cls
  | refined cls more pending worklist rest store =>
    have clsInside := inside.first worklist
    intro other
    rw [store, Store.constraint_update (Store.root_inside clsInside)]
    split
    · exact refresh _ _ (each _)
    · exact each other

theorem inside_start {store : Store} {pairs : List ClassPair} (refers : store.RefersInside)
    (pairsInside : ∀ pair ∈ pairs, pair.1.index < store.size ∧ pair.2.index < store.size) :
    (start store pairs).Inside where
  refers := refers
  pending := pairsInside
  worklist cls member := by
    rcases List.mem_map.1 (List.mem_filter.1 member).1 with ⟨place, inside, rfl⟩
    exact List.mem_range.1 inside
  referrers cls referrer member := by
    simp [start, referrersOf, Array.getElem?_replicate] at member
    split at member <;> cases member
  table := by simp [start]

theorem inside_of_contains {store : Store} {pairs : List ClassPair} (refers : store.RefersInside)
    (pairsInside : ∀ pair ∈ pairs, store.contains pair.1 ∧ store.contains pair.2) :
    (start store pairs).Inside :=
  inside_start refers fun pair member =>
    (pairsInside pair member).imp of_decide_eq_true of_decide_eq_true

variable {count : Nat} {final : Propagation}

theorem Steps.inside (steps : Steps schedule count state final) (inside : state.Inside) :
    final.Inside :=
  steps.keeps (fun found inside => inside_leads (leads found) inside) inside

theorem Steps.size (steps : Steps schedule count state final) (inside : state.Inside) :
    final.store.size = state.store.size := by
  induction steps with
  | none => rfl
  | next found _ ih =>
    exact (ih (inside_leads (leads found) inside)).trans (size_leads (leads found) inside)

theorem Steps.each {Kept : Constraint → Prop}
    (join : ∀ {a b}, Kept a → Kept b → Kept (a.join b))
    (refresh : ∀ {a} find extent, Kept a → Kept { a.relink find with extent })
    (steps : Steps schedule count state final) (inside : state.Inside)
    (each : state.store.Each Kept) : final.store.Each Kept := by
  induction steps with
  | none => exact each
  | next found _ ih =>
    exact ih (inside_leads (leads found) inside) (each_leads join refresh (leads found) inside each)

theorem Steps.holds (unique : model.Unique) (steps : Steps schedule count state final)
    (inside : state.Inside) (holds : state.Holds label model) : final.Holds label model := by
  induction steps with
  | none => exact holds
  | next found _ ih =>
    exact ih (inside_leads (leads found) inside) (holds_leads unique (leads found) inside holds)

theorem Steps.holds_of (steps : Steps schedule count state final) (inside : state.Inside)
    (holds : final.Holds label model) : state.Holds label model := by
  induction steps with
  | none => exact holds
  | next found _ ih =>
    exact holds_of_leads (leads found) inside (ih (inside_leads (leads found) inside) holds)

theorem done_iff : state.next? = none ↔ state.pending = [] ∧ state.worklist = [] := by
  unfold next?
  split <;> simp [*]

end Propagation

end

namespace Constraint

theorem refers_unique {constraint : Constraint} (separate : Slot.Separate constraint.slots)
    {role : Role} {first second : ClassId} (one : constraint.Refers role first)
    (other : constraint.Refers role second) : first = second := by
  have signatures (one : ∃ signature, constraint.signature = some signature ∧
        signature.Refers role first)
      (other : ∃ signature, constraint.signature = some signature ∧
        signature.Refers role second) : ∃ signature : Signature,
      signature.Refers role first ∧ signature.Refers role second := by
    rcases one with ⟨signature, found, refers⟩
    rcases other with ⟨signature', found', refers'⟩
    cases found.symm.trans found'
    exact ⟨signature, refers, refers'⟩
  cases role with
  | pointee => exact Option.some.inj (one.symm.trans other)
  | slot offset size =>
    have same := Slot.eq_of_sameField separate one other ⟨rfl, rfl⟩
    exact congrArg Slot.cls same
  | result =>
    rcases signatures one other with ⟨signature, refers, refers'⟩
    exact refers.symm.trans refers'
  | param place =>
    rcases signatures one other with ⟨signature, refers, refers'⟩
    exact Option.some.inj (refers.symm.trans refers')

theorem separate_join {a b : Constraint} (separate : Slot.Separate a.slots) :
    Slot.Separate (a.join b).slots := Slot.addAll_separate b.slots separate

theorem separate_relink (find : ClassId → ClassId) {constraint : Constraint}
    (separate : Slot.Separate constraint.slots) :
    Slot.Separate (constraint.relink find).slots :=
  List.pairwise_map.2 (separate.imp fun apart => apart)

end Constraint

namespace Store

/-- Every constraint has at most one slot for each field. -/
def Separate (store : Store) : Prop := store.Each fun constraint => Slot.Separate constraint.slots

def model (store : Store) : Model ClassId where
  has cls trait := (store.constraint cls).Has trait
  refers cls role target :=
    ∃ known, (store.constraint cls).Refers role known ∧ store.root known = target

theorem model_unique {store : Store} (separate : store.Separate) : store.model.Unique := by
  rintro cls role target other ⟨known, refers, rfl⟩ ⟨known', refers', rfl⟩
  rw [Constraint.refers_unique (separate cls) refers refers']

theorem holds_model (store : Store) : store.Holds store.root store.model where
  root := store.root_root
  constraint cls := by
    refine ⟨fun trait has => ?_, fun role target refers => ⟨target, ?_, rfl⟩⟩
    · show (store.constraint (store.root cls)).Has trait
      rwa [store.constraint_root]
    · rwa [store.constraint_root]

/-- The least equivalence over the partition and the pairs under which related classes have related
pointees, slots for one field, results and parameters, as far as both have them. -/
inductive Congruent (store : Store) (pairs : List ClassPair) : ClassId → ClassId → Prop where
  | root {a b : ClassId} : store.root a = store.root b → Congruent store pairs a b
  | pair {a b : ClassId} : (a, b) ∈ pairs → Congruent store pairs a b
  | symm {a b : ClassId} : Congruent store pairs a b → Congruent store pairs b a
  | trans {a b c : ClassId} : Congruent store pairs a b → Congruent store pairs b c →
      Congruent store pairs a c
  | role {a b first second : ClassId} {role : Role} : Congruent store pairs a b →
      (store.constraint a).Refers role first → (store.constraint b).Refers role second →
      Congruent store pairs first second

variable {store : Store} {pairs : List ClassPair}

def congruence (store : Store) (pairs : List ClassPair) : Setoid ClassId where
  r := Congruent store pairs
  iseqv := ⟨fun _ => .root rfl, .symm, .trans⟩

/-- The classes up to the least congruence, with nothing but the references there are. -/
def quotientModel (store : Store) (pairs : List ClassPair) :
    Model (Quotient (store.congruence pairs)) where
  has _ _ := True
  refers here role target := ∃ cls known, (store.constraint cls).Refers role known ∧
    Quotient.mk _ cls = here ∧ Quotient.mk _ known = target

theorem quotientModel_unique (store : Store) (pairs : List ClassPair) :
    (store.quotientModel pairs).Unique := by
  rintro here role target other ⟨cls, known, refers, rfl, rfl⟩ ⟨cls', known', refers', same, rfl⟩
  have related : Congruent store pairs cls' cls := Quotient.exact same
  exact Quotient.sound (Congruent.role related.symm refers refers')

theorem holds_quotientModel (store : Store) (pairs : List ClassPair) :
    store.Holds (Quotient.mk (store.congruence pairs)) (store.quotientModel pairs) where
  root cls := Quotient.sound (Congruent.root (store.root_root cls))
  constraint cls := ⟨fun _ _ => trivial, fun _ known refers => ⟨cls, known, refers, rfl, rfl⟩⟩

theorem label_of_congruent {Label : Type} {label : ClassId → Label} {model : Model Label}
    (unique : model.Unique) (holds : store.Holds label model) (agree : Agree label pairs)
    {a b : ClassId} (congruent : Congruent store pairs a b) : label a = label b := by
  -- In a model one label plays a role for another, so roles carry equal labels on.
  induction congruent with
  | root same => rw [← holds.root, same, holds.root]
  | pair member => exact agree _ member
  | symm _ ih => exact ih.symm
  | trans _ _ first second => exact first.trans second
  | role _ refers refers' ih =>
    have one := (holds.constraint _).refers _ _ refers
    have other := (holds.constraint _).refers _ _ refers'
    rw [← ih] at other
    exact unique one other

/-- After propagation, the classes of one root are exactly the congruent ones. -/
theorem propagate_root_iff {schedule : Schedule} {cap : Nat} {after : Store} {work : Work}
    (refersInside : store.RefersInside) (separate : store.Separate)
    (pairsInside : ∀ pair ∈ pairs, store.contains pair.1 ∧ store.contains pair.2)
    (ran : store.propagate schedule cap pairs = (after, .ok work)) (a b : ClassId) :
    after.root a = after.root b ↔ Congruent store pairs a b := by
  have inside : (Propagation.start store pairs).Inside :=
    Propagation.inside_start refersInside fun pair member =>
      (pairsInside pair member).imp of_decide_eq_true of_decide_eq_true
  rcases Propagation.run_ok (congrArg Prod.snd ran) with ⟨count, _, final, steps, done, store', _⟩
  have last : after = final.store := (congrArg Prod.fst ran).symm.trans store'
  have settled := (Propagation.done_iff.1 done).1
  constructor
  · intro same
    -- The quotient by the congruence holds at the start, and so it does at the end.
    have holds := steps.holds (quotientModel_unique store pairs) inside
      ⟨holds_quotientModel store pairs, fun pair member => Quotient.sound (.pair member)⟩
    have labels : (Quotient.mk (store.congruence pairs) a) = Quotient.mk _ b := by
      rw [← holds.1.root a, ← holds.1.root b, ← last, same]
    exact Quotient.exact labels
  · intro congruent
    -- The roots at the end hold there, with no pair left, and so they did at the start.
    have separateAfter : final.store.Separate :=
      steps.each (fun left _ => Constraint.separate_join left)
        (fun find _ known => Constraint.separate_relink find known) inside separate
    rw [last]
    have last : final.Holds final.store.root final.store.model :=
      ⟨final.store.holds_model, by rw [settled]; exact List.forall_mem_nil _⟩
    have holds := steps.holds_of inside last
    exact label_of_congruent (model_unique separateAfter) holds.1 holds.2 congruent

def twoPointers : Store :=
  (((withLocations 2).fresh { pointee := some ⟨1⟩ }).2.fresh { pointee := some ⟨0⟩ }).2

theorem propagate_root_iff_twoPointers :
    twoPointers.RefersInside ∧ twoPointers.Separate ∧
      ∃ after work, twoPointers.propagate .listed 10 [(⟨2⟩, ⟨3⟩)] = (after, .ok work) ∧
        (after.root ⟨0⟩ = after.root ⟨1⟩ ↔ Congruent twoPointers [(⟨2⟩, ⟨3⟩)] ⟨0⟩ ⟨1⟩) := by
  have refersInside : twoPointers.RefersInside := by
    apply refersInside_fresh
    · apply refersInside_fresh
      · intro cls role target refers
        rw [constraint_withLocations] at refers
        cases role <;> simp [Constraint.Refers] at refers
      · intro role target refers
        cases role <;> simp [Constraint.Refers] at refers
        subst refers
        decide
    · intro role target refers
      cases role <;> simp [Constraint.Refers] at refers
      subst refers
      decide
  have separate : twoPointers.Separate := by
    apply each_fresh
    · apply each_fresh
      · intro cls
        rw [constraint_withLocations]
        exact List.Pairwise.nil
      · exact List.Pairwise.nil
    · exact List.Pairwise.nil
  have ran : twoPointers.propagate .listed 10 [(⟨2⟩, ⟨3⟩)] =
      ((twoPointers.propagate .listed 10 [(⟨2⟩, ⟨3⟩)]).1, .ok ⟨2, 1, 6⟩) := rfl
  exact ⟨refersInside, separate, _, _, ran,
    propagate_root_iff refersInside separate (by decide) ran ⟨0⟩ ⟨1⟩⟩

end Store

end TypeRecovery
