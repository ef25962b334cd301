import Mathlib.Logic.Function.Iterate
import Mathlib.Logic.Relation
import TypeRecovery.Proofs.Extents
/-!
The partition after any calls on a store. Two classes have one root exactly when they are connected
by the pairs that were united. Looking a class up comes to an end, and it leaves all classes on the
way directly under the root, but that changes no root.
-/
namespace TypeRecovery

namespace Forest

variable {forest : Forest} {cls top : ClassId}

theorem iterate_parent_of_root (isRoot : forest.parent cls = cls) (steps : Nat) :
    forest.parent^[steps] cls = cls :=
  Function.iterate_fixed isRoot steps

theorem climb_eq_iterate (forest : Forest) (steps : Nat) (cls : ClassId) :
    Node.climb forest.nodes steps cls = forest.parent^[steps] cls := by
  induction steps generalizing cls with
  | zero => rfl
  | succ steps ih =>
    by_cases isRoot : forest.parent cls = cls
    · rw [climb_of_root isRoot, iterate_parent_of_root isRoot]
    · rw [climb_succ isRoot, ih, Function.iterate_succ_apply]

theorem rank_le_iterate (forest : Forest) (steps : Nat) (cls : ClassId) :
    forest.rank cls ≤ forest.rank (forest.parent^[steps] cls) := by
  induction steps generalizing cls with
  | zero => exact Nat.le_refl _
  | succ steps ih =>
    rw [Function.iterate_succ_apply]
    by_cases isRoot : forest.parent cls = cls
    · rw [isRoot]
      exact ih cls
    · exact Nat.le_trans (Nat.le_of_lt (rank_lt_parent isRoot)) (ih _)

theorem rank_lt_root (moved : cls ≠ forest.root cls) :
    forest.rank cls < forest.rank (forest.root cls) := by
  have climbs : forest.parent cls ≠ cls := fun isRoot => moved (root_of_root isRoot).symm
  rw [← forest.root_parent cls, root, climb_eq_iterate]
  exact Nat.lt_of_lt_of_le (rank_lt_parent climbs) (forest.rank_le_iterate _ _)

theorem rank_attach (forest : Forest) (child target cls : ClassId) :
    (forest.attach child target).rank cls = forest.rank cls := by
  unfold attach rank
  split
  · rename_i fits
    rw [Node.rankIn_set _ _ _ _ fits.1.1]
    split <;> simp [*]
  · rfl

theorem height_attach (forest : Forest) (child target : ClassId) :
    (forest.attach child target).height = forest.height := by
  unfold attach
  split <;> rfl

theorem iterate_attach {child target : ClassId} (above : forest.rank child < forest.rank cls)
    (steps : Nat) :
    (forest.attach child target).parent^[steps] cls = forest.parent^[steps] cls := by
  induction steps generalizing cls with
  | zero => rfl
  | succ steps ih =>
    rw [Function.iterate_succ_apply, Function.iterate_succ_apply]
    rcases forest.parent_attach child target cls with same | ⟨rfl, _⟩
    · rw [same]
      exact ih (Nat.lt_of_lt_of_le above (forest.rank_le_iterate 1 cls))
    · exact absurd above (Nat.lt_irrefl _)

theorem parent_compress_or (top : ClassId) (steps : Nat) (forest : Forest) (cls other : ClassId) :
    (compress top steps cls forest).parent other = forest.parent other ∨
      (compress top steps cls forest).parent other = top := by
  induction steps generalizing forest cls with
  | zero => exact Or.inl rfl
  | succ steps ih =>
    unfold compress
    split
    · exact Or.inl rfl
    · rcases ih (forest.attach cls top) (forest.parent cls) with kept | moved
      · rw [kept]
        exact (forest.parent_attach cls top other).imp_right And.right
      · exact Or.inr moved

theorem parent_compress {steps : Nat} (inside : cls.index < forest.size)
    (reaches : forest.root cls = top) (enough : forest.height ≤ steps + forest.rank cls)
    (place : Nat) : (compress top steps cls forest).parent (forest.parent^[place] cls) = top := by
  have settled (isRoot : forest.parent cls = cls) :
      forest.parent (forest.parent^[place] cls) = top := by
    rw [iterate_parent_of_root isRoot, isRoot, ← reaches, root_of_root isRoot]
  induction steps generalizing forest cls place with
  | zero => exact settled (forest.parent_climb 0 cls enough)
  | succ steps ih =>
    unfold compress
    split
    · rename_i ended
      subst ended
      exact settled (reaches ▸ forest.parent_root cls)
    rename_i apart
    have lower : forest.rank cls < forest.rank top := by
      rw [← reaches] at apart ⊢
      exact rank_lt_root apart
    have topInside : top.index < forest.size := reaches ▸ root_inside inside
    have moved : forest.parent cls ≠ cls := fun isRoot =>
      apart ((root_of_root isRoot).symm.trans reaches)
    cases place with
    | zero =>
      have attached : (forest.attach cls top).parent cls = top := by
        rw [parent_attach_of_fits inside topInside lower, if_pos rfl]
      rcases parent_compress_or top steps (forest.attach cls top) (forest.parent cls) cls with
        kept | moved
      · exact kept.trans attached
      · exact moved
    | succ place =>
      have climbs := rank_lt_parent moved
      have nextInside : (forest.parent cls).index < (forest.attach cls top).size := by
        rw [size_attach]
        exact forest.parent_inside cls inside
      have nextReaches : (forest.attach cls top).root (forest.parent cls) = top := by
        rw [← reaches, root_attach_root, root_parent]
      have nextEnough : (forest.attach cls top).height ≤
          steps + (forest.attach cls top).rank (forest.parent cls) := by
        rw [height_attach, rank_attach]
        omega
      rw [Function.iterate_succ_apply, ← iterate_attach climbs]
      refine ih nextInside nextReaches nextEnough place fun isRoot => ?_
      rw [iterate_parent_of_root isRoot, isRoot, ← nextReaches, root_of_root isRoot]

end Forest

namespace Store

variable {store after : Store}

theorem size_find (store : Store) (cls : ClassId) : (store.find cls).2.size = store.size :=
  Forest.size_find ..

theorem root_find (store : Store) (cls other : ClassId) :
    (store.find cls).2.root other = store.root other := Forest.root_find ..

theorem constraint_find (store : Store) (cls other : ClassId) :
    (store.find cls).2.constraint other = store.constraint other := by
  unfold constraint
  rw [root_find]
  rfl

inductive Call (Change : Type) where
  | fresh (constraint : Constraint)
  | union (a b : ClassId)
  | find (cls : ClassId)
  | sameClass (a b : ClassId)
  | classOf (loc : LocId)
  | refine (cls : ClassId) (constraint : Constraint)
  | edit (cls : ClassId) (change : Change)

namespace Call

variable {Change : Type}

def classes : Call Change → List ClassId
  | fresh _ => []
  | union a b | sameClass a b => [a, b]
  | find cls | refine cls _ | edit cls _ => [cls]
  | classOf loc => [loc.initialClass]

def pairs : Call Change → List ClassPair
  | union a b => [(a, b)]
  | _ => []

end Call

variable {Change : Type} (apply : Change → Constraint → Constraint)

def call (store : Store) : Call Change → Store
  | .fresh constraint => (store.fresh constraint).2
  | .union a b =>
    match store.union a b with
    | some (_, united) => united
    | none => ((store.find a).2.find b).2
  | .find cls => (store.find cls).2
  | .sameClass a b => ((store.find a).2.find b).2
  | .classOf loc => (store.find loc.initialClass).2
  | .refine cls constraint => ((store.find cls).2.refine cls constraint).2
  | .edit cls change => (store.find cls).2.update cls (apply change)

def callAll (store : Store) (calls : List (Call Change)) : Store := calls.foldl (call apply) store

/-- Every call is made on classes that exist at the time. -/
def Admits (store : Store) : List (Call Change) → Prop
  | [] => True
  | first :: rest => (∀ cls ∈ first.classes, cls.index < store.size) ∧
      Admits (store.call apply first) rest

instance decidableAdmits : (store : Store) → (calls : List (Call Change)) →
    Decidable (store.Admits apply calls)
  | _, [] => isTrue trivial
  | store, first :: rest =>
    have := decidableAdmits (store.call apply first) rest
    inferInstanceAs (Decidable (_ ∧ _))

def Connected (pairs : List ClassPair) : ClassId → ClassId → Prop :=
  Relation.EqvGen fun a b => (a, b) ∈ pairs

theorem Connected.append {pairs : List ClassPair} {a b : ClassId} (connected : Connected pairs a b)
    (more : List ClassPair) : Connected (pairs ++ more) a b :=
  Relation.EqvGen.mono (fun _ _ member => List.mem_append_left _ member) a b connected

theorem Connected.label_eq {Label : Type} {label : ClassId → Label} {pairs : List ClassPair}
    (agree : Agree label pairs) {a b : ClassId} (connected : Connected pairs a b) :
    label a = label b := by
  induction connected with
  | rel first second member => exact agree (first, second) member
  | refl _ => rfl
  | symm _ _ _ ih => exact ih.symm
  | trans _ _ _ _ _ first second => exact first.trans second

/-- The classes of one root are those that the pairs connect. -/
def Connects (pairs : List ClassPair) (store : Store) : Prop :=
  ∀ a b, store.root a = store.root b ↔ Connected pairs a b

section connects

variable {pairs : List ClassPair} {a b : ClassId}

theorem connects_withLocations (count : Nat) : (withLocations count).Connects [] := by
  intro a b
  have fixed (cls : ClassId) : (withLocations count).root cls = cls :=
    Forest.root_singletons count cls
  rw [fixed, fixed]
  constructor
  · rintro rfl
    exact .refl a
  · have none : Agree id [] := List.forall_mem_nil _
    exact fun connected => connected.label_eq none

namespace Connects

theorem to_root (connects : store.Connects pairs) (cls : ClassId) :
    Connected pairs cls (store.root cls) :=
  (connects _ _).1 (store.root_root cls).symm

theorem of_root (connects : store.Connects pairs)
    (same : ∀ cls, after.root cls = store.root cls) : after.Connects pairs := by
  intro a b
  rw [same, same]
  exact connects a b

/-- One more pair is accounted for by roots that make its classes one and part no others. -/
theorem pair (connects : store.Connects pairs) (joined : after.root a = after.root b)
    (kept : ∀ cls other, store.root cls = store.root other → after.root cls = after.root other)
    (reached : ∀ cls, Connected (pairs ++ [(a, b)]) cls (after.root cls)) :
    after.Connects (pairs ++ [(a, b)]) := by
  intro cls other
  constructor
  · intro same
    have back := reached other
    rw [← same] at back
    exact .trans _ _ _ (reached cls) (.symm _ _ back)
  · have old : Agree after.root pairs := fun pair member =>
      kept _ _ ((connects _ _).2 (.rel _ _ member))
    have new : Agree after.root [(a, b)] := List.forall_mem_singleton.2 joined
    exact fun connected => connected.label_eq (agree_append.2 ⟨old, new⟩)

theorem unites {merge : Merge} (unites : Unites store a b merge after)
    (connects : store.Connects pairs) : after.Connects (pairs ++ [(a, b)]) := by
  have up (cls : ClassId) : Connected (pairs ++ [(a, b)]) cls (store.root cls) :=
    (connects.to_root cls).append _
  have linked : Connected (pairs ++ [(a, b)]) merge.absorbed merge.root := by
    have pair : Connected (pairs ++ [(a, b)]) a b :=
      .rel _ _ (List.mem_append_right _ List.mem_cons_self)
    have through : Connected (pairs ++ [(a, b)]) (store.root a) (store.root b) :=
      .trans _ _ _ (.symm _ _ (up a)) (.trans _ _ _ pair (up b))
    rcases unites.roots with ⟨root, absorbed⟩ | ⟨root, absorbed⟩
    · rw [root, absorbed]
      exact .symm _ _ through
    · rw [root, absorbed]
      exact through
  have ends : after.root a = merge.root ∧ after.root b = merge.root := by
    rw [unites.root_eq_iff, unites.root_eq_iff]
    rcases unites.roots with ⟨root, absorbed⟩ | ⟨root, absorbed⟩
    · exact ⟨Or.inl root.symm, Or.inr absorbed.symm⟩
    · exact ⟨Or.inr absorbed.symm, Or.inl root.symm⟩
  refine connects.pair (ends.1.trans ends.2.symm) (fun cls other same => ?_) fun cls => ?_
  · rw [unites.root, unites.root, same]
  · rw [unites.root]
    split
    · rename_i absorbed
      exact .trans _ _ _ (absorbed ▸ up cls) linked
    · exact up cls

end Connects

variable {apply}

theorem root_call {call : Call Change} (alone : call.pairs = []) (cls : ClassId) :
    (store.call apply call).root cls = store.root cls := by
  cases call with
  | union a b => cases alone
  | fresh constraint => exact root_fresh ..
  | find found => exact root_find ..
  | sameClass a b => exact (root_find ..).trans (root_find ..)
  | classOf loc => exact root_find ..
  | refine refined constraint => exact (root_refine ..).trans (root_find ..)
  | edit edited change => exact root_find store edited cls

theorem connects_call {call : Call Change} (inside : ∀ cls ∈ call.classes, cls.index < store.size)
    (connects : store.Connects pairs) : (store.call apply call).Connects (pairs ++ call.pairs) := by
  by_cases alone : call.pairs = []
  · rw [alone, List.append_nil]
    exact connects.of_root (root_call alone)
  cases call with
  | union a b =>
    simp only [Store.call, Call.pairs]
    split
    · rename_i merge united found
      exact connects.unites (union_some (inside a (by simp [Call.classes]))
        (inside b (by simp [Call.classes])) found)
    · rename_i none
      have same (cls : ClassId) : ((store.find a).2.find b).2.root cls = store.root cls := by
        rw [root_find, root_find]
      refine connects.pair ?_ (fun cls other one => ?_) fun cls => ?_
      · rw [same, same, union_none.1 none]
      · rw [same, same, one]
      · rw [same]
        exact (connects.to_root cls).append _
  | _ => exact absurd rfl alone

theorem connects_callAll {calls : List (Call Change)} (admits : store.Admits apply calls)
    (connects : store.Connects pairs) :
    (store.callAll apply calls).Connects (pairs ++ calls.flatMap Call.pairs) := by
  induction calls generalizing store pairs with
  | nil =>
    rw [List.flatMap_nil, List.append_nil]
    exact connects
  | cons first rest ih =>
    rw [List.flatMap_cons, ← List.append_assoc]
    exact ih admits.2 (connects_call admits.1 connects)

end connects

/-- The answers of a store are those of the partition that the pairs generate. -/
structure Partitions (pairs : List ClassPair) (store : Store) : Prop where
  /-- Climbing from a class comes to a root. -/
  ends : ∀ cls, store.forest.parent (store.find cls).1 = (store.find cls).1 ∧
    ∃ steps, store.forest.parent^[steps] cls = (store.find cls).1
  /-- The way there is shortened to its end. -/
  shortened : ∀ cls, cls.index < store.size → ∀ steps,
    (store.find cls).2.forest.parent (store.forest.parent^[steps] cls) = (store.find cls).1
  kept : ∀ cls other, (store.find cls).2.root other = store.root other
  agrees : ∀ cls, (store.find cls).1 = store.root cls
  connected : ∀ a b, (store.find a).1 = (store.find b).1 ↔ Connected pairs a b
  sameClass : ∀ a b, store.sameClass a b = true ↔ Connected pairs a b
  classOf : ∀ loc other, store.classOf loc = (store.find other).1 ↔
    Connected pairs loc.initialClass other
  refused : ∀ a b, store.union a b = none ↔ Connected pairs a b
  united : ∀ a b merge after, a.index < store.size → b.index < store.size →
    store.union a b = some (merge, after) →
    (merge.root = store.root a ∧ merge.absorbed = store.root b ∨
      merge.root = store.root b ∧ merge.absorbed = store.root a) ∧
    merge.root ≠ merge.absorbed ∧
    ∀ cls, after.root cls =
      if store.root cls = merge.absorbed then merge.root else store.root cls
  ascending : store.roots.Pairwise fun a b => a.index < b.index
  listed : ∀ root ∈ store.roots, root.index < store.size
  represented : ∀ cls, cls.index < store.size →
    ∃! root, root ∈ store.roots ∧ Connected pairs root cls

theorem roots_ascending (store : Store) : store.roots.Pairwise fun a b => a.index < b.index := by
  apply List.Pairwise.filter
  rw [List.pairwise_map]
  exact List.pairwise_lt_range

theorem Connects.partitions {pairs : List ClassPair} (connects : store.Connects pairs) :
    store.Partitions pairs where
  ends cls := ⟨store.forest.parent_root cls, _, (store.forest.climb_eq_iterate _ cls).symm⟩
  shortened cls inside := Forest.parent_compress inside rfl (Nat.le_add_right _ _)
  kept := root_find store
  agrees _ := rfl
  connected := connects
  sameClass a b := decide_eq_true_iff.trans (connects a b)
  classOf loc := connects loc.initialClass
  refused a b := union_none.trans (connects a b)
  united a b merge after aInside bInside found :=
    have unites := union_some aInside bInside found
    ⟨unites.roots, unites.apart, unites.root⟩
  ascending := store.roots_ascending
  listed root member := (mem_roots.1 member).1
  represented cls inside := by
    refine ⟨store.root cls, ⟨root_mem_roots inside, .symm _ _ (connects.to_root cls)⟩, ?_⟩
    rintro root ⟨member, connected⟩
    rw [← (mem_roots.1 member).2]
    exact (connects root cls).2 connected

variable {apply}

/-- After any calls on classes that exist, the store answers as the pairs that were united say. -/
theorem callAll_partitions {count : Nat} {calls : List (Call Change)}
    (admits : (withLocations count).Admits apply calls) :
    ((withLocations count).callAll apply calls).Partitions (calls.flatMap Call.pairs) :=
  (connects_callAll admits (connects_withLocations count)).partitions

def turns : List (Call (Constraint → Constraint)) :=
  [.union ⟨0⟩ ⟨1⟩, .find ⟨1⟩, .fresh { maxAccess := 4 }, .union ⟨3⟩ ⟨1⟩, .sameClass ⟨2⟩ ⟨3⟩,
    .edit ⟨1⟩ fun _ => {}, .refine ⟨3⟩ { maxAccess := 8 }, .classOf ⟨2⟩]

theorem callAll_partitions_turns : (withLocations 3).Admits id turns ∧
    ((withLocations 3).callAll id turns).Partitions [(⟨0⟩, ⟨1⟩), (⟨3⟩, ⟨1⟩)] := by
  have admits : (withLocations 3).Admits id turns := by decide
  exact ⟨admits, callAll_partitions admits⟩

end Store
end TypeRecovery
