import TypeRecovery.Proofs.AnalysisOutcome
/-!
Stores that can be found in each other. Where the roots of one store have labels in another, and the
other way round, and going there and back leads to where one started, the two have the same classes
under other names: what is known of a class, what it refers to and how far it extends are the same.
What a typing reads of such stores is stated apart, for it does not matter how they came about.
-/
namespace TypeRecovery

theorem eq_of_accesses {a b : UInt8} (same : ∀ size, 0 < size → (size ≤ a ↔ size ≤ b)) :
    a = b := by
  have below {a b : UInt8} (same : ∀ size, 0 < size → (size ≤ a ↔ size ≤ b)) : a ≤ b := by
    by_cases nothing : a = 0
    · rw [nothing]
      exact UInt8.zero_le
    · exact (same a (UInt8.pos_iff_ne_zero.2 nothing)).1 (UInt8.le_refl a)
  exact UInt8.le_antisymm (below same) (below fun size positive => (same size positive).symm)

theorem eq_of_bounds {Value : Type} (bounds : Value → Value → Prop)
    (own : ∀ value, bounds value value) (apart : ∀ {a b}, bounds a b → bounds b a → a = b)
    {a b : Option Value} (same : ∀ least, (∃ value, a = some value ∧ bounds least value) ↔
      ∃ value, b = some value ∧ bounds least value) : a = b := by
  have bounded {a b : Option Value} {value : Value} (known : a = some value)
      (same : ∀ least, (∃ value, a = some value ∧ bounds least value) ↔
        ∃ value, b = some value ∧ bounds least value) :
      ∃ other, b = some other ∧ bounds value other :=
    (same value).1 ⟨value, known, own value⟩
  cases left : a with
  | none =>
    cases right : b with
    | none => rfl
    | some other =>
      obtain ⟨_, found, _⟩ := bounded right fun least => (same least).symm
      rw [left] at found
      cases found
  | some known =>
    obtain ⟨other, right, below⟩ := bounded left same
    obtain ⟨value, found, above⟩ := bounded right fun least => (same least).symm
    rw [left] at found
    cases found
    rw [right, apart below above]

theorem Kind.eq_of_strength {a b : Kind} (same : a.strength = b.strength) : a = b := by
  cases a <;> cases b <;> first | rfl | cases same

theorem Evidence.eq_of_mem {a b : Evidence} (same : ∀ flag, flag ∈ a ↔ flag ∈ b) : a = b := by
  obtain ⟨first⟩ := a
  obtain ⟨second⟩ := b
  congr 1
  apply BitVec.eq_of_getLsbD_eq
  intro place inside
  -- Every bit stands for a flag.
  obtain ⟨flag, rfl⟩ : ∃ flag : Flag, flag.bit = place := by
    have found : ∀ place : Fin 13, ∃ flag ∈ Flag.all, flag.bit = place.val := by decide
    obtain ⟨flag, _, bit⟩ := found ⟨place, inside⟩
    exact ⟨flag, bit⟩
  exact Bool.eq_iff_iff.2 (same flag)

theorem Slot.ordered_ext {a b : List Slot} (first : Ordered a) (second : Ordered b)
    (same : ∀ slot, slot ∈ a ↔ slot ∈ b) : a = b := by
  have irreflexive (slot : Slot) : ¬ slot.Before slot := by
    rintro (offset | ⟨_, size⟩)
    · exact absurd offset Int64.lt_irrefl
    · exact absurd size (UInt8.lt_irrefl slot.size)
  have nodup {slots : List Slot} (ordered : Ordered slots) : slots.Nodup := by
    apply ordered.imp
    rintro slot _ before rfl
    exact irreflexive slot before
  have perm := (List.perm_ext_iff_of_nodup (nodup first) (nodup second)).2 same
  apply perm.eq_of_pairwise _ first second
  intro slot other _ _ before after
  exact absurd (before.trans after) (irreflexive slot)

theorem Slot.eq_singleton {slots : List Slot} {slot : Slot} (ordered : Ordered slots)
    (member : slot ∈ slots) (same : ∀ other ∈ slots, other.SameField slot) : slots = [slot] := by
  apply ordered_ext ordered (List.pairwise_singleton _ _)
  intro other
  rw [List.mem_singleton]
  constructor
  · intro held
    exact eq_of_sameField (separate_of_ordered ordered) held member (same other held)
  · rintro rfl
    exact member

theorem Signature.ext_of_refers {a b : Signature} (arity : a.arity = b.arity)
    (refers : ∀ role cls, a.Refers role cls ↔ b.Refers role cls) : a = b := by
  obtain ⟨first, ret⟩ := a
  obtain ⟨second, ret'⟩ := b
  have params : first.getD [] = second.getD [] :=
    List.ext_getElem? fun place => Option.ext fun cls => refers (.param place) cls
  have returns : ret = ret' := ((refers .result ret).1 rfl).symm
  subst returns
  congr 1
  cases first <;> cases second <;> simp_all [Signature.arity]

theorem Constraint.signature_eq_of_refers {a b : Constraint} (arity : a.arity = b.arity)
    (refers : ∀ role cls, a.Refers role cls ↔ b.Refers role cls) : a.signature = b.signature := by
  cases left : a.signature with
  | none =>
    cases right : b.signature with
    | none => rfl
    | some other =>
      obtain ⟨_, found, _⟩ := (refers .result other.ret).2 ⟨other, right, rfl⟩
      rw [left] at found
      cases found
  | some known =>
    obtain ⟨other, right, _⟩ := (refers .result known.ret).1 ⟨known, left, rfl⟩
    have known : known = other := by
      apply Signature.ext_of_refers
      · simpa only [Constraint.arity, left, right, Option.bind_some] using arity
      · intro role cls
        cases role with
        | result => simpa [Refers, left, right] using refers .result cls
        | param place => simpa [Refers, left, right] using refers (.param place) cls
        | pointee => exact Iff.rfl
        | slot offset size => exact Iff.rfl
    rw [right, known]

namespace Constraint

variable {a b : Constraint}

theorem evidence_eq_of_has (same : ∀ flag, a.Has (.evidence flag) ↔ b.Has (.evidence flag)) :
    a.evidence = b.evidence := Evidence.eq_of_mem same

theorem maxAccess_eq_of_has (same : ∀ size, a.Has (.access size) ↔ b.Has (.access size)) :
    a.maxAccess = b.maxAccess := by
  apply eq_of_accesses
  intro size positive
  have same := same size
  simpa only [Has, positive, true_and] using same

theorem declaredName_eq_of_has (same : ∀ name, a.Has (.named name) ↔ b.Has (.named name)) :
    a.declaredName = b.declaredName :=
  eq_of_bounds (fun name declared => declared ≤ name) String.le_refl
    (fun above below => String.le_antisymm below above) same

theorem declaredWidth_eq_of_has (same : ∀ size, a.Has (.width size) ↔ b.Has (.width size)) :
    a.declaredWidth = b.declaredWidth :=
  eq_of_bounds (fun size declared => size ≤ declared) UInt8.le_refl
    (fun below above => UInt8.le_antisymm below above) same

theorem declaredKind_eq_of_has (same : ∀ kind, a.Has (.kind kind) ↔ b.Has (.kind kind)) :
    a.declaredKind = b.declaredKind :=
  eq_of_bounds (fun kind declared : Kind => kind.strength ≤ declared.strength)
    (fun kind => Nat.le_refl kind.strength)
    (fun below above => Kind.eq_of_strength (Nat.le_antisymm below above)) same

theorem arity_eq_of_has (same : ∀ count, a.Has (.arity count) ↔ b.Has (.arity count)) :
    a.arity = b.arity :=
  eq_of_bounds (fun count known => count ≤ known) Nat.le_refl
    (fun below above => Nat.le_antisymm below above) same

end Constraint

/-- A constraint that keeps its slots in order is what it says, but for its extent. -/
theorem Constraint.eq_of_has_of_refers {a b : Constraint} (has : ∀ trait, a.Has trait ↔ b.Has trait)
    (refers : ∀ role cls, a.Refers role cls ↔ b.Refers role cls)
    (first : Slot.Ordered a.slots) (second : Slot.Ordered b.slots) :
    ({ a with extent := 0 } : Constraint) = { b with extent := 0 } := by
  have evidence : a.evidence = b.evidence := evidence_eq_of_has fun flag => has (.evidence flag)
  have access : a.maxAccess = b.maxAccess := maxAccess_eq_of_has fun size => has (.access size)
  have width : a.declaredWidth = b.declaredWidth :=
    declaredWidth_eq_of_has fun size => has (.width size)
  have kind : a.declaredKind = b.declaredKind :=
    declaredKind_eq_of_has fun kind => has (.kind kind)
  have name : a.declaredName = b.declaredName :=
    declaredName_eq_of_has fun name => has (.named name)
  have arity : a.arity = b.arity := arity_eq_of_has fun count => has (.arity count)
  have pointee : a.pointee = b.pointee := Option.ext fun cls => refers .pointee cls
  have slots : a.slots = b.slots := by
    apply Slot.ordered_ext first second
    intro slot
    exact refers (.slot slot.offset slot.size) slot.cls
  have signature : a.signature = b.signature := signature_eq_of_refers arity refers
  obtain ⟨_, _, _, _, _, _, _, _, _⟩ := a
  obtain ⟨_, _, _, _, _, _, _, _, _⟩ := b
  simp_all

theorem Constraint.references_relink (find : ClassId → ClassId) (constraint : Constraint) :
    (constraint.relink find).references = constraint.references.map find := by
  rcases constraint with ⟨_, _, _, _, _, pointee, slots, signature, _⟩
  rcases signature with _ | ⟨_ | params, ret⟩ <;> cases pointee <;>
    simp [references, relink, Signature.relink, Signature.references]

namespace Store

def Reached (store : Store) : Prop :=
  ∀ good : ClassId → Prop,
    (∀ loc : LocId, loc.index < store.locationCount → good (store.classOf loc)) →
    (∀ {cls role target}, store.root cls = cls → good cls →
      (store.constraint cls).Refers role target → good (store.root target)) →
    ∀ cls : ClassId, cls.index < store.size → good (store.root cls)

theorem place_inside {store : Store} {loc : LocId} (declared : loc.index < store.locationCount) :
    loc.initialClass.index < store.size := Nat.lt_of_lt_of_le declared store.locations_inside

/-- What is known of a store when propagation ends. -/
structure Regular (store : Store) : Prop where
  inside : store.RefersInside
  ordered : store.Each fun constraint => Slot.Ordered constraint.slots
  reached : store.Reached
  closed : store.Closed store.extent

theorem Regular.unique {store : Store} (regular : store.Regular) : store.model.Unique :=
  model_unique fun cls => Slot.separate_of_ordered (regular.ordered cls)

/-- The classes of one store have labels in another, and from these one comes back to the roots. -/
structure Carries (left right : Store) (there back : ClassId → ClassId) : Prop where
  holds : left.Holds there right.model
  placed : ∀ loc : LocId, loc.index < left.locationCount →
    there loc.initialClass = right.classOf loc
  fixed : ∀ cls : ClassId, cls.index < left.size → right.root (there cls) = there cls
  returns : ∀ cls : ClassId, cls.index < left.size → back (there cls) = left.root cls

theorem carries {left right : Store} {there back : ClassId → ClassId}
    (leftRegular : left.Regular) (onward : left.Holds there right.model)
    (backward : right.Holds back left.model)
    (placed : ∀ loc : LocId, loc.index < left.locationCount →
      there loc.initialClass = right.classOf loc)
    (placedBack : ∀ loc : LocId, loc.index < left.locationCount →
      back loc.initialClass = left.classOf loc) :
    left.Carries right there back := by
  -- What comes back from the label of a class comes back from those of all that it refers to.
  let good (cls : ClassId) : Prop := right.root (there cls) = there cls ∧ back (there cls) = cls
  have all (cls : ClassId) (inside : cls.index < left.size) : good (left.root cls) := by
    apply leftRegular.reached good _ _ cls inside
    · intro loc declared
      have label : there (left.classOf loc) = right.classOf loc :=
        (onward.root loc.initialClass).trans (placed loc declared)
      constructor
      · rw [label]
        exact right.root_root loc.initialClass
      · rw [label]
        exact (backward.root loc.initialClass).trans (placedBack loc declared)
    · intro cls role target isRoot held refers
      obtain ⟨known, given, label⟩ := (onward.constraint cls).refers role target refers
      have returned : left.model.refers (back (there cls)) role (back known) :=
        (backward.constraint (there cls)).refers role known given
      rw [held.2] at returned
      have target : left.root target = back known :=
        leftRegular.unique ⟨target, refers, rfl⟩ returned
      have there : there (left.root _) = right.root known := (onward.root _).trans label.symm
      constructor
      · rw [there]
        exact right.root_root known
      · rw [there, backward.root, target]
  constructor
  · exact onward
  · exact placed
  · intro cls inside
    rw [← onward.root cls]
    exact (all cls inside).1
  · intro cls inside
    rw [← onward.root cls]
    exact (all cls inside).2

/-- The roots of one store have labels in another that are roots there, one each. The label of a
class has its constraint, but for the extent, and every class of either store is reached from the
locations. -/
structure Resembles (left right : Store) (there : ClassId → ClassId) : Prop where
  count : right.locationCount = left.locationCount
  inside : left.RefersInside
  insideToo : right.RefersInside
  reached : left.Reached
  reachedToo : right.Reached
  placed : ∀ loc : LocId, loc.index < left.locationCount →
    there loc.initialClass = right.classOf loc
  fixed : ∀ cls : ClassId, cls.index < left.size → right.root (there cls) = there cls
  there_root : ∀ cls : ClassId, there (left.root cls) = there cls
  injective : ∀ {first second : ClassId}, first.index < left.size → second.index < left.size →
    there first = there second → left.root first = left.root second
  shape : ∀ {cls : ClassId}, cls.index < left.size →
    right.shape (there cls) = { (left.constraint cls).relink there with extent := 0 }

theorem Resembles.width {left right : Store} {there : ClassId → ClassId}
    (same : left.Resembles right there) {cls : ClassId} (inside : cls.index < left.size) :
    right.width (there cls) = left.width cls := by
  rw [width_shape, same.shape inside]
  rfl

/-- The label of a class has the whole of its constraint. -/
structure Mirrors (left right : Store) (there : ClassId → ClassId) : Prop
    extends Resembles left right there where
  extent : ∀ {cls : ClassId}, cls.index < left.size → right.extent (there cls) = left.extent cls

/-- Two stores that have the same classes under other names. Extents may differ. -/
structure Renames (left right : Store) (there back : ClassId → ClassId) : Prop where
  count : right.locationCount = left.locationCount
  leftRegular : left.Regular
  rightRegular : right.Regular
  onward : left.Carries right there back
  backward : right.Carries left back there

namespace Renames

variable {left right : Store} {there back : ClassId → ClassId}

theorem symm (same : left.Renames right there back) : right.Renames left back there where
  count := same.count.symm
  leftRegular := same.rightRegular
  rightRegular := same.leftRegular
  onward := same.backward
  backward := same.onward

variable (same : left.Renames right there back)
include same

theorem there_root (cls : ClassId) : there (left.root cls) = there cls := same.onward.holds.root cls

theorem injective {first second : ClassId} (firstInside : first.index < left.size)
    (secondInside : second.index < left.size) (equal : there first = there second) :
    left.root first = left.root second := by
  rw [← same.onward.returns first firstInside, equal, same.onward.returns second secondInside]

theorem has_iff {cls : ClassId} (inside : cls.index < left.size) (trait : Trait) :
    (right.constraint (there cls)).Has trait ↔ (left.constraint cls).Has trait := by
  constructor
  · intro has
    have held : left.model.has (back (there cls)) trait :=
      (same.backward.holds.constraint (there cls)).has trait has
    rw [same.onward.returns cls inside] at held
    rwa [← left.constraint_root cls]
  · exact (same.onward.holds.constraint cls).has trait

theorem refers_iff {cls : ClassId} (inside : cls.index < left.size) (role : Role)
    (target : ClassId) :
    ((right.constraint (there cls)).relink right.root).Refers role target ↔
      ((left.constraint cls).relink there).Refers role target := by
  rw [Constraint.refers_relink, Constraint.refers_relink]
  constructor
  · rintro ⟨known, refers, rfl⟩
    have held : left.model.refers (back (there cls)) role (back known) :=
      (same.backward.holds.constraint (there cls)).refers role known refers
    rw [same.onward.returns cls inside] at held
    obtain ⟨old, given, root⟩ := held
    rw [left.constraint_root] at given
    refine ⟨old, given, ?_⟩
    rw [← same.there_root old, root, same.backward.returns known (same.rightRegular.inside refers)]
  · rintro ⟨old, refers, rfl⟩
    exact (same.onward.holds.constraint cls).refers role old refers

theorem shape {cls : ClassId} (inside : cls.index < left.size) :
    right.shape (there cls) = { (left.constraint cls).relink there with extent := 0 } := by
  apply Constraint.eq_of_has_of_refers
  · intro trait
    rw [Constraint.has_relink, Constraint.has_relink]
    exact same.has_iff inside trait
  · exact same.refers_iff inside
  · exact Constraint.ordered_relink right.root (same.rightRegular.ordered (there cls))
  · exact Constraint.ordered_relink there (same.leftRegular.ordered cls)

theorem resembles : left.Resembles right there where
  count := same.count
  inside := same.leftRegular.inside
  insideToo := same.rightRegular.inside
  reached := same.leftRegular.reached
  reachedToo := same.rightRegular.reached
  placed := same.onward.placed
  fixed := same.onward.fixed
  there_root := same.there_root
  injective := same.injective
  shape := same.shape

theorem closed {extent : ClassId → UInt64} (closed : right.Closed extent) :
    left.Closed (extent ∘ there) := by
  intro owner isRoot slot member
  have ownerInside : owner.index < left.size := by
    apply Nat.lt_of_not_le
    intro outside
    rw [slots_of_outside outside] at member
    cases member
  obtain ⟨known, held, rfl⟩ := List.mem_map.1 member
  have refers : (left.constraint owner).Refers (.slot known.offset known.size) known.cls := held
  have slotInside := same.leftRegular.inside refers
  have moved : (⟨known.offset, known.size, there known.cls⟩ : Slot) ∈
      (right.shape (there owner)).slots := by
    rw [same.shape ownerInside]
    exact List.mem_map_of_mem held
  have bounded := closed (there owner) (same.onward.fixed owner ownerInside) _ moved
  have own : there known.cls = there owner ↔ left.root known.cls = owner := by
    constructor
    · intro equal
      rw [same.injective slotInside ownerInside equal, isRoot]
    · rintro rfl
      exact (same.there_root known.cls).symm
  have width : right.width (there known.cls) = left.width (left.root known.cls) := by
    rw [same.resembles.width slotInside, Store.width, Store.width, left.constraint_root]
  simpa only [slotReach, own, width, Function.comp, same.there_root] using bounded

theorem bounded_of_least (least : left.Least) : left.Bounded there right.extent := by
  intro cls
  have below := least _ (same.closed same.rightRegular.closed) cls
  rwa [Function.comp, same.there_root] at below

end Renames

/-- Two stores that are the same but for the names of classes. -/
structure Matches (left right : Store) (there back : ClassId → ClassId) : Prop
    extends Renames left right there back where
  extent : ∀ {cls : ClassId}, cls.index < left.size → right.extent (there cls) = left.extent cls

theorem Matches.mirrors {left right : Store} {there back : ClassId → ClassId}
    (same : left.Matches right there back) : left.Mirrors right there :=
  ⟨same.resembles, same.extent⟩

theorem Renames.matches {left right : Store} {there back : ClassId → ClassId}
    (same : left.Renames right there back) (least : left.Least)
    (bounded : right.Bounded back left.extent) : left.Matches right there back := by
  refine ⟨same, fun {cls} inside => UInt64.le_antisymm ?_ (same.bounded_of_least least cls)⟩
  have above := bounded (there cls)
  rw [same.onward.returns cls inside, Store.extent, Store.extent, left.constraint_root] at above
  exact above

end Store
end TypeRecovery
