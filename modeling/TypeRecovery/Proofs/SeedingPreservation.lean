import TypeRecovery.Proofs.DeclaredParts
import TypeRecovery.Proofs.Partition
/-!
What seeding preserves. It merges nothing, and each of its steps either makes a class or joins
something to the constraint of one. Joining keeps all that was said, and it keeps the first of two
references in one place. What a use refers to for the first time may therefore be held as another
class, but then the two are among the pairs that are left to propagation.

Only the references of the store have to be valid. In what order its slots are does not matter.
-/
namespace TypeRecovery

namespace Constraint

theorem Within.refl (constraint : Constraint) : constraint.Within constraint :=
  ⟨fun _ => id, fun _ _ => id⟩

theorem Within.trans {a b c : Constraint} (first : a.Within b) (second : b.Within c) : a.Within c :=
  ⟨fun trait has => second.has trait (first.has trait has),
    fun role cls refers => second.refers role cls (first.refers role cls refers)⟩

theorem within_join (a b : Constraint) : a.Within (a.join b) :=
  ⟨fun trait has => (has_join a b trait).2 (Or.inl has),
    fun _ _ refers => refers_join_left b refers⟩

theorem within_of_empty (constraint : Constraint) : ({} : Constraint).Within constraint :=
  ⟨fun trait has => absurd has (not_has_empty trait),
    fun role cls refers => absurd refers (not_refers_empty role cls)⟩

theorem join_empty (constraint : Constraint) : constraint.join {} = constraint := by
  simp [join, evidence_union_empty, max_zero_width, max_zero_extent, Slot.addAll]

end Constraint

namespace Seeding

open Constraint (Within)

variable {origin seeding middle after : Seeding} {cls : ClassId} {pointerSize : UInt8}

structure Valid (seeding : Seeding) : Prop where
  refers : seeding.store.RefersInside
  typedefs : ∀ {name entry}, seeding.store.typedef? name = some entry →
    entry.1.index < seeding.store.size

theorem WellFormed.valid (wellFormed : seeding.WellFormed) : seeding.Valid :=
  ⟨fun {cls _ _} => (wellFormed.formed cls).refers, wellFormed.typedefs⟩

/-- Seeding went on from one state to another and lost nothing. -/
structure Keeps (seeding after : Seeding) : Prop where
  size : seeding.store.size ≤ after.store.size
  root : ∀ cls, after.store.root cls = seeding.store.root cls
  locationCount : after.store.locationCount = seeding.store.locationCount
  within : ∀ cls, (seeding.store.constraint cls).Within (after.store.constraint cls)
  merges : seeding.merges <+: after.merges
  valid : seeding.Valid → after.Valid

theorem Keeps.refl (seeding : Seeding) : Keeps seeding seeding :=
  ⟨Nat.le_refl _, fun _ => rfl, rfl, fun _ => .refl _, List.prefix_refl _, id⟩

theorem Keeps.trans (first : Keeps seeding middle) (second : Keeps middle after) :
    Keeps seeding after where
  size := Nat.le_trans first.size second.size
  root cls := (second.root cls).trans (first.root cls)
  locationCount := second.locationCount.trans first.locationCount
  within cls := (first.within cls).trans (second.within cls)
  merges := first.merges.trans second.merges
  valid := second.valid ∘ first.valid

theorem Keeps.root_of_new (keeps : Keeps seeding after) (new : seeding.store.size ≤ cls.index) :
    after.store.root cls = cls :=
  (keeps.root cls).trans (Store.root_of_outside new)

theorem Keeps.classOf (keeps : Keeps seeding after) (loc : LocId) :
    after.store.classOf loc = seeding.store.classOf loc := keeps.root _

theorem Keeps.connected (keeps : Keeps seeding after) {a b : ClassId}
    (connected : Store.Connected seeding.merges a b) : Store.Connected after.merges a b := by
  obtain ⟨more, merges⟩ := keeps.merges
  rw [← merges]
  exact connected.append more

-- The moves that seeding is made of. What a move refers to is in the store if what was mentioned at
-- the start is.
theorem keeps_of_sameClasses (same : Store.SameClasses seeding.store after.store)
    (merges : seeding.merges <+: after.merges) : Keeps seeding after where
  size := same.size.ge
  root := same.root
  locationCount := same.locationCount
  within cls := by
    rw [same.constraint]
    exact .refl _
  merges := merges
  valid valid := by
    refine ⟨fun {cls role target} refers => ?_, fun {name entry} found => ?_⟩
    · rw [same.constraint] at refers
      exact (valid.refers refers).trans_eq same.size.symm
    · rw [same.typedef?] at found
      exact (valid.typedefs found).trans_eq same.size.symm

theorem keeps_equate (seeding : Seeding) (pairs : List ClassPair) :
    Keeps seeding (seeding.equate pairs) :=
  keeps_of_sameClasses ⟨rfl, rfl, rfl, rfl⟩ (List.prefix_append _ _)

theorem Keeps.update (keeps : Keeps origin seeding) {change : Constraint → Constraint}
    {part : Constraint}
    (joins : change (seeding.store.constraint cls) = (seeding.store.constraint cls).join part)
    (fits : origin.Valid → part.Fits seeding.store.size) :
    Keeps origin (seeding.update cls change) := by
  have cases (other : ClassId) :
      (seeding.update cls change).store.constraint other = seeding.store.constraint other ∨
      (seeding.update cls change).store.constraint other =
        (seeding.store.constraint other).join part := by
    by_cases inside : cls.index < seeding.store.size
    · have updated := Store.constraint_update inside change other
      split at updated
      · rename_i same
        rw [joins, ← seeding.store.constraint_root cls, ← same,
          seeding.store.constraint_root] at updated
        exact Or.inr updated
      · exact Or.inl updated
    · exact Or.inl (Store.constraint_update_of_outside (Nat.le_of_not_lt inside) change other)
  refine ⟨keeps.size, keeps.root, keeps.locationCount, fun other => (keeps.within other).trans ?_,
    keeps.merges, fun valid => ⟨fun {other role target} refers => ?_, (keeps.valid valid).typedefs⟩⟩
  · rcases cases other with same | joined
    · rw [same]
      exact .refl _
    · rw [joined]
      exact Constraint.within_join _ part
  · have before := keeps.valid valid
    rcases cases other with same | joined
    · rw [same] at refers
      exact before.refers refers
    · rw [joined] at refers
      exact (Constraint.refers_of_join refers).elim before.refers (fits valid).refers

theorem keeps_mark (seeding : Seeding) (cls : ClassId) (evidence : Evidence) :
    Keeps seeding (seeding.mark cls evidence) := by
  refine (Keeps.refl seeding).update (Constraint.addEvidence_eq _ _) fun _ => ?_
  exact Constraint.fits_of_not_refers _ (Constraint.not_refers_of_none rfl rfl rfl) rfl rfl

theorem keeps_access (seeding : Seeding) (cls : ClassId) (size : UInt8) :
    Keeps seeding (seeding.access cls size) := by
  refine (Keeps.refl seeding).update (Constraint.recordAccess_eq _ _) fun _ => ?_
  exact Constraint.fits_of_not_refers _ (Constraint.not_refers_of_none rfl rfl rfl) rfl rfl

theorem keeps_addSlot (cls : ClassId) {slot : Slot} (inside : slot.cls.index < seeding.store.size) :
    Keeps seeding (seeding.addSlot cls slot) :=
  ((Keeps.refl seeding).update (Constraint.addSlot_eq _ _)
    fun _ => Constraint.fits_slot inside).trans (keeps_equate _ _)

theorem Keeps.fresh (keeps : Keeps origin seeding) {constraint : Constraint}
    (fits : origin.Valid → constraint.Fits seeding.store.size) :
    Keeps origin (seeding.fresh constraint).2 where
  size := keeps.size.trans ((Nat.le_succ _).trans_eq (size_fresh seeding constraint).symm)
  root cls := (Store.root_fresh _ _ cls).trans (keeps.root cls)
  locationCount := keeps.locationCount
  within cls := by
    refine (keeps.within cls).trans ?_
    show Within _ ((seeding.store.fresh constraint).2.constraint cls)
    rw [Store.constraint_fresh]
    split
    · rename_i new
      rw [Store.constraint_of_outside (Nat.le_of_eq (congrArg ClassId.index new).symm)]
      exact Constraint.within_of_empty _
    · exact .refl _
  merges := keeps.merges
  valid valid := by
    have before := keeps.valid valid
    refine ⟨Store.refersInside_fresh before.refers fun refers => ?_, fun {name entry} found => ?_⟩
    · exact Nat.le_of_lt ((fits valid).refers refers)
    · have old := before.typedefs
        ((Store.typedef?_fresh seeding.store constraint name).symm.trans found)
      exact inside_fresh old constraint

theorem keeps_of_not_refers (seeding : Seeding) : Keeps seeding (seeding.fresh {}).2 :=
  (Keeps.refl seeding).fresh fun _ => Constraint.fits_empty _

theorem keeps_freshMany (seeding : Seeding) (count : Nat) :
    Keeps seeding (seeding.freshMany count).2 ∧
      ∀ cls ∈ (seeding.freshMany count).1, cls.index < (seeding.freshMany count).2.store.size := by
  induction count generalizing seeding with
  | zero => exact ⟨.refl _, List.forall_mem_nil _⟩
  | succ count ih =>
    obtain ⟨later, inside⟩ := ih (seeding.fresh {}).2
    refine ⟨(keeps_of_not_refers seeding).trans later, List.forall_mem_cons.2 ⟨?_, inside⟩⟩
    exact Nat.lt_of_lt_of_le (seeding.fresh_inside {}) later.size

theorem keeps_bind {name : String} (inside : cls.index < seeding.store.size) (definition : Hint)
    (free : seeding.store.typedef? name = none) :
    Keeps seeding (seeding.bind name cls definition) := by
  have store := @bind_store seeding cls name definition free
  have size := @size_bind seeding cls name definition free
  refine ⟨size.ge, fun other => ?_, ?_, fun other => ?_, List.prefix_refl _,
    fun valid => ⟨?_, fun {other entry} found => ?_⟩⟩
  · rw [store]
    rfl
  · rw [store]
  · rw [store]
    exact .refl _
  · rw [store]
    exact valid.refers
  · rw [size]
    rw [typedef?_bind free] at found
    split at found
    · cases found
      exact Store.root_inside inside
    · exact valid.typedefs found

theorem keeps_pointeeOf (seeding : Seeding) (base : ClassId) :
    Keeps seeding (seeding.pointeeOf base).2 := by
  unfold pointeeOf
  cases known : (seeding.store.constraint base).pointee with
  | some target => exact .refl _
  | none =>
    rw [← Store.constraint_fresh_empty] at known
    exact (keeps_of_not_refers seeding).update (Constraint.pointee_eq known _)
      fun _ => Constraint.fits_pointee (seeding.fresh_inside {})

theorem keeps_returnOf (seeding : Seeding) (callee : ClassId) :
    Keeps seeding (seeding.returnOf callee).2 := by
  unfold returnOf
  cases known : (seeding.store.constraint callee).signature with
  | some signature => exact .refl _
  | none =>
    rw [← Store.constraint_fresh_empty] at known
    refine (keeps_of_not_refers seeding).update (Constraint.signature_eq known _) fun _ => ?_
    refine Constraint.fits_signature fun cls member => ?_
    cases List.mem_singleton.1 member
    exact seeding.fresh_inside {}

theorem keeps_moreParams {callee : ClassId} {more : List ClassId}
    (made : ∀ cls ∈ more, cls.index < seeding.store.size) :
    Keeps seeding (seeding.update callee fun constraint => { constraint with
      signature := constraint.signature.map fun signature => { signature with
        params := some
          (((seeding.store.constraint callee).signature.bind Signature.params).getD [] ++
            more) } }) := by
  cases signature : (seeding.store.constraint callee).signature with
  | none =>
    refine @Keeps.update _ _ callee (.refl seeding) _ {} ?_ fun _ => Constraint.fits_empty _
    simp only [signature, Option.map_none]
    rw [Constraint.join_empty, ← signature]
  | some found =>
    have joins := Constraint.params_eq signature more
    rw [signature] at joins
    refine (Keeps.refl seeding).update ?_ fun valid =>
      Constraint.fits_params valid.refers signature made
    simp only [signature]
    exact joins

theorem formalsOf_keeps (seeding : Seeding) (callee : ClassId) (arity : Nat) :
    Keeps seeding (seeding.formalsOf callee arity).2 ∧ (callee.index < seeding.store.size →
      ∃ result, ((seeding.formalsOf callee arity).2.store.constraint callee).signature =
        some ⟨some (seeding.formalsOf callee arity).1, result⟩) := by
  have returned := keeps_returnOf seeding callee
  have signed (inside : callee.index < seeding.store.size) := signature_returnOf inside
  simp only [formalsOf]
  generalize (seeding.returnOf callee).2 = called at returned signed ⊢
  generalize known : (called.store.constraint callee).signature.bind Signature.params = params
  have noting := Store.recordConflicts_same called.store callee
    (Conflict.ofArities (params.map List.length) (some arity))
  generalize List.foldl _ _ _ = noted at noting ⊢
  have notes : Keeps called ⟨noted, called.merges⟩ :=
    keeps_of_sameClasses noting (List.prefix_refl _)
  have bare := (onlyFresh_freshMany ⟨noted, called.merges⟩ (arity - (params.getD []).length)).1
  obtain ⟨makes, madeInside⟩ :=
    keeps_freshMany ⟨noted, called.merges⟩ (arity - (params.getD []).length)
  have before := (returned.trans notes).trans makes
  -- Neither the conflicts that are noted nor the classes that are made change the signature.
  have same := (bare.constraint callee).trans (noting.constraint callee)
  generalize freshMany _ _ = made at makes madeInside before same ⊢
  rw [← same] at known signed
  constructor
  · subst known
    exact before.trans (keeps_moreParams madeInside)
  · intro inside
    obtain ⟨_, signature⟩ := signed inside
    refine ⟨(seeding.returnOf callee).1, ?_⟩
    show ((made.2.store.update callee _).constraint callee).signature = _
    rw [Store.constraint_update (Nat.lt_of_lt_of_le inside before.size), if_pos rfl, signature]
    rfl

theorem Keeps.settle (keeps : Keeps origin seeding) {realized : Realized}
    (fits : origin.Valid → realized.Fits seeding.store.size) :
    Keeps origin (seeding.settle realized).2 ∧ (origin.Valid →
      (seeding.settle realized).1.index < (seeding.settle realized).2.store.size) := by
  cases realized with
  | constraint constraint => exact ⟨keeps.fresh fits, fun _ => seeding.fresh_inside constraint⟩
  | typedef named => exact ⟨keeps, fits⟩

theorem Keeps.declareRealized (keeps : Keeps origin seeding) (cls : ClassId) {realized : Realized}
    (fits : origin.Valid → realized.Fits seeding.store.size) :
    Keeps origin (seeding.declareRealized cls realized) := by
  cases realized with
  | constraint constraint =>
    have same := Store.refine_same seeding.store cls constraint
    have joins : Keeps origin (seeding.update (seeding.store.root cls)
        fun _ => (seeding.store.constraint cls).join constraint) := by
      refine keeps.update ?_ fits
      rw [Store.constraint_root]
    exact joins.trans (keeps_of_sameClasses same (List.prefix_append _ _))
  | typedef named => exact keeps.trans (keeps_equate _ _)

theorem keeps_intern {name : String} (definition : Hint)
    (free : seeding.store.typedef? name = none) :
    Keeps seeding (seeding.intern name definition) ∧
      seeding.store.size < (seeding.intern name definition).store.size := by
  have made : Keeps seeding (seeding.fresh { declaredName := some name }).2 :=
    (Keeps.refl seeding).fresh fun _ => fits_name _ name
  have inside := seeding.fresh_inside { declaredName := some name }
  have bound := keeps_bind inside definition (free_fresh free)
  exact ⟨made.trans bound, Nat.lt_of_lt_of_le inside bound.size⟩

mutual
theorem realize_keeps (pointerSize : UInt8) (hint : Hint) (seeding : Seeding) :
    Keeps seeding (realize pointerSize hint seeding).2 ∧ (seeding.Valid →
      (realize pointerSize hint seeding).1.Fits
        (realize pointerSize hint seeding).2.store.size) := by
  match hint with
  | .void =>
    exact ⟨.refl _, fun _ =>
      Constraint.fits_of_not_refers _ (Constraint.not_refers_of_none rfl rfl rfl) rfl rfl⟩
  | .int size signedness =>
    exact ⟨.refl _, fun _ =>
      Constraint.fits_of_not_refers _ (Constraint.not_refers_of_none rfl rfl rfl) rfl rfl⟩
  | .pointer inner =>
    obtain ⟨realized, fits⟩ := realize_keeps pointerSize inner seeding
    obtain ⟨value, inside⟩ := realized.settle fits
    simp only [realize]
    cases inner.size pointerSize with
    | some size =>
      have made := value.fresh fun valid => @Constraint.fits_slot _ ⟨0, size, _⟩ (inside valid)
      exact ⟨made, fun _ => Constraint.fits_pointer (fresh_inside ..)⟩
    | none => exact ⟨value, fun valid => Constraint.fits_pointer (inside valid)⟩
  | .function name params ret =>
    obtain ⟨formals, paramsInside⟩ := settleAll_keeps pointerSize params seeding
    obtain ⟨realized, fits⟩ := realize_keeps pointerSize ret
      (settleAll pointerSize params seeding).2
    obtain ⟨settled, inside⟩ := realized.settle fits
    simp only [realize]
    refine ⟨formals.trans settled, fun valid =>
      Constraint.fits_function (fun cls member => ?_) (inside (formals.valid valid))⟩
    exact Nat.lt_of_lt_of_le (paramsInside valid cls member) settled.size
  | .named name definition =>
    simp only [realize]
    cases found : seeding.store.typedef? name with
    | some entry =>
      by_cases same : entry.2 = definition
      · simp only [same, if_true]
        exact ⟨.refl _, fun valid => valid.typedefs found⟩
      · simp only [same, if_false]
        obtain ⟨realized, fits⟩ := realize_keeps pointerSize definition seeding
        have declared := realized.declareRealized entry.1 fits
        exact ⟨declared, fun valid => Nat.lt_of_lt_of_le (valid.typedefs found) declared.size⟩
    | none =>
      obtain ⟨interned, new⟩ := keeps_intern definition found
      obtain ⟨realized, fits⟩ :=
        realize_keeps pointerSize definition (seeding.intern name definition)
      have declared := realized.declareRealized ⟨seeding.store.size⟩ fits
      exact ⟨interned.trans declared, fun _ => Nat.lt_of_lt_of_le new declared.size⟩

theorem settleAll_keeps (pointerSize : UInt8) (hints : List Hint) (seeding : Seeding) :
    Keeps seeding (settleAll pointerSize hints seeding).2 ∧ (seeding.Valid →
      ∀ cls ∈ (settleAll pointerSize hints seeding).1,
        cls.index < (settleAll pointerSize hints seeding).2.store.size) := by
  match hints with
  | [] => exact ⟨.refl _, fun _ => List.forall_mem_nil _⟩
  | hint :: rest =>
    obtain ⟨realized, fits⟩ := realize_keeps pointerSize hint seeding
    obtain ⟨first, inside⟩ := realized.settle fits
    obtain ⟨others, restInside⟩ := settleAll_keeps pointerSize rest
      ((realize pointerSize hint seeding).2.settle (realize pointerSize hint seeding).1).2
    refine ⟨first.trans others, fun valid =>
      List.forall_mem_cons.2 ⟨?_, restInside (first.valid valid)⟩⟩
    exact Nat.lt_of_lt_of_le (inside valid) others.size
end

theorem keeps_declare (seeding : Seeding) (cls : ClassId) (hint : Hint) :
    Keeps seeding (seeding.declare pointerSize cls hint) := by
  obtain ⟨realized, fits⟩ := realize_keeps pointerSize hint seeding
  exact realized.declareRealized cls fits

theorem keeps_recordUse (inside : cls.index < seeding.store.size) (use : Use) :
    Keeps seeding (seeding.recordUse cls use) := by
  cases use with
  | read size => exact (keeps_mark _ _ _).trans (keeps_access _ _ _)
  | write size => exact (keeps_mark _ _ _).trans (keeps_access _ _ _)
  | assignedFrom source =>
    exact ((keeps_mark _ _ _).trans (keeps_mark _ _ _)).trans (keeps_equate _ _)
  | dereference base offset size =>
    have before := ((keeps_mark seeding (seeding.store.classOf base) {.dereferenced}).trans
      (keeps_access _ cls size)).trans (keeps_pointeeOf _ (seeding.store.classOf base))
    exact before.trans (keeps_addSlot _ (Nat.lt_of_lt_of_le inside before.size))
  | callWithArgs args =>
    exact ((keeps_mark _ _ _).trans (formalsOf_keeps _ _ _).1).trans (keeps_equate _ _)
  | callReturns callee =>
    exact (((keeps_mark _ _ _).trans (keeps_mark _ _ _)).trans (keeps_returnOf _ _)).trans
      (keeps_equate _ _)
  | comparedWith other signedness =>
    exact ((keeps_mark _ _ _).trans (keeps_mark _ _ _)).trans (keeps_equate _ _)
  | arithmeticWith other operator =>
    simp only [recordUse]
    split
    · exact keeps_mark _ _ _
    · exact (keeps_mark _ _ _).trans (keeps_mark _ _ _)

end Seeding

/-- What a use of the class `cls` refers to is found in the store, up to the equalities: the slot
that was accessed, the parameters that were passed, the return that was taken. The classes that are
assigned or compared are equal. -/
def Use.Introduced (store : Store) (pairs : List ClassPair) (cls : ClassId) : Use → Prop
  | .dereference base offset size =>
    ∃ target, (store.constraint (store.classOf base)).Refers .pointee target ∧
      ∃ held, (store.constraint target).Refers (.slot offset size) held ∧
        Store.Connected pairs cls held
  | .callWithArgs args => ∀ place arg, args[place]? = some arg →
    ∃ formal, (store.constraint cls).Refers (.param place) formal ∧
      Store.Connected pairs (store.classOf arg) formal
  | .callReturns callee =>
    ∃ result, (store.constraint (store.classOf callee)).Refers .result result ∧
      Store.Connected pairs cls result
  | .assignedFrom other | .comparedWith other _ => Store.Connected pairs cls (store.classOf other)
  | .read _ | .write _ | .arithmeticWith .. => True

namespace Seeding

variable {seeding after : Seeding} {cls : ClassId} {pointerSize : UInt8}

theorem Keeps.introduced (keeps : Keeps seeding after) {use : Use}
    (introduced : use.Introduced seeding.store seeding.merges cls) :
    use.Introduced after.store after.merges cls := by
  cases use with
  | dereference base offset size =>
    obtain ⟨target, points, held, slot, connected⟩ := introduced
    rw [← keeps.classOf] at points
    exact ⟨target, (keeps.within _).refers _ _ points, held, (keeps.within _).refers _ _ slot,
      keeps.connected connected⟩
  | callWithArgs args =>
    intro place arg found
    obtain ⟨formal, takes, connected⟩ := introduced place arg found
    rw [← keeps.classOf] at connected
    exact ⟨formal, (keeps.within _).refers _ _ takes, keeps.connected connected⟩
  | callReturns callee =>
    obtain ⟨result, returns, connected⟩ := introduced
    rw [← keeps.classOf] at returns
    exact ⟨result, (keeps.within _).refers _ _ returns, keeps.connected connected⟩
  | assignedFrom other =>
    show Store.Connected _ cls (after.store.classOf other)
    rw [keeps.classOf]
    exact keeps.connected introduced
  | comparedWith other signedness =>
    show Store.Connected _ cls (after.store.classOf other)
    rw [keeps.classOf]
    exact keeps.connected introduced
  | read size => trivial
  | write size => trivial
  | arithmeticWith other operator => trivial

theorem pointee_pointeeOf {base : ClassId} (inside : base.index < seeding.store.size) :
    ((seeding.pointeeOf base).2.store.constraint base).Refers .pointee
      (seeding.pointeeOf base).1 := by
  unfold pointeeOf
  cases known : (seeding.store.constraint base).pointee with
  | some target => exact known
  | none =>
    show (((seeding.fresh {}).2.store.update base _).constraint base).pointee = _
    rw [Store.constraint_update (inside_fresh inside {}), if_pos rfl]

theorem slot_addSlot {target : ClassId} (inside : target.index < seeding.store.size) (slot : Slot) :
    ∃ held, ((seeding.addSlot target slot).store.constraint target).Refers
        (.slot slot.offset slot.size) held ∧
      Store.Connected (seeding.addSlot target slot).merges slot.cls held := by
  obtain ⟨held, member, ⟨offset, size⟩, same⟩ :=
    Slot.add_represents (seeding.store.constraint target).slots slot
  have slots : ((seeding.addSlot target slot).store.constraint target).slots =
      (Slot.add (seeding.store.constraint target).slots slot).1 := by
    show ((seeding.store.update target _).constraint target).slots = _
    rw [Store.constraint_update inside, if_pos rfl]
    rfl
  refine ⟨held.cls, ?_, ?_⟩
  · show _ ∈ ((seeding.addSlot target slot).store.constraint target).slots
    rw [slots, ← offset, ← size]
    exact member
  · rcases same with same | paired
    · rw [same]
      exact .refl _
    · refine .symm _ _ (.rel _ _ (List.mem_append_right _ ?_))
      show _ ∈ (Slot.add (seeding.store.constraint target).slots slot).2.toList
      rw [paired]
      exact List.mem_cons_self

theorem introduced_dereference (valid : seeding.Valid) (inside : cls.index < seeding.store.size)
    {base : LocId} (declared : base.index < seeding.store.locationCount) (offset : Int64)
    (size : UInt8) :
    let after := seeding.recordUse cls (.dereference base offset size)
    (Use.dereference base offset size).Introduced after.store after.merges cls := by
  let accessed := (seeding.mark (seeding.store.classOf base) {.dereferenced}).access cls size
  have marks : Keeps seeding accessed := (keeps_mark _ _ _).trans (keeps_access _ _ _)
  have points := keeps_pointeeOf accessed (seeding.store.classOf base)
  have target := pointee_pointeeOf (Nat.lt_of_lt_of_le (classOf_inside declared) marks.size)
  have before := marks.trans points
  have slots := @keeps_addSlot _ (accessed.pointeeOf (seeding.store.classOf base)).1
    ⟨offset, size, cls⟩ (Nat.lt_of_lt_of_le inside before.size)
  refine ⟨_, ?_, slot_addSlot ((before.valid valid).refers target) ⟨offset, size, cls⟩⟩
  have same : (seeding.recordUse cls (.dereference base offset size)).store.classOf base =
      seeding.store.classOf base := (before.trans slots).classOf base
  rw [same]
  exact (slots.within _).refers _ _ target

theorem introduced_call (inside : cls.index < seeding.store.size) (args : List LocId) :
    let after := seeding.recordUse cls (.callWithArgs args)
    (Use.callWithArgs args).Introduced after.store after.merges cls := by
  intro after place arg found
  obtain ⟨_, signed⟩ := formalsOf_keeps (seeding.mark cls {.called}) cls args.length
  obtain ⟨result, signature⟩ := signed inside
  have enough := length_take_formalsOf (seeding.mark cls {.called}) cls args.length
  rw [List.length_take] at enough
  -- There is a parameter for each argument, and the two are paired.
  have short : place < ((seeding.mark cls {.called}).formalsOf cls args.length).1.length := by
    have := (List.getElem?_eq_some_iff.1 found).1
    omega
  have param := List.getElem?_eq_getElem short
  refine ⟨_, ⟨_, signature, param⟩, .rel _ _ (List.mem_append_right _ ?_)⟩
  exact mem_zip_iff.2 ⟨place, arg, found, param, rfl⟩

theorem introduced_return {callee : LocId} (declared : callee.index < seeding.store.locationCount) :
    let after := seeding.recordUse cls (.callReturns callee)
    (Use.callReturns callee).Introduced after.store after.merges cls := by
  let callee' := seeding.store.classOf callee
  let marked := (seeding.mark callee' {.called}).mark cls {.callResult}
  have before : Keeps seeding (marked.returnOf callee').2 :=
    ((keeps_mark _ _ _).trans (keeps_mark _ _ _)).trans (keeps_returnOf _ _)
  obtain ⟨params, signature⟩ := @signature_returnOf marked callee' (classOf_inside declared)
  refine ⟨(marked.returnOf callee').1, ?_, .rel _ _ (List.mem_append_right _ List.mem_cons_self)⟩
  have same : (seeding.recordUse cls (.callReturns callee)).store.classOf callee = callee' :=
    before.classOf callee
  rw [same]
  exact ⟨_, signature, rfl⟩

theorem introduced_recordUse (valid : seeding.Valid) (inside : cls.index < seeding.store.size)
    {use : Use} (declared : ∀ loc ∈ use.operands, loc.index < seeding.store.locationCount) :
    use.Introduced (seeding.recordUse cls use).store (seeding.recordUse cls use).merges cls := by
  cases use with
  | dereference base offset size =>
    exact introduced_dereference valid inside (declared base List.mem_cons_self) offset size
  | callWithArgs args => exact introduced_call inside args
  | callReturns callee => exact introduced_return (declared callee List.mem_cons_self)
  | assignedFrom other => exact .rel _ _ (List.mem_append_right _ List.mem_cons_self)
  | comparedWith other signedness => exact .rel _ _ (List.mem_append_right _ List.mem_cons_self)
  | read size => trivial
  | write size => trivial
  | arithmeticWith other operator => trivial

theorem observe_keeps {observation : Observation}
    (ok : seeding.observe pointerSize observation = .ok after) :
    Keeps seeding after ∧ (seeding.Valid → observation.use.Introduced after.store after.merges
      (seeding.store.classOf observation.location)) := by
  obtain ⟨declared, outcome⟩ := observe_ok ok
  have inside := classOf_inside (declared observation.location List.mem_cons_self)
  have operands (loc : LocId) (member : loc ∈ observation.use.operands) :=
    declared loc (List.mem_cons_of_mem _ member)
  have used := keeps_recordUse inside observation.use
  cases hinted : observation.hint with
  | none =>
    simp only [hinted] at outcome
    subst outcome
    exact ⟨used, fun valid => introduced_recordUse valid inside operands⟩
  | some hint =>
    simp only [hinted] at outcome
    subst outcome
    have declaring := @keeps_declare pointerSize (seeding.recordUse
      (seeding.store.classOf observation.location) observation.use)
      (seeding.store.classOf observation.location) hint
    exact ⟨used.trans declaring, fun valid =>
      declaring.introduced (introduced_recordUse valid inside operands)⟩

theorem keeps_observeAll (seeding : Seeding) (observations : List Observation) :
    Keeps seeding (seeding.observeAll pointerSize observations).1 := by
  induction observations generalizing seeding with
  | nil => exact .refl _
  | cons observation rest ih =>
    unfold observeAll
    cases found : seeding.observe pointerSize observation with
    | error failure => exact .refl _
    | ok seeded => exact (observe_keeps found).1.trans (ih seeded)

theorem observeAll_append {earlier : List Observation}
    (accepted : (seeding.observeAll pointerSize earlier).2 = none) (later : List Observation) :
    seeding.observeAll pointerSize (earlier ++ later) =
      (seeding.observeAll pointerSize earlier).1.observeAll pointerSize later := by
  induction earlier generalizing seeding with
  | nil => rfl
  | cons observation rest ih =>
    rw [List.cons_append, observeAll, observeAll]
    rw [observeAll] at accepted
    cases found : seeding.observe pointerSize observation with
    | error failure =>
      rw [found] at accepted
      cases accepted
    | ok seeded =>
      rw [found] at accepted
      exact ih accepted

theorem introduced_observeAll {observations : List Observation} (valid : seeding.Valid)
    (accepted : (seeding.observeAll pointerSize observations).2 = none) :
    let after := (seeding.observeAll pointerSize observations).1
    ∀ observation ∈ observations, observation.use.Introduced after.store after.merges
      (after.store.classOf observation.location) := by
  induction observations generalizing seeding with
  | nil => exact List.forall_mem_nil _
  | cons first rest ih =>
    rw [observeAll] at accepted ⊢
    cases found : seeding.observe pointerSize first with
    | error failure =>
      rw [found] at accepted
      cases accepted
    | ok seeded =>
      rw [found] at accepted
      obtain ⟨keeps, introduced⟩ := observe_keeps found
      have onward := @keeps_observeAll pointerSize seeded rest
      refine List.forall_mem_cons.2 ⟨?_, ih (keeps.valid valid) accepted⟩
      rw [show Store.classOf _ first.location = _ from (keeps.trans onward).classOf first.location]
      exact onward.introduced (introduced valid)

/-- After observations were accepted, seeding may go on with any others. From before to after, no
two classes become one, every class that is made is a root behind those that there were, and all
that was known of a class is known still, its references among them. Whatever was observed is found
in the classes, up to the equalities that propagation is given. -/
theorem observeAll_keeps (valid : seeding.Valid) {earlier : List Observation}
    (accepted : (seeding.observeAll pointerSize earlier).2 = none) (later : List Observation) :
    let before := (seeding.observeAll pointerSize earlier).1
    let after := (seeding.observeAll pointerSize (earlier ++ later)).1
    Keeps seeding before ∧ Keeps before after ∧
      (∀ cls : ClassId, seeding.store.size ≤ cls.index → after.store.root cls = cls) ∧
      (∀ cls role held, (before.store.constraint cls).Refers role held →
        ∃ now, (after.store.constraint cls).Refers role now ∧
          Store.Connected after.merges held now) ∧
      ∀ observation ∈ earlier, observation.use.Introduced after.store after.merges
        (after.store.classOf observation.location) := by
  intro before after
  have first : Keeps seeding before := keeps_observeAll seeding earlier
  have second : Keeps before after := by
    rw [show after = _ from congrArg Prod.fst (observeAll_append accepted later)]
    exact keeps_observeAll before later
  refine ⟨first, second, fun cls new => (first.trans second).root_of_new new,
    fun cls role held refers => ⟨held, (second.within cls).refers role held refers, .refl _⟩,
    fun observation member => ?_⟩
  rw [second.classOf]
  exact second.introduced (introduced_observeAll valid accepted observation member)

theorem valid_withLocations (count : Nat) : (start (.withLocations count)).Valid :=
  ⟨Store.refersInside_withLocations count, nofun⟩

def loadedTwice : List Observation :=
  [⟨⟨0⟩, ⟨1⟩, .dereference ⟨0⟩ 8 4, none⟩, ⟨⟨4⟩, ⟨2⟩, .dereference ⟨0⟩ 8 4, none⟩]

theorem observeAll_keeps_loadedTwice :
    (start (.withLocations 3)).Valid ∧
      ((start (.withLocations 3)).observeAll 8 loadedTwice).2 = none ∧
      let after := ((start (.withLocations 3)).observeAll 8
        (loadedTwice ++ [⟨⟨8⟩, ⟨2⟩, .callWithArgs [⟨1⟩], none⟩])).1
      (Use.dereference ⟨0⟩ 8 4).Introduced after.store after.merges (after.store.classOf ⟨2⟩) := by
  have valid := valid_withLocations 3
  have accepted : ((start (.withLocations 3)).observeAll 8 loadedTwice).2 = none := by decide
  obtain ⟨_, _, _, _, introduced⟩ :=
    observeAll_keeps valid accepted [⟨⟨8⟩, ⟨2⟩, .callWithArgs [⟨1⟩], none⟩]
  have second : (⟨⟨4⟩, ⟨2⟩, .dereference ⟨0⟩ 8 4, none⟩ : Observation) ∈ loadedTwice := by decide
  exact ⟨valid, accepted, introduced _ second⟩

end Seeding
end TypeRecovery
