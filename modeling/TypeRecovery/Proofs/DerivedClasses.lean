import TypeRecovery.Proofs.SeedingMoves
/-!
Classes that seeding derives from others: what a class points at, what it returns and what it takes.
They are made when they are first asked for. To ask for one is to refine the class by the reference,
for the class may have had it all along.
-/
namespace TypeRecovery

namespace Constraint

theorem implied_of_not_refers {a b : Constraint} (bare : ∀ role cls, ¬ b.Refers role cls) :
    a.implied b = [] := by
  rw [List.eq_nil_iff_forall_not_mem]
  intro pair member
  rcases refers_of_implied member with ⟨role, _, refers⟩
  exact bare role _ refers

theorem max_zero_width (size : UInt8) : max size 0 = size := by
  show (if size ≤ 0 then 0 else size) = size
  split
  · rename_i least
    exact (UInt8.le_antisymm least (UInt8.zero_le)).symm
  · rfl

theorem evidence_union_empty (evidence : Evidence) : evidence ∪ ∅ = evidence := by
  show (⟨evidence.bits ||| 0⟩ : Evidence) = evidence
  simp

theorem addEvidence_eq (constraint : Constraint) (evidence : Evidence) :
    constraint.addEvidence evidence = constraint.join { evidence } := by
  simp [addEvidence, join, max_zero_width, max_zero_extent, Slot.addAll]

theorem recordAccess_eq (constraint : Constraint) (size : UInt8) :
    constraint.recordAccess size = constraint.join { maxAccess := size } := by
  simp [recordAccess, join, evidence_union_empty, max_zero_extent, Slot.addAll]

theorem addSlot_eq (constraint : Constraint) (slot : Slot) :
    (constraint.addSlot slot).1 = constraint.join { slots := [slot] } := by
  simp [addSlot, join, evidence_union_empty, max_zero_width, max_zero_extent, Slot.addAll]

theorem pointee_eq {constraint : Constraint} (free : constraint.pointee = none) (target : ClassId) :
    { constraint with pointee := some target } = constraint.join { pointee := some target } := by
  simp [join, evidence_union_empty, max_zero_width, max_zero_extent, Slot.addAll, free]

theorem signature_eq {constraint : Constraint} (free : constraint.signature = none)
    (signature : Signature) :
    { constraint with signature := some signature } =
      constraint.join { signature := some signature } := by
  simp [join, evidence_union_empty, max_zero_width, max_zero_extent, Slot.addAll, free]

theorem params_eq {constraint : Constraint} {signature : Signature}
    (known : constraint.signature = some signature) (more : List ClassId) :
    { constraint with signature := constraint.signature.map fun signature =>
        { signature with params := some (
          (constraint.signature.bind Signature.params).getD [] ++ more) } } =
      constraint.join {
        signature := some ⟨some (signature.params.getD [] ++ more), signature.ret⟩ } := by
  rcases signature with ⟨_ | params, ret⟩ <;>
    simp [join, evidence_union_empty, max_zero_width, max_zero_extent, Slot.addAll, known,
      Signature.join]

theorem implied_params {constraint : Constraint} {signature : Signature}
    (known : constraint.signature = some signature) (more : List ClassId) :
    constraint.implied {
      signature := some ⟨some (signature.params.getD [] ++ more), signature.ret⟩ } = [] := by
  have zipped (classes : List ClassId) : ∀ first second,
      (first, second) ∈ classes.zip (classes ++ more) → first = second := by
    induction classes with
    | nil => simp
    | cons head rest ih =>
      intro first second member
      rcases List.mem_cons.1 member with same | later
      · cases same
        rfl
      · exact ih first second later
  simpa [implied, known, Signature.implied, Slot.addAll, ClassPair.distinct] using zipped _

theorem fits_of_not_refers (size : Nat) {constraint : Constraint}
    (bare : ∀ role cls, ¬ constraint.Refers role cls) (slots : constraint.slots = [])
    (extent : constraint.extent = 0) : constraint.Fits size :=
  ⟨⟨fun refers => absurd refers (bare _ _), slots ▸ List.Pairwise.nil⟩, extent⟩

theorem fits_empty (size : Nat) : ({} : Constraint).Fits size :=
  fits_of_not_refers size not_refers_empty rfl rfl

theorem fits_pointee {size : Nat} {target : ClassId} (inside : target.index < size) :
    ({ pointee := some target } : Constraint).Fits size := by
  refine ⟨⟨fun {role other} refers => ?_, List.Pairwise.nil⟩, rfl⟩
  cases role <;> simp [Refers] at refers
  exact refers ▸ inside

theorem fits_slot {size : Nat} {slot : Slot} (inside : slot.cls.index < size) :
    ({ slots := [slot] } : Constraint).Fits size := by
  refine ⟨⟨fun {role target} refers => ?_, List.pairwise_singleton ..⟩, rfl⟩
  cases role <;> simp [Refers] at refers
  rw [← refers] at inside
  exact inside

theorem fits_signature {size : Nat} {signature : Signature}
    (inside : ∀ cls ∈ signature.references, cls.index < size) :
    ({ signature := some signature } : Constraint).Fits size := by
  refine ⟨⟨fun {role other} refers => inside other ?_, List.Pairwise.nil⟩, rfl⟩
  cases role with
  | result => simp [Refers, Signature.Refers] at refers; simp [Signature.references, refers]
  | param place =>
    simp [Refers, Signature.Refers] at refers
    exact List.mem_append_left _ (List.mem_of_getElem? refers)
  | _ => simp [Refers] at refers

theorem fits_params {size : Nat} {constraint : Constraint} {signature : Signature}
    (refers : ∀ {role target}, constraint.Refers role target → target.index < size)
    (known : constraint.signature = some signature) {more : List ClassId}
    (inside : ∀ cls ∈ more, cls.index < size) :
    ({ signature := some ⟨some (signature.params.getD [] ++ more), signature.ret⟩ } :
      Constraint).Fits size := by
  apply fits_signature
  intro cls member
  rcases List.mem_append.1 member with param | result
  · rcases List.mem_append.1 param with old | new
    · obtain ⟨place, found⟩ := List.mem_iff_getElem?.1 old
      have held : constraint.Refers (.param place) cls := ⟨_, known, found⟩
      exact refers held
    · exact inside cls new
  · have held : constraint.Refers .result cls := ⟨_, known, (List.mem_singleton.1 result).symm⟩
    exact refers held

section single

variable {Label : Type} {label : ClassId → Label} {model : Model Label} {here : Label}

theorem holds_pointee {target : ClassId} :
    ({ pointee := some target } : Constraint).Holds label model here ↔
      model.refers here .pointee (label target) := by
  refine ⟨fun holds => holds.refers .pointee target rfl, fun refers => ⟨fun trait has => ?_, ?_⟩⟩
  · exact absurd (by cases trait <;> exact has) (not_has_empty trait)
  · intro role other held
    cases role <;> simp [Refers] at held
    exact held ▸ refers

theorem holds_slot {slot : Slot} : ({ slots := [slot] } : Constraint).Holds label model here ↔
    model.refers here (.slot slot.offset slot.size) (label slot.cls) := by
  refine ⟨fun holds => holds.refers (.slot _ _) slot.cls List.mem_cons_self,
    fun refers => ⟨fun trait has => ?_, ?_⟩⟩
  · exact absurd (by cases trait <;> exact has) (not_has_empty trait)
  · intro role other held
    cases role <;> simp [Refers] at held
    rw [← held] at refers
    exact refers

theorem holds_result {result : ClassId} :
    ({ signature := some ⟨none, result⟩ } : Constraint).Holds label model here ↔
      model.refers here .result (label result) := by
  refine ⟨fun holds => holds.refers .result result ⟨_, rfl, rfl⟩,
    fun refers => ⟨fun trait has => ?_, ?_⟩⟩
  · exact absurd (by cases trait <;> exact has) (not_has_empty trait)
  · intro role other held
    cases role <;> simp [Refers, Signature.Refers] at held
    exact held ▸ refers

theorem has_params {params : List ClassId} {result : ClassId} {trait : Trait} :
    ({ signature := some ⟨some params, result⟩ } : Constraint).Has trait ↔
      ∃ count ≤ params.length, trait = .arity count := by
  constructor
  · intro has
    by_cases arity : ∃ count, trait = .arity count
    · rcases arity with ⟨count, rfl⟩
      rcases has with ⟨_, known, least⟩
      cases known
      exact ⟨count, least, rfl⟩
    · refine absurd ?_ (not_has_empty trait)
      cases trait with
      | arity count => exact absurd ⟨count, rfl⟩ arity
      | _ => exact has
  · rintro ⟨count, least, rfl⟩
    exact ⟨_, rfl, least⟩

theorem holds_params {constraint : Constraint} {signature : Signature}
    (known : constraint.signature = some signature) (holds : constraint.Holds label model here)
    {more : List ClassId} {targets : List Label}
    (labels : more.map label = targets.drop (signature.params.getD []).length)
    (takes : ∀ place target, targets[place]? = some target →
      model.refers here (.param place) target)
    (arity : ∀ count ≤ targets.length, model.has here (.arity count)) :
    ({ signature := some ⟨some (signature.params.getD [] ++ more), signature.ret⟩ } :
      Constraint).Holds label model here := by
  have length : more.length = targets.length - (signature.params.getD []).length := by
    rw [← List.length_map label, labels, List.length_drop]
  constructor
  · intro trait has
    obtain ⟨count, least, rfl⟩ := has_params.1 has
    by_cases given : count ≤ targets.length
    · exact arity count given
    · -- More than the targets can only be counted by the parameters that were known.
      apply holds.has
      rw [List.length_append, length] at least
      rcases signature with ⟨_ | old, ret⟩
      · simp at least
        omega
      · refine ⟨old.length, by simp [Constraint.arity, known, Signature.arity], ?_⟩
        simp at least
        omega
  · intro role cls held
    cases role with
    | result =>
      simp [Refers, Signature.Refers] at held
      exact holds.refers .result cls ⟨_, known, held⟩
    | param place =>
      simp only [Refers, Option.some.injEq, exists_eq_left', Signature.Refers,
        Option.getD_some] at held
      by_cases old : place < (signature.params.getD []).length
      · rw [List.getElem?_append_left old] at held
        exact holds.refers (.param place) cls ⟨_, known, held⟩
      · rw [List.getElem?_append_right (Nat.le_of_not_lt old)] at held
        have found := congrArg (·[place - (signature.params.getD []).length]?) labels
        simp only [List.getElem?_map, held, Option.map_some, List.getElem?_drop] at found
        rw [Nat.add_sub_cancel' (Nat.le_of_not_lt old)] at found
        exact takes place _ found.symm
    | _ => simp [Refers] at held

end single

/-- All that the first constraint says is said by the second. -/
structure Within (a b : Constraint) : Prop where
  has : ∀ trait, a.Has trait → b.Has trait
  refers : ∀ role cls, a.Refers role cls → b.Refers role cls

theorem Within.holds {Label : Type} {label : ClassId → Label} {model : Model Label} {here : Label}
    {a b : Constraint} (within : a.Within b) (holds : b.Holds label model here) :
    a.Holds label model here :=
  ⟨fun trait has => holds.has trait (within.has trait has),
    fun role cls refers => holds.refers role cls (within.refers role cls refers)⟩

theorem within_pointee {constraint : Constraint} {target : ClassId}
    (refers : constraint.Refers .pointee target) :
    ({ pointee := some target } : Constraint).Within constraint := by
  refine ⟨fun trait has => ?_, fun role other held => ?_⟩
  · exact absurd (by cases trait <;> exact has) (not_has_empty trait)
  · cases role <;> simp [Refers] at held
    exact held ▸ refers

theorem within_result {constraint : Constraint} {result : ClassId}
    (refers : constraint.Refers .result result) :
    ({ signature := some ⟨none, result⟩ } : Constraint).Within constraint := by
  refine ⟨fun trait has => ?_, fun role other held => ?_⟩
  · exact absurd (by cases trait <;> exact has) (not_has_empty trait)
  · cases role <;> simp [Refers, Signature.Refers] at held
    exact held ▸ refers

end Constraint

namespace Seeding

variable {seeding after : Seeding} {cls : ClassId} {constraint : Constraint}

/-- All that seeding did was to refine the class by the constraint, as far as labels can tell. -/
structure Refines (cls : ClassId) (constraint : Constraint) (seeding after : Seeding) : Prop where
  onward : Extends seeding after
  constraint_of : ∀ {Label : Type} {label : ClassId → Label} {scene : Scene Label},
    after.Holds label scene → constraint.Holds label scene.toModel (label cls)
  holds : ∀ {Label : Type} {label : ClassId → Label} {scene : Scene Label}, scene.Unique →
    seeding.Holds label scene → constraint.Holds label scene.toModel (label cls) →
    after.Holds label scene

theorem refineWith_refines (wellFormed : seeding.WellFormed)
    (inside : cls.index < seeding.store.size)
    (fits : constraint.Fits seeding.store.size) :
    Refines cls constraint seeding (seeding.refineWith cls constraint) :=
  ⟨refineWith_extends wellFormed inside fits, fun holds => (holds_of_refineWith inside holds).2,
    fun unique holds given => holds_refineWith unique inside holds given⟩

theorem Refines.same {other : Seeding} (refines : Refines cls constraint seeding after)
    (same : Same after other) : Refines cls constraint seeding other :=
  ⟨refines.onward.trans (same.extends refines.onward.wellFormed),
    fun holds => refines.constraint_of (same.holds.1 holds),
    fun unique holds given => same.holds.2 (refines.holds unique holds given)⟩

theorem update_refines {change : Constraint → Constraint} (wellFormed : seeding.WellFormed)
    (inside : cls.index < seeding.store.size) (fits : constraint.Fits seeding.store.size)
    (joins : change (seeding.store.constraint cls) = (seeding.store.constraint cls).join constraint)
    (settled : (seeding.store.constraint cls).implied constraint = []) :
    Refines cls constraint seeding (seeding.update cls change) := by
  have same := (refineWith_refines wellFormed inside fits).same (update_same joins settled)
  rwa [equate_nil] at same

theorem mark_refines (wellFormed : seeding.WellFormed) (inside : cls.index < seeding.store.size)
    (evidence : Evidence) : Refines cls { evidence } seeding (seeding.mark cls evidence) := by
  have bare := @Constraint.not_refers_of_none { evidence } rfl rfl rfl
  exact update_refines wellFormed inside (Constraint.fits_of_not_refers _ bare rfl rfl)
    (Constraint.addEvidence_eq _ _) (Constraint.implied_of_not_refers bare)

theorem access_refines (wellFormed : seeding.WellFormed) (inside : cls.index < seeding.store.size)
    (size : UInt8) : Refines cls { maxAccess := size } seeding (seeding.access cls size) := by
  have bare := @Constraint.not_refers_of_none { maxAccess := size } rfl rfl rfl
  exact update_refines wellFormed inside (Constraint.fits_of_not_refers _ bare rfl rfl)
    (Constraint.recordAccess_eq _ _) (Constraint.implied_of_not_refers bare)

theorem addSlot_refines (wellFormed : seeding.WellFormed) (inside : cls.index < seeding.store.size)
    {slot : Slot} (slotInside : slot.cls.index < seeding.store.size) :
    Refines cls { slots := [slot] } seeding (seeding.addSlot cls slot) := by
  refine (refineWith_refines wellFormed inside (Constraint.fits_slot slotInside)).same
    (update_same ?_ ?_)
  · exact Constraint.addSlot_eq _ _
  · simp [Constraint.implied, Constraint.addSlot, Slot.addAll]

theorem refines_of_fresh (wellFormed : seeding.WellFormed)
    (refines : Refines cls constraint (seeding.fresh {}).2 after) :
    Refines cls constraint seeding after where
  onward := (fresh_extends wellFormed (Constraint.fits_empty _)).trans refines.onward
  constraint_of := refines.constraint_of
  holds unique holds given :=
    refines.holds unique (holds_fresh.2 ⟨holds, Constraint.holds_empty⟩) given

theorem refines_of_within (wellFormed : seeding.WellFormed)
    (within : constraint.Within (seeding.store.constraint cls)) :
    Refines cls constraint seeding seeding where
  onward := Extends.refl wellFormed
  constraint_of holds := within.holds (holds.store.constraint cls)
  holds _ holds _ := holds

theorem fresh_inside (seeding : Seeding) (constraint : Constraint) :
    (seeding.fresh constraint).1.index < (seeding.fresh constraint).2.store.size := by
  rw [size_fresh]
  exact Nat.lt_succ_self _

theorem inside_fresh (inside : cls.index < seeding.store.size) (constraint : Constraint) :
    cls.index < (seeding.fresh constraint).2.store.size := by
  rw [size_fresh]
  exact Nat.lt_succ_of_lt inside

theorem constraint_fresh (inside : cls.index < seeding.store.size) (constraint : Constraint) :
    (seeding.fresh constraint).2.store.constraint cls = seeding.store.constraint cls := by
  show (seeding.store.fresh constraint).2.constraint cls = _
  rw [Store.constraint_fresh, if_neg]
  rintro rfl
  exact Nat.lt_irrefl _ inside

theorem pointeeOf_refines (wellFormed : seeding.WellFormed) {base : ClassId}
    (inside : base.index < seeding.store.size) :
    (seeding.pointeeOf base).1.index < (seeding.pointeeOf base).2.store.size ∧
      Refines base { pointee := some (seeding.pointeeOf base).1 } seeding
        (seeding.pointeeOf base).2 := by
  unfold pointeeOf
  cases known : (seeding.store.constraint base).pointee with
  | some target =>
    have refers : (seeding.store.constraint base).Refers .pointee target := known
    refine ⟨(wellFormed.formed base).refers refers, ?_⟩
    exact refines_of_within wellFormed (Constraint.within_pointee refers)
  | none =>
    rw [← constraint_fresh inside {}] at known
    have wellFormed' := (fresh_extends wellFormed (Constraint.fits_empty _)).wellFormed
    have madeInside := seeding.fresh_inside {}
    refine ⟨madeInside, refines_of_fresh wellFormed ?_⟩
    exact update_refines wellFormed' (inside_fresh inside {}) (Constraint.fits_pointee madeInside)
      (Constraint.pointee_eq known _) (by simp [Constraint.implied, known, Slot.addAll])

theorem returnOf_refines (wellFormed : seeding.WellFormed) {callee : ClassId}
    (inside : callee.index < seeding.store.size) :
    (seeding.returnOf callee).1.index < (seeding.returnOf callee).2.store.size ∧
      Refines callee { signature := some ⟨none, (seeding.returnOf callee).1⟩ } seeding
        (seeding.returnOf callee).2 := by
  unfold returnOf
  cases known : (seeding.store.constraint callee).signature with
  | some signature =>
    have refers : (seeding.store.constraint callee).Refers .result signature.ret :=
      ⟨signature, known, rfl⟩
    refine ⟨(wellFormed.formed callee).refers refers, ?_⟩
    exact refines_of_within wellFormed (Constraint.within_result refers)
  | none =>
    rw [← constraint_fresh inside {}] at known
    have wellFormed' := (fresh_extends wellFormed (Constraint.fits_empty _)).wellFormed
    have madeInside := seeding.fresh_inside {}
    refine ⟨madeInside, refines_of_fresh wellFormed ?_⟩
    refine update_refines wellFormed' (inside_fresh inside {}) (Constraint.fits_signature ?_)
      (Constraint.signature_eq known _) (by simp [Constraint.implied, known, Slot.addAll])
    intro cls member
    cases List.mem_singleton.1 member
    exact madeInside

theorem signature_returnOf {callee : ClassId} (inside : callee.index < seeding.store.size) :
    ∃ params, ((seeding.returnOf callee).2.store.constraint callee).signature =
      some ⟨params, (seeding.returnOf callee).1⟩ := by
  unfold returnOf
  cases known : (seeding.store.constraint callee).signature with
  | some signature => exact ⟨signature.params, known⟩
  | none =>
    refine ⟨none, ?_⟩
    show (((seeding.fresh {}).2.store.update callee _).constraint callee).signature = _
    rw [Store.constraint_update (inside_fresh inside {}), if_pos rfl]

/-- What making several classes comes to. -/
structure Makes (seeding : Seeding) (classes : List ClassId) (after : Seeding) : Prop where
  onward : Extends seeding after
  inside : ∀ cls ∈ classes, cls.index < after.store.size
  constraint : ∀ cls : ClassId, cls.index < seeding.store.size →
    after.store.constraint cls = seeding.store.constraint cls
  holds : ∀ {Label : Type} {label : ClassId → Label} {scene : Scene Label},
    seeding.Holds label scene → after.Holds label scene
  /-- The classes can have any labels. -/
  exists_labels : ∀ {Label : Type} {label : ClassId → Label} {scene : Scene Label},
    seeding.Holds label scene → ∀ targets : List Label, targets.length = classes.length →
      ∃ other, Continues seeding.store.size label other ∧ classes.map other = targets ∧
        after.Holds other scene

theorem freshMany_makes (wellFormed : seeding.WellFormed) (count : Nat) :
    Makes seeding (seeding.freshMany count).1 (seeding.freshMany count).2 ∧
      (seeding.freshMany count).1.length = count := by
  induction count generalizing seeding with
  | zero =>
    refine ⟨⟨Extends.refl wellFormed, ?_, fun _ _ => rfl, id,
      fun {_ label _} holds targets none => ?_⟩,
      rfl⟩
    · simp [freshMany]
    · exact ⟨label, Continues.refl _ _, by simpa [freshMany, eq_comm] using none, holds⟩
  | succ count ih =>
    have first := fresh_extends wellFormed (Constraint.fits_empty seeding.store.size)
    rcases ih first.wellFormed with ⟨rest, length⟩
    refine ⟨⟨first.trans rest.onward, fun cls member => ?_, fun cls inside => ?_, fun holds => ?_,
      fun {_ label scene} holds targets lengths => ?_⟩, congrArg Nat.succ length⟩
    · rcases List.mem_cons.1 member with rfl | later
      · exact Nat.lt_of_lt_of_le (seeding.fresh_inside {}) rest.onward.size
      · exact rest.inside cls later
    · exact (rest.constraint cls (inside_fresh inside {})).trans (constraint_fresh inside {})
    · exact rest.holds (holds_fresh.2 ⟨holds, Constraint.holds_empty⟩)
    · cases targets with
      | nil => simp [freshMany] at lengths
      | cons target others =>
        have given : ({} : Constraint).Holds label scene.toModel target := Constraint.holds_empty
        obtain ⟨one, continues, new, made⟩ :=
          exists_fresh wellFormed (Constraint.fits_empty _) holds given
        rcases rest.exists_labels made others (by simpa [freshMany] using lengths) with
          ⟨other, later, labels, all⟩
        refine ⟨other, continues.trans later first.size, ?_, all⟩
        have kept : other (seeding.fresh {}).1 = target :=
          (later _ (seeding.fresh_inside {})).trans new
        simp only [freshMany, List.map_cons, kept, labels]

/-- To ask for parameters, the return is asked for, a conflict may be recorded, and the parameters
that are missing are made and added. -/
theorem formalsOf_steps (wellFormed : seeding.WellFormed) {callee : ClassId}
    (inside : callee.index < seeding.store.size) (arity : Nat) :
    ∃ noted params, Same (seeding.returnOf callee).2 noted ∧
      (noted.store.constraint callee).signature = some ⟨params, (seeding.returnOf callee).1⟩ ∧
      let made := noted.freshMany (arity - (params.getD []).length)
      (seeding.formalsOf callee arity).1 = params.getD [] ++ made.1 ∧
      (seeding.formalsOf callee arity).2.store.size = made.2.store.size ∧
      Refines callee
        { signature := some ⟨some (params.getD [] ++ made.1), (seeding.returnOf callee).1⟩ }
        made.2 (seeding.formalsOf callee arity).2 := by
  have called := (returnOf_refines wellFormed inside).2.onward
  rcases signature_returnOf inside with ⟨params, signature⟩
  let noted : Seeding := { (seeding.returnOf callee).2 with
    store := (Conflict.ofArities (params.map List.length) (some arity)).foldl
      (fun store => store.recordConflict callee) (seeding.returnOf callee).2.store }
  have same : Same (seeding.returnOf callee).2 noted := ⟨Store.recordConflicts_same .., rfl⟩
  have makes := (freshMany_makes (same.extends called.wellFormed).wellFormed
    (arity - (params.getD []).length)).1
  have insideNoted : callee.index < noted.store.size :=
    Nat.lt_of_lt_of_le inside (called.trans (same.extends called.wellFormed)).size
  have kept : (noted.store.constraint callee).signature =
      some ⟨params, (seeding.returnOf callee).1⟩ := by
    rw [same.store.constraint, signature]
  -- Neither the conflicts that were noted nor the classes that were made change the signature.
  have keptMade := kept
  rw [← makes.constraint callee insideNoted] at keptMade
  refine ⟨noted, params, same, kept, ?_, ?_, ?_⟩
  · simp only [formalsOf, signature, Option.bind_some]
    rfl
  · simp only [formalsOf, signature, Option.bind_some]
    rfl
  · have insideMade := Nat.lt_of_lt_of_le insideNoted makes.onward.size
    have formed := makes.onward.wellFormed.formed callee
    have fits := Constraint.fits_params formed.refers keptMade makes.inside
    simp only [formalsOf, signature, Option.bind_some]
    refine update_refines makes.onward.wellFormed insideMade fits ?_ ?_
    · have joins := Constraint.params_eq keptMade
        (noted.freshMany (arity - (params.getD []).length)).1
      rw [keptMade] at joins
      rw [← joins, keptMade]
      rfl
    · exact Constraint.implied_params keptMade _

theorem formalsOf_refines (wellFormed : seeding.WellFormed) {callee : ClassId}
    (inside : callee.index < seeding.store.size) (arity : Nat) :
    arity ≤ (seeding.formalsOf callee arity).1.length ∧
      (∀ cls ∈ (seeding.formalsOf callee arity).1,
        cls.index < (seeding.formalsOf callee arity).2.store.size) ∧
      ∃ result, Refines callee
        { signature := some ⟨some (seeding.formalsOf callee arity).1, result⟩ } seeding
        (seeding.formalsOf callee arity).2 := by
  have called := (returnOf_refines wellFormed inside).2
  obtain ⟨noted, params, same, known, formals, _, refines⟩ :=
    formalsOf_steps wellFormed inside arity
  have noting := same.extends called.onward.wellFormed
  obtain ⟨makes, length⟩ := freshMany_makes noting.wellFormed (arity - (params.getD []).length)
  have later := makes.onward.trans refines.onward
  rw [formals]
  refine ⟨?_, fun cls member => ?_, _, (called.onward.trans noting).trans later,
    refines.constraint_of, ?_⟩
  · rw [List.length_append, length]
    omega
  · rcases List.mem_append.1 member with old | new
    · obtain ⟨place, found⟩ := List.mem_iff_getElem?.1 old
      have held : (noted.store.constraint callee).Refers (.param place) cls := ⟨_, known, found⟩
      exact Nat.lt_of_lt_of_le ((noting.wellFormed.formed callee).refers held) later.size
    · exact Nat.lt_of_lt_of_le (makes.inside cls new) refines.onward.size
  · intro _ label scene unique holds given
    apply refines.holds unique _ given
    apply makes.holds
    apply same.holds.2
    apply called.holds unique holds
    exact (Constraint.within_result ⟨_, rfl, rfl⟩).holds given

variable {Label : Type} {label : ClassId → Label} {scene : Scene Label}

theorem exists_pointeeOf (unique : scene.Unique) (wellFormed : seeding.WellFormed) {base : ClassId}
    (inside : base.index < seeding.store.size) (holds : seeding.Holds label scene) {target : Label}
    (refers : scene.refers (label base) .pointee target) :
    ∃ other, Continues seeding.store.size label other ∧
      (seeding.pointeeOf base).2.Holds other scene := by
  have refines := (pointeeOf_refines wellFormed inside).2
  cases known : (seeding.store.constraint base).pointee with
  | some old =>
    refine ⟨label, Continues.refl _ _, ?_⟩
    simpa only [pointeeOf, known] using holds
  | none =>
    obtain ⟨other, continues, new, _⟩ := exists_fresh wellFormed (Constraint.fits_empty _) holds
      (Constraint.holds_empty : ({} : Constraint).Holds label scene.toModel target)
    refine ⟨other, continues, refines.holds unique (holds.continues wellFormed continues) ?_⟩
    have made : (seeding.pointeeOf base).1 = ⟨seeding.store.size⟩ := by
      simp only [pointeeOf, known]
      rfl
    rw [continues base inside, Constraint.holds_pointee, made, new]
    exact refers

theorem exists_returnOf (unique : scene.Unique) (wellFormed : seeding.WellFormed) {callee : ClassId}
    (inside : callee.index < seeding.store.size) (holds : seeding.Holds label scene)
    {result : Label} (refers : scene.refers (label callee) .result result) :
    ∃ other, Continues seeding.store.size label other ∧
      (seeding.returnOf callee).2.Holds other scene := by
  have refines := (returnOf_refines wellFormed inside).2
  cases known : (seeding.store.constraint callee).signature with
  | some old =>
    refine ⟨label, Continues.refl _ _, ?_⟩
    simpa only [returnOf, known] using holds
  | none =>
    obtain ⟨other, continues, new, _⟩ := exists_fresh wellFormed (Constraint.fits_empty _) holds
      (Constraint.holds_empty : ({} : Constraint).Holds label scene.toModel result)
    refine ⟨other, continues, refines.holds unique (holds.continues wellFormed continues) ?_⟩
    have made : (seeding.returnOf callee).1 = ⟨seeding.store.size⟩ := by
      simp only [returnOf, known]
      rfl
    rw [continues callee inside, Constraint.holds_result, made, new]
    exact refers

theorem exists_formalsOf (unique : scene.Unique) (wellFormed : seeding.WellFormed)
    {callee : ClassId} (inside : callee.index < seeding.store.size)
    (holds : seeding.Holds label scene) {result : Label}
    (returns : scene.refers (label callee) .result result) {targets : List Label}
    (takes : ∀ place target, targets[place]? = some target →
      scene.refers (label callee) (.param place) target)
    (arity : ∀ count ≤ targets.length, scene.has (label callee) (.arity count)) :
    ∃ other, Continues seeding.store.size label other ∧
      (seeding.formalsOf callee targets.length).2.Holds other scene := by
  have called := (returnOf_refines wellFormed inside).2.onward
  obtain ⟨noted, params, same, known, formals, _, refines⟩ :=
    formalsOf_steps wellFormed inside targets.length
  have noting := same.extends called.wellFormed
  obtain ⟨makes, length⟩ :=
    freshMany_makes noting.wellFormed (targets.length - (params.getD []).length)
  obtain ⟨first, continues, returned⟩ := exists_returnOf unique wellFormed inside holds returns
  have notedHolds := same.holds.2 returned
  obtain ⟨other, later, labels, made⟩ := makes.exists_labels notedHolds
    (targets.drop (params.getD []).length) (by rw [List.length_drop, length])
  have all := continues.trans later (called.trans noting).size
  have before := (notedHolds.continues noting.wellFormed later).store.constraint callee
  refine ⟨other, all, refines.holds unique made ?_⟩
  rw [all callee inside] at before ⊢
  exact Constraint.holds_params known before labels takes arity

end Seeding
end TypeRecovery
