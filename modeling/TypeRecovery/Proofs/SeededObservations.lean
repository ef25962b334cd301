import TypeRecovery.Proofs.HintDeclarations
/-!
Labellings of seeded observations. After a list of observations was seeded, a labelling holds in a
scene only if all of them were observed there. In a scene where all of them were, a labelling that
held before can be continued to the classes that seeding made.
-/
namespace TypeRecovery

variable {Label : Type} {label : ClassId → Label}

namespace Constraint

theorem holds_of_not_refers {model : Model Label} {here : Label} {constraint : Constraint}
    (bare : ∀ role cls, ¬ constraint.Refers role cls) :
    constraint.Holds label model here ↔ model.Shows here constraint :=
  ⟨And.left ∘ holds_iff.1, fun shows' =>
    ⟨shows', fun role cls refers => absurd refers (bare role cls)⟩⟩

theorem holds_evidence {model : Model Label} {here : Label} {evidence : Evidence} :
    ({ evidence } : Constraint).Holds label model here ↔ model.Shows here { evidence } :=
  holds_of_not_refers (not_refers_of_none rfl rfl rfl)

theorem holds_access {model : Model Label} {here : Label} {size : UInt8} :
    ({ maxAccess := size } : Constraint).Holds label model here ↔
      model.Shows here { maxAccess := size } :=
  holds_of_not_refers (not_refers_of_none rfl rfl rfl)

end Constraint

theorem Model.shows_accessed {model : Model Label} {here : Label} {evidence : Evidence}
    {size : UInt8} : model.Shows here { evidence, maxAccess := size } ↔
      model.Shows here { evidence } ∧ model.Shows here { maxAccess := size } := by
  constructor
  · intro both
    constructor
    · intro trait has
      cases trait with
      | access bytes => exact absurd has (Constraint.not_has_empty (.access bytes))
      | _ => exact both _ has
    · intro trait has
      cases trait with
      | evidence flag => exact absurd has (Constraint.not_has_empty (.evidence flag))
      | _ => exact both _ has
  · rintro ⟨first, second⟩ trait has
    cases trait with
    | evidence flag => exact first _ has
    | access bytes => exact second _ has
    | _ => exact first _ has

namespace Seeding

variable {scene : Scene Label} {seeding : Seeding} {cls : ClassId}

theorem label_classOf (holds : seeding.Holds label scene) {loc : LocId}
    (declared : loc.index < seeding.store.locationCount) :
    label (seeding.store.classOf loc) = scene.place loc :=
  (holds.store.root _).trans (holds.place loc declared)

theorem classOf_inside {loc : LocId} (declared : loc.index < seeding.store.locationCount) :
    (seeding.store.classOf loc).index < seeding.store.size :=
  Store.root_inside (Nat.lt_of_lt_of_le declared seeding.store.locations_inside)

/-- All that recording a use amounts to. -/
structure Records (cls : ClassId) (use : Use) (seeding after : Seeding) : Prop where
  onward : Extends seeding after
  used : ∀ {Label : Type} {label : ClassId → Label} {scene : Scene Label},
    after.Holds label scene → scene.Used (label cls) use
  exists_labels : ∀ {Label : Type} {label : ClassId → Label} {scene : Scene Label}, scene.Unique →
    seeding.Holds label scene → scene.Used (label cls) use →
    ∃ other, Continues seeding.store.size label other ∧ after.Holds other scene

-- Reads and writes are recorded alike, and so are assignments and comparisons.
theorem records_access (wellFormed : seeding.WellFormed) (inside : cls.index < seeding.store.size)
    {evidence : Evidence} {size : UInt8} {use : Use}
    (meaning : ∀ {Label : Type} {scene : Scene Label} {here : Label},
      scene.Used here use ↔ scene.Shows here { evidence, maxAccess := size }) :
    Records cls use seeding ((seeding.mark cls evidence).access cls size) := by
  have marked := mark_refines wellFormed inside evidence
  have inside' := Nat.lt_of_lt_of_le inside marked.onward.size
  have accessed := access_refines marked.onward.wellFormed inside' size
  refine ⟨marked.onward.trans accessed.onward, fun holds => ?_, fun unique holds used => ?_⟩
  · rw [meaning, Model.shows_accessed]
    exact ⟨Constraint.holds_evidence.1 (marked.constraint_of (accessed.onward.holds_of holds)),
      Constraint.holds_access.1 (accessed.constraint_of holds)⟩
  · rw [meaning, Model.shows_accessed] at used
    have first := marked.holds unique holds (Constraint.holds_evidence.2 used.1)
    exact ⟨_, Continues.refl _ _, accessed.holds unique first (Constraint.holds_access.2 used.2)⟩

theorem records_equality (wellFormed : seeding.WellFormed) (inside : cls.index < seeding.store.size)
    {source : LocId} (declared : source.index < seeding.store.locationCount) {evidence : Evidence}
    {use : Use} (meaning : ∀ {Label : Type} {scene : Scene Label} {here : Label},
      scene.Used here use ↔ scene.Shows here { evidence } ∧ here = scene.place source) :
    Records cls use seeding (((seeding.mark cls evidence).mark (seeding.store.classOf source)
      evidence).equate [(cls, seeding.store.classOf source)]) := by
  have first := mark_refines wellFormed inside evidence
  have sourceInside := Nat.lt_of_lt_of_le (classOf_inside declared) first.onward.size
  have second := mark_refines first.onward.wellFormed sourceInside evidence
  have marked := first.onward.trans second.onward
  have equated := @equate_extends _ [(cls, seeding.store.classOf source)]
      second.onward.wellFormed (by
    simpa using ⟨Nat.lt_of_lt_of_le inside marked.size,
      Nat.lt_of_lt_of_le (classOf_inside declared) marked.size⟩)
  refine ⟨marked.trans equated, fun holds => ?_, fun {_ label scene} unique holds used => ?_⟩
  · obtain ⟨markedHolds, agree⟩ := holds_equate.1 holds
    rw [meaning]
    constructor
    · exact Constraint.holds_evidence.1 (first.constraint_of (second.onward.holds_of markedHolds))
    · exact (agree _ List.mem_cons_self).trans
        (label_classOf (marked.holds_of markedHolds) declared)
  · rw [meaning] at used
    have same : label cls = label (seeding.store.classOf source) :=
      used.2.trans (label_classOf holds declared).symm
    have shown : ({ evidence } : Constraint).Holds label scene.toModel (label cls) :=
      Constraint.holds_evidence.2 used.1
    refine ⟨_, Continues.refl _ _, holds_equate.2 ⟨?_, by simpa [Agree] using same⟩⟩
    exact second.holds unique (first.holds unique holds shown) (same ▸ shown)

theorem records_dereference (wellFormed : seeding.WellFormed)
    (inside : cls.index < seeding.store.size) {base : LocId}
    (declared : base.index < seeding.store.locationCount) (offset : Int64) (size : UInt8) :
    Records cls (.dereference base offset size) seeding
      (seeding.recordUse cls (.dereference base offset size)) := by
  have baseInside := classOf_inside declared
  have marked := mark_refines wellFormed baseInside {.dereferenced}
  have accessed := access_refines marked.onward.wellFormed
    (Nat.lt_of_lt_of_le inside marked.onward.size) size
  have before := marked.onward.trans accessed.onward
  have baseInside' := Nat.lt_of_lt_of_le baseInside before.size
  obtain ⟨targetInside, pointed⟩ := pointeeOf_refines accessed.onward.wellFormed baseInside'
  have sofar := before.trans pointed.onward
  have slotted := @addSlot_refines _ _ pointed.onward.wellFormed targetInside ⟨offset, size, cls⟩
    (Nat.lt_of_lt_of_le inside sofar.size)
  refine ⟨sofar.trans slotted.onward, fun {_ label scene} holds => ?_,
    fun {_ label scene} unique holds used => ?_⟩
  · have pointedHolds := slotted.onward.holds_of holds
    have accessedHolds := pointed.onward.holds_of pointedHolds
    have markedHolds := accessed.onward.holds_of accessedHolds
    simp only [Scene.Used]
    rw [← label_classOf (marked.onward.holds_of markedHolds) declared]
    refine ⟨Constraint.holds_evidence.1 (marked.constraint_of markedHolds),
      Constraint.holds_access.1 (accessed.constraint_of accessedHolds), _,
      Constraint.holds_pointee.1 (pointed.constraint_of pointedHolds),
      Constraint.holds_slot.1 (slotted.constraint_of holds)⟩
  · simp only [Scene.Used] at used
    rw [← label_classOf holds declared] at used
    obtain ⟨marks, accesses, target, points, slot⟩ := used
    have markedHolds := marked.holds unique holds (Constraint.holds_evidence.2 marks)
    have accessedHolds := accessed.holds unique markedHolds (Constraint.holds_access.2 accesses)
    obtain ⟨other, continues, pointedHolds⟩ := exists_pointeeOf unique accessed.onward.wellFormed
      baseInside' accessedHolds points
    have found := Constraint.holds_pointee.1 (pointed.constraint_of pointedHolds)
    rw [continues _ baseInside'] at found
    refine ⟨other, fun known inside => continues known (Nat.lt_of_lt_of_le inside before.size),
      slotted.holds unique pointedHolds (Constraint.holds_slot.2 ?_)⟩
    rw [unique found points, continues cls (Nat.lt_of_lt_of_le inside before.size)]
    exact slot

theorem mem_zip_iff {args : List LocId} {params : List ClassId} {classOf : LocId → ClassId}
    {pair : ClassPair} : pair ∈ (args.map classOf).zip params ↔
      ∃ (place : Nat) (arg : LocId), args[place]? = some arg ∧ params[place]? = some pair.2 ∧
        classOf arg = pair.1 := by
  rw [List.mem_iff_getElem?]
  apply exists_congr
  intro place
  rw [List.getElem?_zip_eq_some, List.getElem?_map, Option.map_eq_some_iff]
  constructor
  · rintro ⟨⟨arg, given, same⟩, param⟩
    exact ⟨arg, given, param, same⟩
  · rintro ⟨arg, given, param, same⟩
    exact ⟨⟨arg, given, same⟩, param⟩

theorem records_call (wellFormed : seeding.WellFormed) (inside : cls.index < seeding.store.size)
    {args : List LocId} (declared : ∀ arg ∈ args, arg.index < seeding.store.locationCount) :
    Records cls (.callWithArgs args) seeding (seeding.recordUse cls (.callWithArgs args)) := by
  have marked := mark_refines wellFormed inside {.called}
  have inside' := Nat.lt_of_lt_of_le inside marked.onward.size
  obtain ⟨enough, paramsInside, result, refines⟩ :=
    formalsOf_refines marked.onward.wellFormed inside' args.length
  let formals := (seeding.mark cls {.called}).formalsOf cls args.length
  have before : Extends seeding formals.2 := marked.onward.trans refines.onward
  have declared' {arg : LocId} (member : arg ∈ args) :
      arg.index < formals.2.store.locationCount := by
    rw [before.locationCount]
    exact declared arg member
  have equated := @equate_extends formals.2 ((args.map formals.2.store.classOf).zip formals.1)
    refines.onward.wellFormed (by
      intro pair member
      obtain ⟨place, arg, given, param, same⟩ := mem_zip_iff.1 member
      exact ⟨same ▸ classOf_inside (declared' (List.mem_of_getElem? given)),
        paramsInside _ (List.mem_of_getElem? param)⟩)
  refine ⟨before.trans equated, fun {_ label scene} holds => ?_,
    fun {_ label scene} unique holds used => ?_⟩
  -- An argument has the label of the parameter it is paired with.
  · obtain ⟨formalsHold, agree⟩ := holds_equate.1 holds
    have called := refines.constraint_of formalsHold
    simp only [Scene.Used]
    refine ⟨Constraint.holds_evidence.1
      (marked.constraint_of (refines.onward.holds_of formalsHold)),
      ⟨_, called.refers .result _ ⟨_, rfl, rfl⟩⟩, fun count least => ?_, fun place arg found => ?_⟩
    · exact called.has _ (Constraint.has_params.2 ⟨count, Nat.le_trans least enough, rfl⟩)
    · have short : place < formals.1.length :=
        Nat.lt_of_lt_of_le (List.getElem?_eq_some_iff.1 found).1 enough
      have param : formals.1[place]? = some formals.1[place] := List.getElem?_eq_getElem short
      have same := agree (formals.2.store.classOf arg, formals.1[place])
        (mem_zip_iff.2 ⟨place, arg, found, param, rfl⟩)
      rw [← label_classOf formalsHold (declared' (List.mem_of_getElem? found)), same]
      exact called.refers (.param place) _ ⟨_, rfl, param⟩
  · simp only [Scene.Used] at used
    obtain ⟨calls, ⟨target, returns⟩, arity, takes⟩ := used
    have markedHolds := marked.holds unique holds (Constraint.holds_evidence.2 calls)
    -- The parameters that were not known can be labelled like the arguments passed for them.
    have known : ∃ other, Continues (seeding.mark cls {.called}).store.size label other ∧
        formals.2.Holds other scene := by
      have length : (args.map scene.place).length = args.length := List.length_map _
      have made := @exists_formalsOf _ _ _ _ unique marked.onward.wellFormed _ inside' markedHolds
        _ returns (args.map scene.place) (fun place target found => ?_) (length ▸ arity)
      · rwa [length] at made
      · rw [List.getElem?_map, Option.map_eq_some_iff] at found
        obtain ⟨arg, found, rfl⟩ := found
        exact takes place arg found
    obtain ⟨other, continues, formalsHold⟩ := known
    have called := refines.constraint_of formalsHold
    rw [continues cls inside'] at called
    refine ⟨other, fun known inside =>
      continues known (Nat.lt_of_lt_of_le inside marked.onward.size),
      holds_equate.2 ⟨formalsHold, fun pair member => ?_⟩⟩
    obtain ⟨place, arg, given, param, same⟩ := mem_zip_iff.1 member
    rw [← same, label_classOf formalsHold (declared' (List.mem_of_getElem? given))]
    exact unique (takes place arg given) (called.refers (.param place) _ ⟨_, rfl, param⟩)

theorem records_return (wellFormed : seeding.WellFormed) (inside : cls.index < seeding.store.size)
    {callee : LocId} (declared : callee.index < seeding.store.locationCount) :
    Records cls (.callReturns callee) seeding (seeding.recordUse cls (.callReturns callee)) := by
  have calleeInside := classOf_inside declared
  have first := mark_refines wellFormed calleeInside {.called}
  have second := mark_refines first.onward.wellFormed
    (Nat.lt_of_lt_of_le inside first.onward.size) {.callResult}
  have marked := first.onward.trans second.onward
  have calleeInside' := Nat.lt_of_lt_of_le calleeInside marked.size
  obtain ⟨resultInside, returned⟩ := returnOf_refines second.onward.wellFormed calleeInside'
  have before := marked.trans returned.onward
  have clsInside := Nat.lt_of_lt_of_le inside before.size
  have equated := @equate_extends _ [(cls, _)] returned.onward.wellFormed
    (by simpa using ⟨clsInside, resultInside⟩)
  refine ⟨before.trans equated, fun {_ label scene} holds => ?_,
    fun {_ label scene} unique holds used => ?_⟩
  · obtain ⟨returnedHolds, agree⟩ := holds_equate.1 holds
    have secondHolds := returned.onward.holds_of returnedHolds
    have firstHolds := second.onward.holds_of secondHolds
    simp only [Scene.Used]
    rw [← label_classOf (first.onward.holds_of firstHolds) declared]
    refine ⟨Constraint.holds_evidence.1 (first.constraint_of firstHolds),
      Constraint.holds_evidence.1 (second.constraint_of secondHolds), ?_⟩
    rw [agree _ List.mem_cons_self]
    exact Constraint.holds_result.1 (returned.constraint_of returnedHolds)
  · simp only [Scene.Used] at used
    rw [← label_classOf holds declared] at used
    obtain ⟨calls, results, returns⟩ := used
    have firstHolds := first.holds unique holds (Constraint.holds_evidence.2 calls)
    have secondHolds := second.holds unique firstHolds (Constraint.holds_evidence.2 results)
    obtain ⟨other, continues, returnedHolds⟩ :=
      exists_returnOf unique second.onward.wellFormed calleeInside' secondHolds returns
    have found := Constraint.holds_result.1 (returned.constraint_of returnedHolds)
    rw [continues _ calleeInside'] at found
    refine ⟨other, fun known inside => continues known (Nat.lt_of_lt_of_le inside marked.size),
      holds_equate.2 ⟨returnedHolds, ?_⟩⟩
    have same := (continues cls (Nat.lt_of_lt_of_le inside marked.size)).trans
      (unique returns found)
    simpa [Agree] using same

theorem records_arithmetic (wellFormed : seeding.WellFormed)
    (inside : cls.index < seeding.store.size) {other : LocId}
    (declared : other.index < seeding.store.locationCount) (operator : Operator) :
    Records cls (.arithmeticWith other operator) seeding
      (seeding.recordUse cls (.arithmeticWith other operator)) := by
  let evidence := Evidence.ofFlags (.arithmetic :: (operator.signedness.map Flag.observed).toList)
  have first := mark_refines wellFormed inside evidence
  by_cases additive : operator.isAdditive = true
  · simp only [recordUse, additive, if_true]
    refine ⟨first.onward, fun holds => ?_, fun unique holds used => ?_⟩
    · simp only [Scene.Used, additive]
      exact ⟨Constraint.holds_evidence.1 (first.constraint_of holds), fun not => by cases not⟩
    · exact ⟨_, Continues.refl _ _, first.holds unique holds (Constraint.holds_evidence.2 used.1)⟩
  · have strict : operator.isAdditive = false := by simpa using additive
    have otherInside := Nat.lt_of_lt_of_le (classOf_inside declared) first.onward.size
    have second := mark_refines first.onward.wellFormed otherInside evidence
    simp only [recordUse, additive]
    refine ⟨first.onward.trans second.onward, fun holds => ?_, fun unique holds used => ?_⟩
    · have firstHolds := second.onward.holds_of holds
      simp only [Scene.Used, strict]
      rw [← label_classOf (first.onward.holds_of firstHolds) declared]
      exact ⟨Constraint.holds_evidence.1 (first.constraint_of firstHolds),
        fun _ => Constraint.holds_evidence.1 (second.constraint_of holds)⟩
    · simp only [Scene.Used, strict] at used
      rw [← label_classOf holds declared] at used
      refine ⟨_, Continues.refl _ _, second.holds unique (first.holds unique holds
        (Constraint.holds_evidence.2 used.1)) (Constraint.holds_evidence.2 (used.2 trivial))⟩

theorem recordUse_records (wellFormed : seeding.WellFormed)
    (inside : cls.index < seeding.store.size)
    (use : Use) (declared : ∀ loc ∈ use.operands, loc.index < seeding.store.locationCount) :
    Records cls use seeding (seeding.recordUse cls use) := by
  cases use with
  | read size => exact records_access wellFormed inside Iff.rfl
  | write size => exact records_access wellFormed inside Iff.rfl
  | assignedFrom source =>
    exact records_equality wellFormed inside (declared source List.mem_cons_self) Iff.rfl
  | dereference base offset size =>
    exact records_dereference wellFormed inside (declared base List.mem_cons_self) offset size
  | callWithArgs args => exact records_call wellFormed inside declared
  | callReturns callee =>
    exact records_return wellFormed inside (declared callee List.mem_cons_self)
  | comparedWith other signedness =>
    exact records_equality wellFormed inside (declared other List.mem_cons_self) Iff.rfl
  | arithmeticWith other operator =>
    exact records_arithmetic wellFormed inside (declared other List.mem_cons_self) operator

theorem typedefs_pointeeOf (seeding : Seeding) (base : ClassId) :
    (seeding.pointeeOf base).2.store.typedefs = seeding.store.typedefs := by
  unfold pointeeOf
  split <;> rfl

theorem typedefs_returnOf (seeding : Seeding) (callee : ClassId) :
    (seeding.returnOf callee).2.store.typedefs = seeding.store.typedefs := by
  unfold returnOf
  split <;> rfl

theorem typedefs_freshMany (seeding : Seeding) (count : Nat) :
    (seeding.freshMany count).2.store.typedefs = seeding.store.typedefs := by
  induction count generalizing seeding with
  | zero => rfl
  | succ count ih => exact ih (seeding.fresh {}).2

theorem typedefs_formalsOf (seeding : Seeding) (callee : ClassId) (arity : Nat) :
    (seeding.formalsOf callee arity).2.store.typedefs = seeding.store.typedefs := by
  simp only [formalsOf, update, Store.update, typedefs_freshMany,
    (Store.recordConflicts_same _ _ _).typedefs, typedefs_returnOf]

theorem typedefs_recordUse (seeding : Seeding) (cls : ClassId) (use : Use) :
    (seeding.recordUse cls use).store.typedefs = seeding.store.typedefs := by
  cases use with
  | dereference base offset size =>
    simp only [recordUse, addSlot, equate, update, Store.update, typedefs_pointeeOf]
    rfl
  | callWithArgs args =>
    simp only [recordUse, equate, typedefs_formalsOf]
    rfl
  | callReturns callee =>
    simp only [recordUse, equate, typedefs_returnOf]
    rfl
  | arithmeticWith other operator =>
    simp only [recordUse]
    split <;> rfl
  | _ => rfl

theorem typedef?_recordUse (wellFormed : seeding.WellFormed)
    (inside : cls.index < seeding.store.size) (use : Use)
    (declared : ∀ loc ∈ use.operands, loc.index < seeding.store.locationCount) (name : String) :
    (seeding.recordUse cls use).store.typedef? name = seeding.store.typedef? name := by
  unfold Store.typedef?
  simp only [typedefs_recordUse, (recordUse_records wellFormed inside use declared).onward.root]

theorem observe_ok {pointerSize : UInt8} {observation : Observation} {after : Seeding}
    (ok : seeding.observe pointerSize observation = .ok after) :
    (∀ loc ∈ observation.locations, loc.index < seeding.store.locationCount) ∧
      let cls := seeding.store.classOf observation.location
      let used := seeding.recordUse cls observation.use
      after = match observation.hint with
        | some hint => used.declare pointerSize cls hint
        | none => used := by
  unfold observe at ok
  split at ok
  · cases ok
  · rename_i absent
    refine ⟨fun loc member => ?_, ?_⟩
    · simpa using List.find?_eq_none.1 absent loc member
    · split at ok <;> cases ok <;> simp [*]

theorem observe_of_declared {pointerSize : UInt8} {observation : Observation}
    (declared : ∀ loc ∈ observation.locations, loc.index < seeding.store.locationCount) :
    ∃ after, seeding.observe pointerSize observation = .ok after := by
  have absent : (observation.locations.find? fun loc =>
      seeding.store.locationCount ≤ loc.index) = none :=
    List.find?_eq_none.2 fun loc member => by simpa using declared loc member
  unfold observe
  rw [absent]
  cases observation.hint with
  | none => exact ⟨_, rfl⟩
  | some hint => exact ⟨_, rfl⟩

/-- Every typedef of the seeding is as good as its definition, unless that was lost. -/
def Sound (scene : Scene Label) (pointerSize : UInt8) (lost : List String) (seeding : Seeding) :
    Prop :=
  ∀ name entry, seeding.store.typedef? name = some entry →
    scene.Defined pointerSize lost name entry.2

variable {pointerSize : UInt8} {lost : List String}

theorem Sound.settled (sound : Sound scene pointerSize lost seeding) (bound : Nat) :
    Settled scene pointerSize lost bound seeding :=
  fun name entry found kept => (sound name entry found kept).imp_right fun declared _ => declared

theorem Sound.after {after : Seeding} (sound : Sound scene pointerSize lost seeding)
    (settles : Settles scene pointerSize lost seeding after) :
    Sound scene pointerSize lost after := by
  intro name entry found
  exact (settles name entry found).elim (sound name entry) id

/-- All that seeding observations amounts to. -/
structure Observes (pointerSize : UInt8) (observations : List Observation)
    (seeding after : Seeding) : Prop where
  onward : Extends seeding after
  declared : ∀ observation ∈ observations, ∀ loc ∈ observation.locations,
    loc.index < seeding.store.locationCount
  observed : ∀ {Label : Type} {label : ClassId → Label} {scene : Scene Label} {lost : List String},
    after.Holds label scene → Sound scene pointerSize lost seeding →
    Sound scene pointerSize lost after ∧
      ∀ observation ∈ observations, scene.Observed pointerSize lost observation
  exists_labels : ∀ {Label : Type} {label : ClassId → Label} {scene : Scene Label}, scene.Unique →
    seeding.Holds label scene →
    (∀ observation ∈ observations, scene.Observed pointerSize [] observation) →
    ∃ other, Continues seeding.store.size label other ∧ after.Holds other scene

theorem Observes.trans {first second : List Observation} {middle after : Seeding}
    (left : Observes pointerSize first seeding middle)
    (right : Observes pointerSize second middle after) :
    Observes pointerSize (first ++ second) seeding after where
  onward := left.onward.trans right.onward
  declared := List.forall_mem_append.2
    ⟨left.declared, by rw [← left.onward.locationCount]; exact right.declared⟩
  observed holds sound := by
    obtain ⟨middleSound, firstObserved⟩ := left.observed (right.onward.holds_of holds) sound
    obtain ⟨afterSound, secondObserved⟩ := right.observed holds middleSound
    exact ⟨afterSound, List.forall_mem_append.2 ⟨firstObserved, secondObserved⟩⟩
  exists_labels unique holds observed := by
    obtain ⟨firstObserved, secondObserved⟩ := List.forall_mem_append.1 observed
    obtain ⟨other, continues, middleHolds⟩ := left.exists_labels unique holds firstObserved
    obtain ⟨last, later, afterHolds⟩ := right.exists_labels unique middleHolds secondObserved
    exact ⟨last, continues.trans later left.onward.size, afterHolds⟩

theorem observe_observes {observation : Observation} {after : Seeding}
    (wellFormed : seeding.WellFormed) (ok : seeding.observe pointerSize observation = .ok after) :
    Observes pointerSize [observation] seeding after := by
  obtain ⟨declared, outcome⟩ := observe_ok ok
  have place := declared observation.location List.mem_cons_self
  have inside := classOf_inside place
  have operands (loc : LocId) (member : loc ∈ observation.use.operands) :=
    declared loc (List.mem_cons_of_mem _ member)
  have used := recordUse_records wellFormed inside observation.use operands
  have usedSettles {Label : Type} {scene : Scene Label} {lost : List String} :
      Settles scene pointerSize lost seeding
        (seeding.recordUse (seeding.store.classOf observation.location) observation.use) :=
    binds_of_same (typedef?_recordUse wellFormed inside observation.use operands)
  cases hinted : observation.hint with
  | none =>
    simp only [hinted] at outcome
    subst outcome
    refine ⟨used.onward, by simpa using declared, fun holds sound => ?_,
      fun unique holds observed => ?_⟩
    · refine ⟨sound.after usedSettles, List.forall_mem_singleton.2 ⟨?_, by simp [hinted]⟩⟩
      rw [← label_classOf (used.onward.holds_of holds) place]
      exact used.used holds
    · apply used.exists_labels unique holds
      rw [label_classOf holds place]
      exact (observed _ List.mem_cons_self).1
  | some hint =>
    simp only [hinted] at outcome
    subst outcome
    have inside' := Nat.lt_of_lt_of_le inside used.onward.size
    have declaring := @declare_extends _ pointerSize _ hint used.onward.wellFormed inside'
    refine ⟨used.onward.trans declaring, by simpa using declared,
      fun holds sound => ?_, fun {_ label scene} unique holds observed => ?_⟩
    · have usedHolds := declaring.holds_of holds
      have usedSound := sound.after usedSettles
      obtain ⟨hintDeclared, settles⟩ :=
        declared_of_declare hint used.onward.wellFormed inside' (usedSound.settled _) holds
      refine ⟨usedSound.after settles, List.forall_mem_singleton.2 ⟨?_, fun known found => ?_⟩⟩
      · rw [← label_classOf (used.onward.holds_of usedHolds) place]
        exact used.used usedHolds
      · cases hinted.symm.trans found
        rw [← label_classOf (used.onward.holds_of usedHolds) place]
        exact hintDeclared
    · have seen := observed _ List.mem_cons_self
      rw [Scene.Observed, ← label_classOf holds place] at seen
      obtain ⟨first, continues, usedHolds⟩ := used.exists_labels unique holds seen.1
      have hintDeclared := seen.2 hint hinted
      rw [← continues _ inside] at hintDeclared
      obtain ⟨other, later, after⟩ :=
        exists_declare hint used.onward.wellFormed inside' unique usedHolds hintDeclared
      exact ⟨other, continues.trans later used.onward.size, after⟩

theorem observeAll_observes {observations : List Observation} {after : Seeding}
    (wellFormed : seeding.WellFormed)
    (ok : seeding.observeAll pointerSize observations = (after, none)) :
    Observes pointerSize observations seeding after := by
  induction observations generalizing seeding with
  | nil =>
    cases ok
    exact ⟨Extends.refl wellFormed, List.forall_mem_nil _,
      fun _ sound => ⟨sound, List.forall_mem_nil _⟩,
      fun _ holds _ => ⟨_, Continues.refl _ _, holds⟩⟩
  | cons observation rest ih =>
    cases found : seeding.observe pointerSize observation with
    | error failure => simp [observeAll, found] at ok
    | ok seeded =>
      simp only [observeAll, found] at ok
      have first := observe_observes wellFormed found
      exact first.trans (ih first.onward.wellFormed ok)

/-- Seeding goes on up to a failure too, where only the equalities are lost. -/
theorem observeAll_extends (observations : List Observation) (wellFormed : seeding.WellFormed) :
    Extends seeding (seeding.observeAll pointerSize observations).1 := by
  induction observations generalizing seeding with
  | nil => exact Extends.refl wellFormed
  | cons observation rest ih =>
    unfold observeAll
    cases found : seeding.observe pointerSize observation with
    | error failure => exact Extends.refl wellFormed
    | ok seeded =>
      have first := (observe_observes wellFormed found).onward
      exact first.trans (ih first.wellFormed)

end Seeding
end TypeRecovery
