import TypeRecovery.Proofs.Checked.Store
import TypeRecovery.Proofs.SeedingPreservation
/-!
Seeding with lookups that can fail. A class that is looked up was made for a location, or it was
made on the way, or it is one that a constraint or a typedef mentions. A seeding is valid when all
of these are in its store, and it stays so. Therefore no lookup fails, and what is seeded is the
same as without the checks.
-/
namespace TypeRecovery.Seeding

def update? (seeding : Seeding) (cls : ClassId) (change : Constraint → Constraint) :
    Option Seeding := do
  return { seeding with store := ← seeding.store.update? cls change }

def mark? (seeding : Seeding) (cls : ClassId) (evidence : Evidence) : Option Seeding :=
  seeding.update? cls fun constraint => constraint.addEvidence evidence

def access? (seeding : Seeding) (cls : ClassId) (size : UInt8) : Option Seeding :=
  seeding.update? cls fun constraint => constraint.recordAccess size

def addSlot? (seeding : Seeding) (cls : ClassId) (slot : Slot) : Option Seeding := do
  let added := (← seeding.store.constraint? cls).addSlot slot
  return (← seeding.update? cls fun _ => added.1).equate added.2.toList

def pointeeOf? (seeding : Seeding) (base : ClassId) : Option (ClassId × Seeding) := do
  match (← seeding.store.constraint? base).pointee with
  | some target => return (target, seeding)
  | none =>
    let made := seeding.fresh {}
    return (made.1, ← made.2.update? base fun constraint =>
      { constraint with pointee := some made.1 })

def returnOf? (seeding : Seeding) (callee : ClassId) : Option (ClassId × Seeding) := do
  match (← seeding.store.constraint? callee).signature with
  | some signature => return (signature.ret, seeding)
  | none =>
    let made := seeding.fresh {}
    return (made.1, ← made.2.update? callee fun constraint =>
      { constraint with signature := some ⟨none, made.1⟩ })

def formalsOf? (seeding : Seeding) (callee : ClassId) (arity : Nat) :
    Option (List ClassId × Seeding) := do
  let called := (← seeding.returnOf? callee).2
  let known := (← called.store.constraint? callee).signature.bind Signature.params
  let conflicts := Conflict.ofArities (known.map List.length) (some arity)
  let noted := { called with
    store := conflicts.foldl (fun store => store.recordConflict callee) called.store }
  let made := noted.freshMany (arity - (known.getD []).length)
  let params := known.getD [] ++ made.1
  return (params, ← made.2.update? callee fun constraint =>
    { constraint with
      signature := constraint.signature.map fun signature =>
        { signature with params := some params } })

def declareRealized? (seeding : Seeding) (cls : ClassId) : Realized → Option Seeding
  | .constraint constraint => do
    let refined ← seeding.store.refine? cls constraint
    return { seeding with store := refined.2 }.equate refined.1
  | .typedef named => return seeding.equate [(cls, named)]

mutual
def realize? (pointerSize : UInt8) : Hint → Seeding → Option (Realized × Seeding)
  | .void, seeding => return realize pointerSize .void seeding
  | .int size signedness, seeding => return realize pointerSize (.int size signedness) seeding
  | .pointer inner, seeding => do
    let realized ← realize? pointerSize inner seeding
    let value := realized.2.settle realized.1
    let target := match inner.size pointerSize with
      | some size => value.2.fresh { slots := [⟨0, size, value.1⟩] }
      | none => value
    return (.constraint {
      declaredKind := some .pointer
      declaredWidth := some pointerSize
      pointee := some target.1 }, target.2)
  | .function _ params ret, seeding => do
    let formals ← settleAll? pointerSize params seeding
    let realized ← realize? pointerSize ret formals.2
    let result := realized.2.settle realized.1
    return (.constraint {
      declaredKind := some .function
      signature := some ⟨some formals.1, result.1⟩ }, result.2)
  | .named name definition, seeding => do
    match ← seeding.store.boundTo? name with
    | some (cls, known) =>
      if known = definition then return (.typedef cls, seeding)
      else
        let realized ← realize? pointerSize definition seeding
        return (.typedef cls, ← realized.2.declareRealized? cls realized.1)
    | none =>
      let made := seeding.fresh { declaredName := some name }
      let bound := { made.2 with store := made.2.store.bindTypedef name made.1 definition }
      let realized ← realize? pointerSize definition bound
      return (.typedef made.1, ← realized.2.declareRealized? made.1 realized.1)

def settleAll? (pointerSize : UInt8) : List Hint → Seeding → Option (List ClassId × Seeding)
  | [], seeding => return ([], seeding)
  | hint :: rest, seeding => do
    let realized ← realize? pointerSize hint seeding
    let first := realized.2.settle realized.1
    let others ← settleAll? pointerSize rest first.2
    return (first.1 :: others.1, others.2)
end

def declare? (pointerSize : UInt8) (seeding : Seeding) (cls : ClassId) (hint : Hint) :
    Option Seeding := do
  let realized ← realize? pointerSize hint seeding
  realized.2.declareRealized? cls realized.1

def recordUse? (seeding : Seeding) (cls : ClassId) : Use → Option Seeding
  | .read size => do (← seeding.mark? cls {.read}).access? cls size
  | .write size => do (← seeding.mark? cls {.written}).access? cls size
  | .assignedFrom source => do
    let source ← seeding.store.classOf? source
    let marked ← (← seeding.mark? cls {.assigned}).mark? source {.assigned}
    return marked.equate [(cls, source)]
  | .dereference base offset size => do
    let base ← seeding.store.classOf? base
    let target ← (← (← seeding.mark? base {.dereferenced}).access? cls size).pointeeOf? base
    target.2.addSlot? target.1 ⟨offset, size, cls⟩
  | .callWithArgs args => do
    let formals ← (← seeding.mark? cls {.called}).formalsOf? cls args.length
    return formals.2.equate ((← args.mapM formals.2.store.classOf?).zip formals.1)
  | .callReturns callee => do
    let callee ← seeding.store.classOf? callee
    let marked ← (← seeding.mark? callee {.called}).mark? cls {.callResult}
    let result ← marked.returnOf? callee
    return result.2.equate [(cls, result.1)]
  | .comparedWith other signedness => do
    let other ← seeding.store.classOf? other
    let evidence := Evidence.ofFlags (.compared :: (signedness.map Flag.observed).toList)
    let marked ← (← seeding.mark? cls evidence).mark? other evidence
    return marked.equate [(cls, other)]
  | .arithmeticWith other operator => do
    let evidence := Evidence.ofFlags (.arithmetic :: (operator.signedness.map Flag.observed).toList)
    let marked ← seeding.mark? cls evidence
    if operator.isAdditive then return marked
    else marked.mark? (← marked.store.classOf? other) evidence

def observeOne? (pointerSize : UInt8) (seeding : Seeding) (observation : Observation) :
    Option (Except AnalysisFailure Seeding) :=
  match observation.locations.find? fun loc => seeding.store.locationCount ≤ loc.index with
  | some undeclared => return .error (.unknownLocation observation.point undeclared)
  | none => do
    let cls ← seeding.store.classOf? observation.location
    let used ← seeding.recordUse? cls observation.use
    match observation.hint with
    | some hint => return .ok (← used.declare? pointerSize cls hint)
    | none => return .ok used

def observeAll? (pointerSize : UInt8) (seeding : Seeding) :
    List Observation → Option (Seeding × Option AnalysisFailure)
  | [] => return (seeding, none)
  | observation :: rest => do
    match ← seeding.observeOne? pointerSize observation with
    | .error failure => return (seeding, some failure)
    | .ok seeded => seeded.observeAll? pointerSize rest

variable {seeding : Seeding} {cls : ClassId} {pointerSize : UInt8}

theorem update?_eq (inside : cls.index < seeding.store.size) (change : Constraint → Constraint) :
    seeding.update? cls change = some (seeding.update cls change) := by
  simp [update?, update, Store.update?_eq inside]

theorem mark?_eq (inside : cls.index < seeding.store.size) (evidence : Evidence) :
    seeding.mark? cls evidence = some (seeding.mark cls evidence) := update?_eq inside _

theorem access?_eq (inside : cls.index < seeding.store.size) (size : UInt8) :
    seeding.access? cls size = some (seeding.access cls size) := update?_eq inside _

theorem addSlot?_eq (inside : cls.index < seeding.store.size) (slot : Slot) :
    seeding.addSlot? cls slot = some (seeding.addSlot cls slot) := by
  simp [addSlot?, addSlot, Store.constraint?_eq inside, update?_eq inside]

theorem pointeeOf?_eq (inside : cls.index < seeding.store.size) :
    seeding.pointeeOf? cls = some (seeding.pointeeOf cls) := by
  simp only [pointeeOf?, pointeeOf, Store.constraint?_eq inside, Option.bind_eq_bind,
    Option.bind_some]
  cases (seeding.store.constraint cls).pointee with
  | some target => rfl
  | none => simp [update?_eq (inside_fresh inside {})]

theorem returnOf?_eq (inside : cls.index < seeding.store.size) :
    seeding.returnOf? cls = some (seeding.returnOf cls) := by
  simp only [returnOf?, returnOf, Store.constraint?_eq inside, Option.bind_eq_bind,
    Option.bind_some]
  cases (seeding.store.constraint cls).signature with
  | some signature => rfl
  | none => simp [update?_eq (inside_fresh inside {})]

theorem formalsOf?_eq (inside : cls.index < seeding.store.size) (arity : Nat) :
    seeding.formalsOf? cls arity = some (seeding.formalsOf cls arity) := by
  have called := Nat.lt_of_lt_of_le inside (keeps_returnOf seeding cls).size
  have made (conflicts : List Conflict) (count : Nat) : cls.index < (freshMany ⟨conflicts.foldl
      (fun store => store.recordConflict cls) (seeding.returnOf cls).2.store,
      (seeding.returnOf cls).2.merges⟩ count).2.store.size := by
    refine Nat.lt_of_lt_of_le ?_ (keeps_freshMany _ count).1.size
    exact called.trans_eq (Store.recordConflicts_same _ cls conflicts).size.symm
  simp [formalsOf?, formalsOf, returnOf?_eq inside, Store.constraint?_eq called,
    update?_eq (made _ _)]

theorem declareRealized?_eq (inside : cls.index < seeding.store.size) (realized : Realized) :
    seeding.declareRealized? cls realized = some (seeding.declareRealized cls realized) := by
  cases realized with
  | constraint constraint => simp [declareRealized?, declareRealized, Store.refine?_eq inside]
  | typedef named => rfl

mutual
theorem realize?_eq (hint : Hint) {seeding : Seeding} (valid : seeding.Valid) :
    realize? pointerSize hint seeding = some (realize pointerSize hint seeding) := by
  match hint with
  | .void => simp [realize?, realize]
  | .int size signedness => simp [realize?, realize]
  | .pointer inner =>
    have realized := realize?_eq inner valid
    cases size : inner.size pointerSize <;> simp [realize?, realize, realized, size]
  | .function name params ret =>
    have formals := (settleAll_keeps pointerSize params seeding).1.valid valid
    simp only [realize?, realize, settleAll?_eq params valid, realize?_eq ret formals,
      Option.bind_eq_bind, Option.bind_some, Option.pure_def]
  | .named name definition =>
    simp only [realize?, realize, Store.boundTo?_eq valid.typedefs, Option.bind_eq_bind,
      Option.bind_some]
    cases found : seeding.store.typedef? name with
    | some entry =>
      by_cases same : entry.2 = definition
      · simp [same]
      · have realized := (realize_keeps pointerSize definition seeding).1
        have inside := Nat.lt_of_lt_of_le (valid.typedefs found) realized.size
        simp [same, realize?_eq definition valid, declareRealized?_eq inside]
    | none =>
      obtain ⟨interned, new⟩ := keeps_intern definition found
      have realized := (realize_keeps pointerSize definition (seeding.intern name definition)).1
      have inside := Nat.lt_of_lt_of_le new realized.size
      refine (bind_eq (realize?_eq definition (interned.valid valid))).trans ?_
      exact bind_eq (declareRealized?_eq inside _)

theorem settleAll?_eq (hints : List Hint) {seeding : Seeding} (valid : seeding.Valid) :
    settleAll? pointerSize hints seeding = some (settleAll pointerSize hints seeding) := by
  match hints with
  | [] => simp [settleAll?, settleAll]
  | hint :: rest =>
    obtain ⟨realized, fits⟩ := realize_keeps pointerSize hint seeding
    have others := settleAll?_eq rest ((realized.settle fits).1.valid valid)
    simp only [settleAll?, settleAll, realize?_eq hint valid, others, Option.bind_eq_bind,
      Option.bind_some, Option.pure_def]
end

theorem declare?_eq (hint : Hint) (valid : seeding.Valid)
    (inside : cls.index < seeding.store.size) :
    seeding.declare? pointerSize cls hint = some (seeding.declare pointerSize cls hint) := by
  have realized := (realize_keeps pointerSize hint seeding).1
  simp [declare?, declare, realize?_eq hint valid,
    declareRealized?_eq (Nat.lt_of_lt_of_le inside realized.size)]

theorem dereference?_eq (valid : seeding.Valid) (inside : cls.index < seeding.store.size)
    {base : LocId} (declared : base.index < seeding.store.locationCount) (offset : Int64)
    (size : UInt8) : seeding.recordUse? cls (.dereference base offset size) =
      some (seeding.recordUse cls (.dereference base offset size)) := by
  have baseInside := classOf_inside declared
  have accessed := (keeps_mark seeding (seeding.store.classOf base) {.dereferenced}).trans
    (keeps_access _ cls size)
  have pointed := keeps_pointeeOf ((seeding.mark (seeding.store.classOf base)
    {.dereferenced}).access cls size) (seeding.store.classOf base)
  -- The class pointed at was made for this use, or the constraint of the base referred to it.
  have target := ((accessed.trans pointed).valid valid).refers
    (pointee_pointeeOf (Nat.lt_of_lt_of_le baseInside accessed.size))
  have inside' :
      cls.index < (seeding.mark (seeding.store.classOf base) {.dereferenced}).store.size :=
    inside
  simp [recordUse?, recordUse, Store.classOf?_eq declared, mark?_eq baseInside, access?_eq inside',
    pointeeOf?_eq (Nat.lt_of_lt_of_le baseInside accessed.size), addSlot?_eq target]

theorem callWithArgs?_eq (inside : cls.index < seeding.store.size) {args : List LocId}
    (declared : ∀ arg ∈ args, arg.index < seeding.store.locationCount) :
    seeding.recordUse? cls (.callWithArgs args) =
      some (seeding.recordUse cls (.callWithArgs args)) := by
  have marked := keeps_mark seeding cls {.called}
  have kept := (marked.trans (formalsOf_keeps _ cls args.length).1).locationCount
  have passed := mapM_eq_some fun arg member => Store.classOf?_eq (kept.symm ▸ declared arg member)
  simp [recordUse?, recordUse, mark?_eq inside,
    formalsOf?_eq (Nat.lt_of_lt_of_le inside marked.size), passed]

theorem callReturns?_eq (inside : cls.index < seeding.store.size) {callee : LocId}
    (declared : callee.index < seeding.store.locationCount) :
    seeding.recordUse? cls (.callReturns callee) =
      some (seeding.recordUse cls (.callReturns callee)) := by
  have calleeInside := classOf_inside declared
  have first := keeps_mark seeding (seeding.store.classOf callee) {.called}
  have second := first.trans (keeps_mark _ cls {.callResult})
  simp [recordUse?, recordUse, Store.classOf?_eq declared, mark?_eq calleeInside,
    mark?_eq (Nat.lt_of_lt_of_le inside first.size),
    returnOf?_eq (Nat.lt_of_lt_of_le calleeInside second.size)]

theorem recordUse?_eq (valid : seeding.Valid) (inside : cls.index < seeding.store.size)
    (use : Use) (declared : ∀ loc ∈ use.operands, loc.index < seeding.store.locationCount) :
    seeding.recordUse? cls use = some (seeding.recordUse cls use) := by
  -- A use names declared locations, whose classes stay in the store when others are marked.
  have kept (evidence : Evidence) : cls.index < (seeding.mark cls evidence).store.size := inside
  have second (evidence : Evidence) {loc : LocId} (operand : loc ∈ use.operands) :
      (seeding.mark cls evidence).mark? (seeding.store.classOf loc) evidence =
        some ((seeding.mark cls evidence).mark (seeding.store.classOf loc) evidence) := by
    apply mark?_eq
    exact classOf_inside (declared loc operand)
  cases use with
  | read size => simp [recordUse?, recordUse, mark?_eq inside, access?_eq (kept _)]
  | write size => simp [recordUse?, recordUse, mark?_eq inside, access?_eq (kept _)]
  | assignedFrom source =>
    have operand : source ∈ (Use.assignedFrom source).operands := List.mem_cons_self
    simp [recordUse?, recordUse, Store.classOf?_eq (declared source operand), mark?_eq inside,
      second _ operand]
  | dereference base offset size =>
    exact dereference?_eq valid inside (declared base List.mem_cons_self) offset size
  | callWithArgs args => exact callWithArgs?_eq inside declared
  | callReturns callee => exact callReturns?_eq inside (declared callee List.mem_cons_self)
  | comparedWith other signedness =>
    have operand : other ∈ (Use.comparedWith other signedness).operands := List.mem_cons_self
    simp [recordUse?, recordUse, Store.classOf?_eq (declared other operand), mark?_eq inside,
      second _ operand]
  | arithmeticWith other operator =>
    have operand : other ∈ (Use.arithmeticWith other operator).operands := List.mem_cons_self
    -- The class of the other operand is looked up after the first was marked, which moves no root.
    have found (evidence : Evidence) : (seeding.mark cls evidence).store.classOf? other =
        some (seeding.store.classOf other) := Store.classOf?_eq (declared other operand)
    have same (evidence : Evidence) : (seeding.mark cls evidence).store.classOf other =
        seeding.store.classOf other := rfl
    cases additive : operator.isAdditive <;>
      simp [recordUse?, recordUse, mark?_eq inside, additive, found, same, second _ operand]

theorem observeOne?_eq (valid : seeding.Valid) (observation : Observation) :
    seeding.observeOne? pointerSize observation =
      some (seeding.observe pointerSize observation) := by
  unfold observeOne? observe
  cases absent : observation.locations.find? fun loc => seeding.store.locationCount ≤ loc.index with
  | some undeclared => rfl
  | none =>
    have declared (loc : LocId) (member : loc ∈ observation.locations) :
        loc.index < seeding.store.locationCount := by
      simpa using List.find?_eq_none.1 absent loc member
    have place := declared observation.location List.mem_cons_self
    have inside := classOf_inside place
    have operands (loc : LocId) (member : loc ∈ observation.use.operands) :=
      declared loc (List.mem_cons_of_mem _ member)
    have used := keeps_recordUse inside observation.use
    simp only [Store.classOf?_eq place, recordUse?_eq valid inside observation.use operands,
      Option.bind_eq_bind, Option.bind_some, Option.pure_def]
    cases observation.hint with
    | some hint =>
      simp [declare?_eq hint (used.valid valid) (Nat.lt_of_lt_of_le inside used.size)]
    | none => rfl

/-- No lookup of a class fails while observations are seeded. -/
theorem observeAll?_eq (observations : List Observation) (valid : seeding.Valid) :
    seeding.observeAll? pointerSize observations =
      some (seeding.observeAll pointerSize observations) := by
  induction observations generalizing seeding with
  | nil => rfl
  | cons observation rest ih =>
    simp only [observeAll?, observeAll, observeOne?_eq valid, Option.bind_eq_bind,
      Option.bind_some]
    cases found : seeding.observe pointerSize observation with
    | error failure => rfl
    | ok seeded => exact ih ((observe_keeps found).1.valid valid)

end TypeRecovery.Seeding
