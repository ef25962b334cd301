import TypeRecovery.Diagnostic
import TypeRecovery.Observation
import TypeRecovery.Store
/-!
Seeding: each observation becomes evidence on the classes it mentions. Seeding itself merges
nothing. Every equality it discovers is kept as a pair of classes, in the order of discovery, for
propagation to close.
-/
namespace TypeRecovery

structure Seeding where
  store : Store
  merges : List ClassPair

namespace Seeding

def start (store : Store) : Seeding := ⟨store, []⟩

def equate (seeding : Seeding) (pairs : List ClassPair) : Seeding :=
  { seeding with merges := seeding.merges ++ pairs }

def update (seeding : Seeding) (cls : ClassId) (change : Constraint → Constraint) : Seeding :=
  { seeding with store := seeding.store.update cls change }

def mark (seeding : Seeding) (cls : ClassId) (evidence : Evidence) : Seeding :=
  seeding.update cls fun constraint => constraint.addEvidence evidence

def access (seeding : Seeding) (cls : ClassId) (size : UInt8) : Seeding :=
  seeding.update cls fun constraint => constraint.recordAccess size

def addSlot (seeding : Seeding) (cls : ClassId) (slot : Slot) : Seeding :=
  let added := (seeding.store.constraint cls).addSlot slot
  (seeding.update cls fun _ => added.1).equate added.2.toList

def fresh (seeding : Seeding) (constraint : Constraint) : ClassId × Seeding :=
  let made := seeding.store.fresh constraint
  (made.1, { seeding with store := made.2 })

def freshMany (seeding : Seeding) : Nat → List ClassId × Seeding
  | 0 => ([], seeding)
  | count + 1 =>
    let made := seeding.fresh {}
    let more := made.2.freshMany count
    (made.1 :: more.1, more.2)

def pointeeOf (seeding : Seeding) (base : ClassId) : ClassId × Seeding :=
  match (seeding.store.constraint base).pointee with
  | some target => (target, seeding)
  | none =>
    let made := seeding.fresh {}
    (made.1, made.2.update base fun constraint => { constraint with pointee := some made.1 })

/-- The class that `callee` returns. A callee seen for the first time gets a signature without
known parameters. -/
def returnOf (seeding : Seeding) (callee : ClassId) : ClassId × Seeding :=
  match (seeding.store.constraint callee).signature with
  | some signature => (signature.ret, seeding)
  | none =>
    let made := seeding.fresh {}
    (made.1, made.2.update callee fun constraint =>
      { constraint with signature := some ⟨none, made.1⟩ })

/-- The parameters of `callee`, at least `arity` of them. A call with another number of arguments
than the parameters known so far is a conflict, and the longer list is kept. -/
def formalsOf (seeding : Seeding) (callee : ClassId) (arity : Nat) : List ClassId × Seeding :=
  let called := (seeding.returnOf callee).2
  let known := (called.store.constraint callee).signature.bind Signature.params
  let conflicts := Conflict.ofArities (known.map List.length) (some arity)
  let noted := { called with
    store := conflicts.foldl (fun store => store.recordConflict callee) called.store }
  let made := noted.freshMany (arity - (known.getD []).length)
  let params := known.getD [] ++ made.1
  (params, made.2.update callee fun constraint =>
    { constraint with
      signature := constraint.signature.map fun signature =>
        { signature with params := some params } })

/-- What a hint amounts to: a constraint of its own, or the one class of a typedef. -/
inductive Realized where
  | constraint (constraint : Constraint)
  | typedef (cls : ClassId)

def settle (seeding : Seeding) : Realized → ClassId × Seeding
  | .constraint constraint => seeding.fresh constraint
  | .typedef cls => (cls, seeding)

/-- Declares what was realized of `cls`. A typedef is declared by an equality with its class. -/
def declareRealized (seeding : Seeding) (cls : ClassId) : Realized → Seeding
  | .constraint constraint =>
    let refined := seeding.store.refine cls constraint
    { seeding with store := refined.2 }.equate refined.1
  | .typedef named => seeding.equate [(cls, named)]

mutual
/-- Pointer targets, parameters and returns become classes with constraints of their own. A target
that has a size is modelled as memory is: an aggregate with the declared value at offset zero. A
typedef is interned by its name, and a use of the name with another definition is declared into the
same class. -/
def realize (pointerSize : UInt8) : Hint → Seeding → Realized × Seeding
  | .void, seeding => (.constraint { declaredKind := some .void }, seeding)
  | .int size signedness, seeding =>
    (.constraint {
      evidence := .ofFlags (.declaredInt :: (signedness.map Flag.declared).toList)
      declaredKind := some .primitive
      declaredWidth := some size }, seeding)
  | .pointer inner, seeding =>
    let realized := realize pointerSize inner seeding
    let value := realized.2.settle realized.1
    let target := match inner.size pointerSize with
      | some size => value.2.fresh { slots := [⟨0, size, value.1⟩] }
      | none => value
    (.constraint {
      declaredKind := some .pointer
      declaredWidth := some pointerSize
      pointee := some target.1 }, target.2)
  | .function _ params ret, seeding =>
    let formals := settleAll pointerSize params seeding
    let realized := realize pointerSize ret formals.2
    let result := realized.2.settle realized.1
    (.constraint {
      declaredKind := some .function
      signature := some ⟨some formals.1, result.1⟩ }, result.2)
  | .named name definition, seeding =>
    match seeding.store.typedef? name with
    | some (cls, known) =>
      if known = definition then (.typedef cls, seeding)
      else
        let realized := realize pointerSize definition seeding
        (.typedef cls, realized.2.declareRealized cls realized.1)
    | none =>
      let made := seeding.fresh { declaredName := some name }
      let bound := { made.2 with store := made.2.store.bindTypedef name made.1 definition }
      let realized := realize pointerSize definition bound
      (.typedef made.1, realized.2.declareRealized made.1 realized.1)

def settleAll (pointerSize : UInt8) : List Hint → Seeding → List ClassId × Seeding
  | [], seeding => ([], seeding)
  | hint :: rest, seeding =>
    let realized := realize pointerSize hint seeding
    let first := realized.2.settle realized.1
    let others := settleAll pointerSize rest first.2
    (first.1 :: others.1, others.2)
end

def declare (pointerSize : UInt8) (seeding : Seeding) (cls : ClassId) (hint : Hint) : Seeding :=
  let realized := realize pointerSize hint seeding
  realized.2.declareRealized cls realized.1

/-- The evidence in a use of the class `cls`. An operator other than an additive one tells as much
of its other operand, which an additive one may just be moving a pointer by. -/
def recordUse (seeding : Seeding) (cls : ClassId) : Use → Seeding
  | .read size => (seeding.mark cls {.read}).access cls size
  | .write size => (seeding.mark cls {.written}).access cls size
  | .assignedFrom source =>
    let source := seeding.store.classOf source
    ((seeding.mark cls {.assigned}).mark source {.assigned}).equate [(cls, source)]
  | .dereference base offset size =>
    let base := seeding.store.classOf base
    let target := ((seeding.mark base {.dereferenced}).access cls size).pointeeOf base
    target.2.addSlot target.1 ⟨offset, size, cls⟩
  | .callWithArgs args =>
    let formals := (seeding.mark cls {.called}).formalsOf cls args.length
    formals.2.equate ((args.map formals.2.store.classOf).zip formals.1)
  | .callReturns callee =>
    let callee := seeding.store.classOf callee
    let result := ((seeding.mark callee {.called}).mark cls {.callResult}).returnOf callee
    result.2.equate [(cls, result.1)]
  | .comparedWith other signedness =>
    let other := seeding.store.classOf other
    let evidence := Evidence.ofFlags (.compared :: (signedness.map Flag.observed).toList)
    ((seeding.mark cls evidence).mark other evidence).equate [(cls, other)]
  | .arithmeticWith other operator =>
    let evidence := Evidence.ofFlags (.arithmetic :: (operator.signedness.map Flag.observed).toList)
    let marked := seeding.mark cls evidence
    if operator.isAdditive then marked else marked.mark (marked.store.classOf other) evidence

/-- Seeds one observation. Every location it names is checked before anything changes. -/
def observe (pointerSize : UInt8) (seeding : Seeding) (observation : Observation) :
    Except AnalysisFailure Seeding :=
  match observation.locations.find? fun loc => seeding.store.locationCount ≤ loc.index with
  | some undeclared => .error (.unknownLocation observation.point undeclared)
  | none =>
    let cls := seeding.store.classOf observation.location
    let used := seeding.recordUse cls observation.use
    match observation.hint with
    | some hint => .ok (used.declare pointerSize cls hint)
    | none => .ok used

/-- Seeds observations up to the first that fails. What was seeded before it stays. -/
def observeAll (pointerSize : UInt8) (seeding : Seeding) :
    List Observation → Seeding × Option AnalysisFailure
  | [] => (seeding, none)
  | observation :: rest =>
    match seeding.observe pointerSize observation with
    | .error failure => (seeding, some failure)
    | .ok seeded => seeded.observeAll pointerSize rest

end Seeding
end TypeRecovery
