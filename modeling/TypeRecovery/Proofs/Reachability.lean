import TypeRecovery.Proofs.SeededObservations
/-!
Every class is reached from a location. A property of classes that is handed on along references and
equalities is a labelling by propositions, in a scene where a reference is an implication. Seeding
makes a class only to refer to it, so a property that holds of all locations holds of every class in
the end.
-/
namespace TypeRecovery

/-- References hand on what holds, and it holds of every location. -/
def Scene.reaching (named : String → Prop) : Scene Prop where
  has _ _ := True
  refers here _ target := here → target
  place _ := True
  named := named

namespace Seeding

variable {named : String → Prop} {reached : ClassId → Prop} {seeding middle after : Seeding}
  {cls : ClassId}

def Covers (reached : ClassId → Prop) (seeding after : Seeding) : Prop :=
  ∀ cls : ClassId, cls.index < after.store.size → cls.index < seeding.store.size ∨ reached cls

theorem Covers.trans (first : Covers reached seeding middle)
    (second : Covers reached middle after) :
    Covers reached seeding after :=
  fun cls inside => (second cls inside).elim (first cls) Or.inr

theorem covers_of_size (same : after.store.size = seeding.store.size) :
    Covers reached seeding after :=
  fun _ inside => Or.inl (same ▸ inside)

theorem covers_equate (seeding : Seeding) (pairs : List ClassPair) :
    Covers reached seeding (seeding.equate pairs) := covers_of_size rfl

theorem covers_addSlot (seeding : Seeding) (cls : ClassId) (slot : Slot) :
    Covers reached seeding (seeding.addSlot cls slot) := covers_of_size rfl

theorem covers_fresh (constraint : Constraint) (made : reached ⟨seeding.store.size⟩) :
    Covers reached seeding (seeding.fresh constraint).2 := by
  intro cls inside
  rw [size_fresh] at inside
  rcases Nat.lt_succ_iff_lt_or_eq.1 inside with old | new
  · exact Or.inl old
  · cases cls
    cases new
    exact Or.inr made

theorem covers_settle {realized : Realized} (made : reached (seeding.settle realized).1) :
    Covers reached seeding (seeding.settle realized).2 := by
  cases realized with
  | constraint constraint => exact covers_fresh constraint made
  | typedef cls => exact covers_of_size rfl

theorem covers_declareRealized (cls : ClassId) (realized : Realized) :
    Covers reached seeding (seeding.declareRealized cls realized) := by
  apply covers_of_size
  cases realized with
  | constraint constraint => exact Store.size_refine ..
  | typedef cls => rfl

theorem at_of_reached {realized : Realized} (made : reached (seeding.settle realized).1)
    (holds : (seeding.settle realized).2.Holds reached (Scene.reaching named)) :
    realized.At reached (Scene.reaching named).toModel True :=
  eq_true made ▸ at_of_settle holds

def Reaches (reached : ClassId → Prop) (named : String → Prop) (pointerSize : UInt8)
    (hint : Hint) : Prop :=
  ∀ ⦃seeding : Seeding⦄, seeding.WellFormed →
    (realize pointerSize hint seeding).2.Holds reached (Scene.reaching named) →
    (realize pointerSize hint seeding).1.At reached (Scene.reaching named).toModel True →
    Covers reached seeding (realize pointerSize hint seeding).2

def ReachesAll (reached : ClassId → Prop) (named : String → Prop) (pointerSize : UInt8)
    (hints : List Hint) : Prop :=
  ∀ ⦃seeding : Seeding⦄, seeding.WellFormed →
    (settleAll pointerSize hints seeding).2.Holds reached (Scene.reaching named) →
    (∀ cls ∈ (settleAll pointerSize hints seeding).1, reached cls) →
    Covers reached seeding (settleAll pointerSize hints seeding).2

section reaches

variable {pointerSize : UInt8}

theorem Reaches.classFor {hint : Hint} (reaches : Reaches reached named pointerSize hint)
    (wellFormed : seeding.WellFormed)
    (holds : (classFor pointerSize hint seeding).2.Holds reached (Scene.reaching named))
    (made : reached (classFor pointerSize hint seeding).1) :
    Covers reached seeding (classFor pointerSize hint seeding).2 := by
  obtain ⟨realized, fits⟩ := realize_extends pointerSize hint wellFormed
  have before := (settle_extends realized.wellFormed fits).1.holds_of holds
  exact (reaches wellFormed before (at_of_reached made holds)).trans (covers_settle made)

theorem reaches_pointer {inner : Hint} (reaches : Reaches reached named pointerSize inner) :
    Reaches reached named pointerSize (.pointer inner) := by
  intro seeding wellFormed holds at'
  simp only [realize] at holds at' ⊢
  have target := (Constraint.holds_pointer.1 at').2 trivial
  cases size : inner.size pointerSize with
  | some bytes =>
    simp only [size] at holds target ⊢
    obtain ⟨before, slotted⟩ := holds_fresh.1 holds
    have value := Constraint.holds_slot.1 slotted target
    exact (reaches.classFor wellFormed before value).trans (covers_fresh _ target)
  | none =>
    simp only [size] at holds target ⊢
    exact reaches.classFor wellFormed holds target

theorem reaches_function (name : Option String) {params : List Hint} {ret : Hint}
    (reachesParams : ReachesAll reached named pointerSize params)
    (reachesRet : Reaches reached named pointerSize ret) :
    Reaches reached named pointerSize (.function name params ret) := by
  intro seeding wellFormed holds at'
  have formals := (settleAll_extends pointerSize params wellFormed).1
  simp only [realize] at holds at' ⊢
  obtain ⟨_, _, takes, returns⟩ := Constraint.holds_function.1 at'
  have before := (classFor_extends pointerSize ret formals.wellFormed).1.holds_of holds
  have taken := reachesParams wellFormed before fun cls member => by
    obtain ⟨place, found⟩ := List.mem_iff_getElem?.1 member
    exact takes place (reached cls) (by rw [List.getElem?_map, found, Option.map_some]) trivial
  exact taken.trans (reachesRet.classFor formals.wellFormed holds (returns trivial))

theorem reaches_named (name : String) {definition : Hint}
    (reaches : Reaches reached named pointerSize definition) :
    Reaches reached named pointerSize (.named name definition) := by
  intro seeding wellFormed holds at'
  simp only [realize] at holds at' ⊢
  cases found : seeding.store.typedef? name with
  | some entry =>
    by_cases same : entry.2 = definition
    · simp only [same, if_true]
      exact covers_of_size rfl
    · simp only [found, same, if_false] at holds at' ⊢
      have realized := (realize_extends pointerSize definition wellFormed).1
      have inside := Nat.lt_of_lt_of_le (wellFormed.typedefs found) realized.size
      obtain ⟨before, defined⟩ := at_of_declareRealized inside holds
      have first := reaches wellFormed before
        ((show reached entry.1 = True from at') ▸ defined)
      exact first.trans (covers_declareRealized _ _)
  | none =>
    simp only [found] at holds at' ⊢
    obtain ⟨interned, new⟩ := @intern_extends _ _ definition found wellFormed
    have realized := (realize_extends pointerSize definition interned.wellFormed).1
    have inside := Nat.lt_of_lt_of_le new realized.size
    obtain ⟨before, defined⟩ :=
      @at_of_declareRealized _ _ _ _ ⟨seeding.store.size⟩ inside _ holds
    have made : reached ⟨seeding.store.size⟩ = True := at'
    have internedCovers : Covers reached seeding (seeding.intern name definition) :=
      (covers_fresh _ (made ▸ trivial)).trans (covers_of_size (size_bind (free_fresh found)))
    have first := reaches interned.wellFormed before (made ▸ defined)
    exact internedCovers.trans (first.trans (covers_declareRealized _ _))

theorem reachesAll_cons {hint : Hint} {rest : List Hint}
    (reaches : Reaches reached named pointerSize hint)
    (reachesRest : ReachesAll reached named pointerSize rest) :
    ReachesAll reached named pointerSize (hint :: rest) := by
  intro seeding wellFormed holds made
  have value := (classFor_extends pointerSize hint wellFormed).1
  simp only [settleAll] at holds made ⊢
  have before := (settleAll_extends pointerSize rest value.wellFormed).1.holds_of holds
  have first := reaches.classFor wellFormed before (made _ List.mem_cons_self)
  exact first.trans (reachesRest value.wellFormed holds
    fun cls member => made cls (List.mem_cons_of_mem _ member))

mutual
theorem covers_realize (hint : Hint) : Reaches reached named pointerSize hint := by
  match hint with
  | .void => exact fun _ _ _ _ => covers_of_size rfl
  | .int size signedness => exact fun _ _ _ _ => covers_of_size rfl
  | .pointer inner => exact reaches_pointer (covers_realize inner)
  | .function name params ret =>
    exact reaches_function name (covers_settleAll params) (covers_realize ret)
  | .named name definition => exact reaches_named name (covers_realize definition)

theorem covers_settleAll (hints : List Hint) : ReachesAll reached named pointerSize hints := by
  match hints with
  | [] => exact fun _ _ _ _ => covers_of_size rfl
  | hint :: rest => exact reachesAll_cons (covers_realize hint) (covers_settleAll rest)
end

end reaches

theorem covers_pointeeOf {base : ClassId}
    (made : reached (seeding.pointeeOf base).1) :
    Covers reached seeding (seeding.pointeeOf base).2 := by
  cases known : (seeding.store.constraint base).pointee with
  | some target =>
    simp only [pointeeOf, known]
    exact covers_of_size rfl
  | none =>
    simp only [pointeeOf, known] at made ⊢
    exact (covers_fresh {} made).trans (covers_of_size rfl)

theorem covers_returnOf {callee : ClassId} (made : reached (seeding.returnOf callee).1) :
    Covers reached seeding (seeding.returnOf callee).2 := by
  cases known : (seeding.store.constraint callee).signature with
  | some signature =>
    simp only [returnOf, known]
    exact covers_of_size rfl
  | none =>
    simp only [returnOf, known] at made ⊢
    exact (covers_fresh {} made).trans (covers_of_size rfl)

theorem covers_freshMany {count : Nat} (made : ∀ cls ∈ (seeding.freshMany count).1, reached cls) :
    Covers reached seeding (seeding.freshMany count).2 := by
  induction count generalizing seeding with
  | zero => exact covers_of_size rfl
  | succ count ih =>
    have first := made _ List.mem_cons_self
    exact (covers_fresh {} first).trans
      (ih fun cls member => made cls (List.mem_cons_of_mem _ member))

theorem covers_formalsOf (wellFormed : seeding.WellFormed) {callee : ClassId}
    (inside : callee.index < seeding.store.size) (calleeReached : reached callee) {arity : Nat}
    (holds : (seeding.formalsOf callee arity).2.Holds reached (Scene.reaching named)) :
    Covers reached seeding (seeding.formalsOf callee arity).2 := by
  obtain ⟨noted, params, same, _, _, size, refines⟩ := formalsOf_steps wellFormed inside arity
  have given := refines.constraint_of holds
  have result := given.refers .result _ ⟨_, rfl, rfl⟩ calleeReached
  have noting : Covers reached seeding noted :=
    (covers_returnOf result).trans (covers_of_size same.store.size)
  apply noting.trans
  refine (covers_freshMany fun cls member => ?_).trans (covers_of_size size)
  obtain ⟨place, found⟩ := List.mem_iff_getElem?.1 (List.mem_append_right (params.getD []) member)
  exact given.refers (.param place) cls ⟨_, rfl, found⟩ calleeReached

/-- Every class of the seeding is reached. -/
def Reached (reached : ClassId → Prop) (seeding : Seeding) : Prop :=
  ∀ cls : ClassId, cls.index < seeding.store.size → reached cls

theorem Reached.covered (all : Reached reached seeding) (covers : Covers reached seeding after) :
    Reached reached after :=
  fun cls inside => (covers cls inside).elim (all cls) id

theorem covers_recordUse (wellFormed : seeding.WellFormed) (all : Reached reached seeding)
    (inside : cls.index < seeding.store.size) {use : Use}
    (declared : ∀ loc ∈ use.operands, loc.index < seeding.store.locationCount)
    (holds : (seeding.recordUse cls use).Holds reached (Scene.reaching named)) :
    Covers reached seeding (seeding.recordUse cls use) := by
  cases use with
  | dereference base offset size =>
    have baseInside := classOf_inside (declared base List.mem_cons_self)
    have marked := mark_refines wellFormed baseInside {.dereferenced}
    have accessed := access_refines marked.onward.wellFormed
      (Nat.lt_of_lt_of_le inside marked.onward.size) size
    have before := marked.onward.trans accessed.onward
    obtain ⟨targetInside, pointed⟩ := pointeeOf_refines accessed.onward.wellFormed
      (Nat.lt_of_lt_of_le baseInside before.size)
    have slotted := @addSlot_refines _ _ pointed.onward.wellFormed targetInside ⟨offset, size, cls⟩
      (Nat.lt_of_lt_of_le inside (before.trans pointed.onward).size)
    have points := (pointed.constraint_of (slotted.onward.holds_of holds)).refers .pointee _ rfl
    have first : Covers reached seeding
        ((seeding.mark (seeding.store.classOf base) {.dereferenced}).access cls size) :=
      covers_of_size rfl
    have second := covers_pointeeOf (points (all _ baseInside))
    exact (first.trans second).trans (covers_addSlot _ _ _)
  | callWithArgs args =>
    have marked := mark_refines wellFormed inside {.called}
    have formalsHold := (holds_equate.1 holds).1
    have inside' := Nat.lt_of_lt_of_le inside marked.onward.size
    have first : Covers reached seeding (seeding.mark cls {.called}) := covers_of_size rfl
    have formals := covers_formalsOf marked.onward.wellFormed inside' (all cls inside) formalsHold
    exact (first.trans formals).trans (covers_equate _ _)
  | callReturns callee =>
    have same := (holds_equate.1 holds).2 _ List.mem_cons_self
    have first : Covers reached seeding
      ((seeding.mark (seeding.store.classOf callee) {.called}).mark
        cls {.callResult}) := covers_of_size rfl
    have second := covers_returnOf (same ▸ all cls inside)
    exact (first.trans second).trans (covers_equate _ _)
  | arithmeticWith other operator =>
    apply covers_of_size
    simp only [recordUse]
    split <;> rfl
  | _ => exact covers_of_size rfl

theorem covers_declare {pointerSize : UInt8} (hint : Hint) (wellFormed : seeding.WellFormed)
    (inside : cls.index < seeding.store.size) (clsReached : reached cls)
    (holds : (seeding.declare pointerSize cls hint).Holds reached (Scene.reaching named)) :
    Covers reached seeding (seeding.declare pointerSize cls hint) := by
  have realized := (realize_extends pointerSize hint wellFormed).1
  obtain ⟨before, at'⟩ := at_of_declareRealized (Nat.lt_of_lt_of_le inside realized.size) holds
  rw [eq_true clsReached] at at'
  exact (covers_realize hint wellFormed before at').trans (covers_declareRealized _ _)

theorem reached_observe {pointerSize : UInt8} {observation : Observation}
    (wellFormed : seeding.WellFormed) (all : Reached reached seeding)
    (ok : seeding.observe pointerSize observation = .ok after)
    (holds : after.Holds reached (Scene.reaching named)) : Reached reached after := by
  obtain ⟨declared, outcome⟩ := observe_ok ok
  have inside := classOf_inside (declared observation.location List.mem_cons_self)
  have operands := fun loc member => declared loc (List.mem_cons_of_mem _ member)
  have used := recordUse_records wellFormed inside observation.use operands
  cases hinted : observation.hint with
  | none =>
    simp only [hinted] at outcome
    subst outcome
    exact all.covered (covers_recordUse wellFormed all inside operands holds)
  | some hint =>
    simp only [hinted] at outcome
    subst outcome
    have inside' := Nat.lt_of_lt_of_le inside used.onward.size
    have declaring := @declare_extends _ pointerSize _ hint used.onward.wellFormed inside'
    have usedReached := all.covered
      (covers_recordUse wellFormed all inside operands (declaring.holds_of holds))
    exact usedReached.covered
      (covers_declare hint used.onward.wellFormed inside' (all _ inside) holds)

/-- What holds of every location, and is handed on, holds of every class. -/
theorem reached_observeAll {pointerSize : UInt8} {observations : List Observation}
    (wellFormed : seeding.WellFormed) (all : Reached reached seeding)
    (ok : seeding.observeAll pointerSize observations = (after, none))
    (holds : after.Holds reached (Scene.reaching named)) : Reached reached after := by
  induction observations generalizing seeding with
  | nil =>
    cases ok
    exact all
  | cons observation rest ih =>
    cases found : seeding.observe pointerSize observation with
    | error failure => simp [observeAll, found] at ok
    | ok seeded =>
      simp only [observeAll, found] at ok
      have onward := (observe_observes wellFormed found).onward
      have later := (observeAll_observes onward.wellFormed ok).onward
      exact ih onward.wellFormed
        (reached_observe wellFormed all found (later.holds_of holds)) ok

end Seeding
end TypeRecovery
