import TypeRecovery.Proofs.AnalysisOutcome
import TypeRecovery.Proofs.CollectedEvents
import TypeRecovery.Proofs.FieldGroups
import TypeRecovery.Proofs.TypingClasses
/-!
Every event of a trace is respected by the types that are inferred from it. Both sides of an
assignment or a comparison are one class, a call goes by the parameters of the function it calls and
a return by its result, and what was found through a pointer is in the layout of its target. The
events are observations, all observations hold in the store at the end, and the types are read off
that store.
-/
namespace TypeRecovery

/-- What a typing has to say to what an event saw. -/
structure Typing.Respects (typing : Typing) (event : Event) : Prop where
  sides : event.action = .assign ∨ event.action = .compare → ∃ operand cls,
    event.operands = [operand] ∧ typing.classOf? event.location = some cls ∧
      typing.classOf? operand = some cls
  call : event.action = .call → ∀ params ret,
    typing.typeOf? event.location = some (.function params ret) →
      event.operands.length ≤ params.length ∧ ∀ (place : Nat) operand,
        event.operands[place]? = some operand → ∃ cls, typing.classOf? operand = some cls ∧
          params[place]? = some cls
  callReturn : event.action = .callReturn → ∃ callee, event.operands = [callee] ∧
    ∀ params ret, typing.typeOf? callee = some (.function params ret) →
      typing.classOf? event.location = some ret
  deref : event.action = .deref → ∃ base cls, event.operands = [base] ∧
    typing.classOf? event.location = some cls ∧
    ∀ type target, typing.typeOf? base = some type → type.PointsTo target →
      (∀ size fields, typing.typeOfClass? target = some (.struct size fields) →
        ∃ field ∈ fields, field.Takes (event.offset.getD 0) ∧ field.type.Mentions cls) ∧
      ∀ value, typing.typeOfClass? target = some (.sameAs value) →
        event.offset.getD 0 = 0 ∧ value = cls

/-- Two events that saw one cell of one aggregate saw one class. -/
def Typing.Shares (typing : Typing) (first second : Event) : Prop :=
  first.action = .deref → second.action = .deref →
    first.offset.getD 0 = second.offset.getD 0 → first.size = second.size →
    ∀ base other, first.operands = [base] → second.operands = [other] →
      typing.classOf? base = typing.classOf? other →
      typing.classOf? first.location = typing.classOf? second.location

namespace Analysis

variable {observations : List Observation} {locationCount : Nat} {config : Config}
  {seeded : Seeding} {final : Propagation}
  (analysis : Analysis observations locationCount config seeded final)
include analysis

theorem classOf? {loc : LocId} (declared : loc.index < locationCount) :
    (Typing.ofStore config final.store).classOf? loc =
      some ((Typing.readingOf config final.store).number (final.store.classOf loc)) := by
  rw [show final.store.classOf loc = final.store.root loc.initialClass from rfl, Typing.number_root]
  exact Typing.classOf?_ofStore (by rwa [analysis.finalLocationCount])

theorem place_inside {loc : LocId} (declared : loc.index < locationCount) :
    (final.store.classOf loc).index < final.store.size := by
  apply Store.root_inside
  apply Nat.lt_of_lt_of_le _ final.store.locations_inside
  rwa [analysis.finalLocationCount]

theorem typeOfClass? {cls : ClassId} (inside : cls.index < final.store.size) :
    (Typing.ofStore config final.store).typeOfClass?
        ((Typing.readingOf config final.store).number cls) =
      some ((Typing.readingOf config final.store).type (final.store.constraint cls)) :=
  Typing.typeOfClass?_number analysis.finalInside.refers inside

theorem typeOf? {loc : LocId} (declared : loc.index < locationCount) :
    (Typing.ofStore config final.store).typeOf? loc =
      some ((Typing.readingOf config final.store).type
        (final.store.constraint (final.store.classOf loc))) := by
  unfold Typing.typeOf?
  rw [analysis.classOf? declared]
  exact analysis.typeOfClass? (analysis.place_inside declared)

theorem param_of_typeOf? {loc : LocId} (declared : loc.index < locationCount)
    {params : List ClassId} {ret : ClassId}
    (function : (Typing.ofStore config final.store).typeOf? loc = some (.function params ret))
    {place : Nat} {target : ClassId}
    (refers : final.store.model.refers (final.store.classOf loc) (.param place) target) :
    params[place]? = some ((Typing.readingOf config final.store).number target) := by
  rw [analysis.typeOf? declared, Option.some.injEq] at function
  obtain ⟨signature, known, rfl, rfl⟩ := Reading.of_function function
  obtain ⟨param, ⟨signature', known', refers⟩, rfl⟩ := refers
  cases known.symm.trans known'
  rw [List.getElem?_map, show (signature.params.getD [])[place]? = some param from refers,
    Typing.number_root]
  rfl

theorem result_of_typeOf? {loc : LocId} (declared : loc.index < locationCount)
    {params : List ClassId} {ret : ClassId}
    (function : (Typing.ofStore config final.store).typeOf? loc = some (.function params ret))
    {target : ClassId}
    (refers : final.store.model.refers (final.store.classOf loc) .result target) :
    ret = (Typing.readingOf config final.store).number target := by
  rw [analysis.typeOf? declared, Option.some.injEq] at function
  obtain ⟨signature, known, rfl, rfl⟩ := Reading.of_function function
  obtain ⟨_, ⟨signature', known', rfl⟩, rfl⟩ := refers
  cases known.symm.trans known'
  exact (Typing.number_root _).symm

variable {table : LocationTable} {event : Event} {observation : Observation}

theorem sides_of_use {operand : LocId}
    (declared : ∀ loc ∈ event.locations, loc.index < locationCount)
    (sole : event.operands = [operand])
    (same : final.store.classOf event.location = final.store.classOf operand) :
    ∃ operand cls, event.operands = [operand] ∧
      (Typing.ofStore config final.store).classOf? event.location = some cls ∧
      (Typing.ofStore config final.store).classOf? operand = some cls := by
  have operandDeclared := declared operand (by simp [Event.locations, sole])
  refine ⟨operand, _, sole, analysis.classOf? (declared _ List.mem_cons_self), ?_⟩
  rw [same]
  exact analysis.classOf? operandDeclared

theorem call_respected (declared : ∀ loc ∈ event.locations, loc.index < locationCount)
    (used : final.store.scene.Used (final.store.classOf event.location)
      (.callWithArgs event.operands)) {params : List ClassId} {ret : ClassId}
    (function : (Typing.ofStore config final.store).typeOf? event.location =
      some (.function params ret)) :
    event.operands.length ≤ params.length ∧ ∀ (place : Nat) operand,
      event.operands[place]? = some operand → ∃ cls,
        (Typing.ofStore config final.store).classOf? operand = some cls ∧
          params[place]? = some cls := by
  simp only [Scene.Used] at used
  obtain ⟨_, _, arity, takes⟩ := used
  have calledDeclared := declared _ List.mem_cons_self
  constructor
  · rw [analysis.typeOf? calledDeclared, Option.some.injEq] at function
    obtain ⟨signature, known, rfl, rfl⟩ := Reading.of_function function
    obtain ⟨count, counted, enough⟩ := arity _ (Nat.le_refl _)
    have length : signature.arity = some count := by
      simpa [Constraint.arity, known] using counted
    unfold Signature.arity at length
    cases params : signature.params with
    | none => simp [params] at length
    | some classes =>
      simp only [params, Option.map_some, Option.some.injEq] at length
      simpa [length] using enough
  · intro place operand found
    have operandDeclared := declared operand (List.mem_cons_of_mem _ (List.mem_of_getElem? found))
    exact ⟨_, analysis.classOf? operandDeclared,
      analysis.param_of_typeOf? calledDeclared function (takes place operand found)⟩

theorem return_respected {callee : LocId}
    (declared : ∀ loc ∈ event.locations, loc.index < locationCount)
    (sole : event.operands = [callee])
    (used : final.store.scene.Used (final.store.classOf event.location) (.callReturns callee))
    {params : List ClassId} {ret : ClassId}
    (function : (Typing.ofStore config final.store).typeOf? callee = some (.function params ret)) :
    (Typing.ofStore config final.store).classOf? event.location = some ret := by
  simp only [Scene.Used] at used
  have calleeDeclared := declared callee (by simp [Event.locations, sole])
  rw [analysis.result_of_typeOf? calleeDeclared function used.2.2]
  exact analysis.classOf? (declared _ List.mem_cons_self)

theorem dereference_respected {base : LocId} {offset : Int64} {size : UInt8}
    (declared : ∀ loc ∈ event.locations, loc.index < locationCount)
    (sole : event.operands = [base])
    (used : final.store.scene.Used (final.store.classOf event.location)
      (.dereference base offset size)) {type : CType} {target : ClassId}
    (typed : (Typing.ofStore config final.store).typeOf? base = some type)
    (points : type.PointsTo target) :
    let cls := (Typing.readingOf config final.store).number (final.store.classOf event.location)
    (∀ size fields, (Typing.ofStore config final.store).typeOfClass? target =
        some (.struct size fields) →
      ∃ field ∈ fields, field.Takes offset ∧ field.type.Mentions cls) ∧
      ∀ value, (Typing.ofStore config final.store).typeOfClass? target = some (.sameAs value) →
        offset = 0 ∧ value = cls := by
  simp only [Scene.Used] at used
  obtain ⟨_, _, aggregate, ⟨known, pointee, root⟩, ⟨value, held, valueRoot⟩⟩ := used
  have baseDeclared := declared base (by simp [Event.locations, sole])
  rw [analysis.typeOf? baseDeclared, Option.some.injEq] at typed
  subst typed
  obtain ⟨cls, same, rfl⟩ := Reading.of_pointsTo points
  cases same.symm.trans pointee
  have member : ⟨offset, size, value⟩ ∈ (final.store.constraint known).slots := by
    rw [← final.store.constraint_root known, root]
    exact held
  have numbered : (Typing.readingOf config final.store).number value =
      (Typing.readingOf config final.store).number (final.store.classOf event.location) := by
    rw [← Typing.number_root value]
    exact congrArg _ valueRoot
  rw [analysis.typeOfClass? (analysis.finalInside.refers pointee)]
  constructor
  · intro size fields read
    obtain ⟨field, found, takes, mentions⟩ :=
      Reading.exists_field (Option.some.inj read) (analysis.ordered known) member
    exact ⟨field, found, takes, numbered ▸ mentions⟩
  · intro other read
    obtain ⟨slot, only, start, rfl⟩ := Reading.of_sameAs (Option.some.inj read)
    rw [only, List.mem_singleton] at member
    subst member
    exact ⟨start, numbered⟩

theorem dereference_shared {first second base other : LocId} {offset : Int64} {size : UInt8}
    (used : final.store.scene.Used (final.store.classOf first) (.dereference base offset size))
    (used' : final.store.scene.Used (final.store.classOf second)
      (.dereference other offset size))
    (same : final.store.classOf base = final.store.classOf other) :
    final.store.classOf first = final.store.classOf second := by
  -- The store is a model in which one label plays a role for another: first the pointee, then the
  -- slot.
  simp only [Scene.Used] at used used'
  obtain ⟨_, _, target, points, slot⟩ := used
  obtain ⟨_, _, target', points', slot'⟩ := used'
  have one : final.store.scene.place base = final.store.scene.place other := same
  rw [← one] at points'
  rw [analysis.unique points' points] at slot'
  exact analysis.unique slot slot'

theorem recorded {events : List Event} (collected : collect table events = .ok observations)
    (member : event ∈ events) : ∃ use, event.use = .ok use ∧
      final.store.scene.Used (final.store.classOf event.location) use ∧
      ∀ loc ∈ event.locations, loc.index < table.size := by
  obtain ⟨observation, found, transcribed⟩ := (collect_ok collected).1 event member
  obtain ⟨location, use, declared⟩ := Event.transcribe_ok transcribed
  have used := (analysis.observed observation found).1
  rw [location] at used
  exact ⟨_, use, used, declared⟩

theorem respects {use : Use} (declared : ∀ loc ∈ event.locations, loc.index < locationCount)
    (accepted : event.use = .ok use)
    (used : final.store.scene.Used (final.store.classOf event.location) use) :
    (Typing.ofStore config final.store).Respects event := by
  constructor
  · rintro (action | action)
    · obtain ⟨source, sole, rfl⟩ := Event.use_assign action accepted
      exact analysis.sides_of_use declared sole used.2
    · obtain ⟨other, sole, rfl⟩ := Event.use_compare action accepted
      exact analysis.sides_of_use declared sole used.2
  · intro action params ret function
    cases Event.use_call action accepted
    exact analysis.call_respected declared used function
  · intro action
    obtain ⟨callee, sole, rfl⟩ := Event.use_callReturn action accepted
    exact ⟨callee, sole, fun params ret => analysis.return_respected declared sole used⟩
  · intro action
    obtain ⟨base, size, sole, _, rfl⟩ := Event.use_deref action accepted
    refine ⟨base, _, sole, analysis.classOf? (declared _ List.mem_cons_self), ?_⟩
    exact fun type target => analysis.dereference_respected declared sole used

theorem shares {first second : Event} {use use' : Use}
    (declared : ∀ loc ∈ first.locations, loc.index < locationCount)
    (declared' : ∀ loc ∈ second.locations, loc.index < locationCount)
    (accepted : first.use = .ok use) (accepted' : second.use = .ok use')
    (used : final.store.scene.Used (final.store.classOf first.location) use)
    (used' : final.store.scene.Used (final.store.classOf second.location) use') :
    (Typing.ofStore config final.store).Shares first second := by
  intro firstAction secondAction offsets sizes base other firstSole secondSole bases
  obtain ⟨_, size, sole, sized, rfl⟩ := Event.use_deref firstAction accepted
  obtain ⟨_, size', sole', sized', rfl⟩ := Event.use_deref secondAction accepted'
  cases sole.symm.trans firstSole
  cases sole'.symm.trans secondSole
  cases sized.symm.trans (sizes.trans sized')
  rw [← offsets] at used'
  have baseDeclared := declared base (by simp [Event.locations, sole])
  have otherDeclared := declared' other (by simp [Event.locations, sole'])
  rw [analysis.classOf? baseDeclared, analysis.classOf? otherDeclared, Option.some.injEq] at bases
  have same := Typing.number_injective analysis.finalInside.refers
    (analysis.place_inside baseDeclared) (analysis.place_inside otherDeclared) bases
  have classes := analysis.dereference_shared used used' (by
    simpa only [Store.classOf, Store.root_root] using same)
  rw [analysis.classOf? (declared _ List.mem_cons_self),
    analysis.classOf? (declared' _ List.mem_cons_self), classes]

end Analysis

/-- All that was seen in a trace is found in the types inferred from it. -/
theorem inferTypes_respects {table : LocationTable} {events : List Event} {config : Config}
    {schedule : Schedule} {typing : Typing}
    (ok : inferTypes table events config schedule = .ok typing) :
    (∀ event ∈ events, typing.Respects event) ∧
      ∀ first ∈ events, ∀ second ∈ events, typing.Shares first second := by
  obtain ⟨observations, seeded, final, collected, analysis, rfl⟩ := inferTypes_ok ok
  constructor
  · intro event member
    obtain ⟨use, accepted, used, declared⟩ := analysis.recorded collected member
    exact analysis.respects declared accepted used
  · intro first firstMember second secondMember
    obtain ⟨use, accepted, used, declared⟩ := analysis.recorded collected firstMember
    obtain ⟨use', accepted', used', declared'⟩ := analysis.recorded collected secondMember
    exact analysis.shares declared declared' accepted accepted' used used'

def callTable : LocationTable :=
  .ofList [.temporary 0, .temporary 1, .temporary 2, .temporary 3, .temporary 4]

def callEvents : List Event := [
  ⟨⟨0⟩, ⟨2⟩, .assign, [⟨1⟩], none, none, none, none, none⟩,
  ⟨⟨4⟩, ⟨3⟩, .deref, [⟨2⟩], some 8, some 4, none, none, none⟩,
  ⟨⟨8⟩, ⟨0⟩, .call, [⟨3⟩], none, none, none, none, none⟩,
  ⟨⟨12⟩, ⟨4⟩, .callReturn, [⟨0⟩], none, none, none, none, none⟩,
  ⟨⟨16⟩, ⟨4⟩, .compare, [⟨3⟩], none, none, none, some .signed, none⟩]

theorem inferTypes_respects_call : ∃ typing, inferTypes callTable callEvents {} = .ok typing ∧
    (∀ event ∈ callEvents, typing.Respects event) ∧
      ∀ first ∈ callEvents, ∀ second ∈ callEvents, typing.Shares first second := by
  have ok : ∃ typing, inferTypes callTable callEvents {} = .ok typing := ⟨_, rfl⟩
  obtain ⟨typing, ok⟩ := ok
  exact ⟨typing, ok, inferTypes_respects ok⟩

end TypeRecovery
