import Mathlib.Data.List.Forall2
import TypeRecovery.Inference
import TypeRecovery.Proofs.SeededObservations
/-!
What the collector accepts, and what it then records. The checks of an event are listed here in
the order in which they are made, each with the fault that it finds. An event is accepted when the
list is empty, and rejected with the first of the list otherwise. An event is accepted only when all
locations that it names are declared, so the observations of an accepted trace can be seeded.
-/
namespace TypeRecovery

theorem exists_of_bind_ok {Error Value Result : Type} {first : Except Error Value}
    {next : Value → Except Error Result} {result : Result} (ok : first >>= next = .ok result) :
    ∃ value, first = .ok value ∧ next value = .ok result := by
  cases first with
  | error => cases ok
  | ok value => exact ⟨value, rfl, ok⟩

theorem Collection.push_ok {collection after : Collection} {event : Event}
    (ok : collection.push event = .ok after) : ∃ observation,
    event.transcribe collection.table = .ok observation ∧
      after = { collection with observations := collection.observations.push observation } := by
  unfold push at ok
  cases found : event.transcribe collection.table with
  | error fault => simp [found] at ok
  | ok observation =>
    simp only [found, Except.ok.injEq] at ok
    exact ⟨observation, rfl, ok.symm⟩

theorem Collection.foldlM_push {events : List Event} {collection after : Collection}
    (ok : events.foldlM push collection = .ok after) :
    (∀ observation ∈ collection.observations, observation ∈ after.observations) ∧
      (∀ event ∈ events, ∃ observation ∈ after.observations,
        event.transcribe collection.table = .ok observation) ∧
      ∀ observation ∈ after.observations, observation ∈ collection.observations ∨
        ∃ event ∈ events, event.transcribe collection.table = .ok observation := by
  induction events generalizing collection with
  | nil =>
    cases ok
    exact ⟨fun _ => id, List.forall_mem_nil _, fun _ => Or.inl⟩
  | cons event rest ih =>
    rw [List.foldlM_cons] at ok
    obtain ⟨middle, pushed, ok⟩ := exists_of_bind_ok ok
    obtain ⟨observation, transcribed, rfl⟩ := push_ok pushed
    obtain ⟨kept, found, sources⟩ := ih ok
    have added := kept observation (Array.mem_push_self)
    refine ⟨fun old member => kept old (Array.mem_push_of_mem _ member), ?_, ?_⟩
    · exact List.forall_mem_cons.2 ⟨⟨observation, added, transcribed⟩, found⟩
    · intro last member
      rcases sources last member with known | ⟨source, later, same⟩
      · rcases Array.mem_push.1 known with old | rfl
        · exact Or.inl old
        · exact Or.inr ⟨event, List.mem_cons_self, transcribed⟩
      · exact Or.inr ⟨source, List.mem_cons_of_mem _ later, same⟩

theorem collect_ok {table : LocationTable} {events : List Event} {observations : List Observation}
    (ok : collect table events = .ok observations) :
    (∀ event ∈ events, ∃ observation ∈ observations, event.transcribe table = .ok observation) ∧
      ∀ observation ∈ observations, ∃ event ∈ events,
        event.transcribe table = .ok observation := by
  obtain ⟨collection, collected, ok⟩ := exists_of_bind_ok ok
  cases ok
  obtain ⟨_, found, sources⟩ := Collection.foldlM_push collected
  constructor
  · intro event member
    obtain ⟨observation, added, transcribed⟩ := found event member
    exact ⟨observation, Array.mem_toList_iff.2 added, transcribed⟩
  · intro observation member
    rcases sources observation (Array.mem_toList_iff.1 member) with old | source
    · cases Array.mem_toList_iff.2 old
    · exact source

theorem Collection.foldlM_push_replicate {event : Event} {observation : Observation}
    {collection : Collection} (transcribed : event.transcribe collection.table = .ok observation)
    (count : Nat) : (List.replicate count event).foldlM push collection =
      .ok { collection with
        observations :=
          collection.observations ++ (List.replicate count observation).toArray } := by
  induction count generalizing collection with
  | zero =>
    simp only [List.replicate_zero, List.foldlM_nil, Array.append_empty]
    rfl
  | succ count ih =>
    have pushed : collection.push event =
        .ok { collection with observations := collection.observations.push observation } := by
      unfold push
      rw [transcribed]
    rw [List.replicate_succ, List.foldlM_cons, pushed]
    have rest := @ih { collection with
      observations := collection.observations.push observation } transcribed
    have appended : collection.observations.push observation ++
          (List.replicate count observation).toArray =
        collection.observations ++ (observation :: List.replicate count observation).toArray := by
      apply Array.ext'
      simp
    rw [List.replicate_succ, ← appended]
    exact rest

theorem collect_replicate {table : LocationTable} {event : Event} {observation : Observation}
    (transcribed : event.transcribe table = .ok observation) (count : Nat) :
    collect table (List.replicate count event) = .ok (List.replicate count observation) := by
  have collected := @Collection.foldlM_push_replicate _ _ (.empty table) transcribed count
  unfold collect
  rw [collected]
  simp [Collection.empty, bind, Except.bind, pure, Except.pure]

namespace Event

variable {table : LocationTable} {event : Event} {observation : Observation}

theorem transcribe_ok (ok : event.transcribe table = .ok observation) :
    observation.location = event.location ∧ event.use = .ok observation.use ∧
      ∀ loc ∈ event.locations, loc.index < table.size := by
  unfold transcribe at ok
  split at ok
  · cases ok
  · rename_i absent
    obtain ⟨use, found, ok⟩ := exists_of_bind_ok ok
    cases ok
    refine ⟨rfl, found, fun loc member => ?_⟩
    simpa [LocationTable.contains] using List.find?_eq_none.1 absent loc member

theorem hint_of_transcribe (ok : event.transcribe table = .ok observation) :
    observation.hint = event.hint := by
  unfold transcribe at ok
  split at ok
  · cases ok
  · obtain ⟨use, _, ok⟩ := exists_of_bind_ok ok
    cases ok
    rfl

theorem soleOperand_ok {operand : LocId} (ok : event.soleOperand = .ok operand) :
    event.operands = [operand] := by
  unfold soleOperand at ok
  split at ok
  · rename_i only same
    cases ok
    exact same
  · cases ok

theorem noOperands_ok (ok : event.noOperands = .ok ()) : event.operands = [] := by
  unfold noOperands at ok
  split at ok
  · assumption
  · cases ok

theorem accessSize_ok {size : UInt8} (ok : event.accessSize = .ok size) :
    event.size = some size := by
  unfold accessSize at ok
  split at ok
  · cases ok
  · rename_i found
    split at ok
    · cases ok
    · cases ok
      exact found

theorem use_assign {use : Use} (action : event.action = .assign) (ok : event.use = .ok use) :
    ∃ source, event.operands = [source] ∧ use = .assignedFrom source := by
  simp only [Event.use, action] at ok
  obtain ⟨source, sole, ok⟩ := exists_of_bind_ok ok
  cases ok
  exact ⟨source, soleOperand_ok sole, rfl⟩

theorem use_compare {use : Use} (action : event.action = .compare) (ok : event.use = .ok use) :
    ∃ other, event.operands = [other] ∧ use = .comparedWith other event.signedness := by
  simp only [Event.use, action] at ok
  obtain ⟨other, sole, ok⟩ := exists_of_bind_ok ok
  cases ok
  exact ⟨other, soleOperand_ok sole, rfl⟩

theorem use_deref {use : Use} (action : event.action = .deref) (ok : event.use = .ok use) :
    ∃ base size, event.operands = [base] ∧ event.size = some size ∧
      use = .dereference base (event.offset.getD 0) size := by
  simp only [Event.use, action] at ok
  obtain ⟨base, sole, ok⟩ := exists_of_bind_ok ok
  obtain ⟨size, access, ok⟩ := exists_of_bind_ok ok
  cases ok
  exact ⟨base, size, soleOperand_ok sole, accessSize_ok access, rfl⟩

theorem use_call {use : Use} (action : event.action = .call) (ok : event.use = .ok use) :
    use = .callWithArgs event.operands := by
  simp only [Event.use, action] at ok
  split at ok
  · split at ok <;> cases ok
    rfl
  · cases ok
    rfl

theorem use_callReturn {use : Use} (action : event.action = .callReturn)
    (ok : event.use = .ok use) :
    ∃ callee, event.operands = [callee] ∧ use = .callReturns callee := by
  simp only [Event.use, action] at ok
  obtain ⟨callee, sole, ok⟩ := exists_of_bind_ok ok
  cases ok
  exact ⟨callee, soleOperand_ok sole, rfl⟩

theorem use_read {use : Use} (action : event.action = .read) (ok : event.use = .ok use) :
    ∃ size, event.operands = [] ∧ use = .read size := by
  simp only [Event.use, action] at ok
  obtain ⟨_, none, ok⟩ := exists_of_bind_ok ok
  obtain ⟨size, _, ok⟩ := exists_of_bind_ok ok
  cases ok
  exact ⟨size, noOperands_ok none, rfl⟩

theorem use_write {use : Use} (action : event.action = .write) (ok : event.use = .ok use) :
    ∃ size, event.operands = [] ∧ use = .write size := by
  simp only [Event.use, action] at ok
  obtain ⟨_, none, ok⟩ := exists_of_bind_ok ok
  obtain ⟨size, _, ok⟩ := exists_of_bind_ok ok
  cases ok
  exact ⟨size, noOperands_ok none, rfl⟩

theorem use_arith {use : Use} (action : event.action = .arith) (ok : event.use = .ok use) :
    ∃ other operator, event.operands = [other] ∧ use = .arithmeticWith other operator := by
  simp only [Event.use, action] at ok
  obtain ⟨other, sole, ok⟩ := exists_of_bind_ok ok
  cases found : event.operator with
  | none => simp [found] at ok
  | some operator =>
    simp only [found] at ok
    cases ok
    exact ⟨other, operator, soleOperand_ok sole, rfl⟩

theorem operands_of_use {use : Use} (ok : event.use = .ok use) : use.operands = event.operands := by
  cases action : event.action with
  | read =>
    obtain ⟨_, operands, rfl⟩ := use_read action ok
    exact operands.symm
  | write =>
    obtain ⟨_, operands, rfl⟩ := use_write action ok
    exact operands.symm
  | assign =>
    obtain ⟨_, operands, rfl⟩ := use_assign action ok
    exact operands.symm
  | deref =>
    obtain ⟨_, _, operands, _, rfl⟩ := use_deref action ok
    exact operands.symm
  | call =>
    cases use_call action ok
    rfl
  | callReturn =>
    obtain ⟨_, operands, rfl⟩ := use_callReturn action ok
    exact operands.symm
  | compare =>
    obtain ⟨_, operands, rfl⟩ := use_compare action ok
    exact operands.symm
  | arith =>
    obtain ⟨_, _, operands, rfl⟩ := use_arith action ok
    exact operands.symm

end Event

theorem declared_of_collect {table : LocationTable} {events : List Event}
    {observations : List Observation} (ok : collect table events = .ok observations) :
    ∀ observation ∈ observations, ∀ loc ∈ observation.locations, loc.index < table.size := by
  intro observation member
  obtain ⟨event, _, transcribed⟩ := (collect_ok ok).2 observation member
  obtain ⟨location, use, declared⟩ := Event.transcribe_ok transcribed
  rw [Observation.locations, location, Event.operands_of_use use]
  exact declared

theorem Seeding.observeAll_declared {pointerSize : UInt8} {observations : List Observation}
    {seeding : Seeding} (wellFormed : seeding.WellFormed)
    (declared : ∀ observation ∈ observations, ∀ loc ∈ observation.locations,
      loc.index < seeding.store.locationCount) :
    ∃ after, seeding.observeAll pointerSize observations = (after, none) := by
  induction observations generalizing seeding with
  | nil => exact ⟨seeding, rfl⟩
  | cons observation rest ih =>
    rw [List.forall_mem_cons] at declared
    obtain ⟨middle, found⟩ := @observe_of_declared seeding pointerSize observation declared.1
    have onward := (observe_observes wellFormed found).onward
    obtain ⟨after, seeded⟩ := ih onward.wellFormed (by
      rw [onward.locationCount]
      exact declared.2)
    exact ⟨after, by rw [observeAll, found]; exact seeded⟩

theorem Hint.isFunction_iff {hint : Hint} :
    hint.isFunction = true ↔ ∃ name params ret, hint.underlying = .function name params ret := by
  unfold isFunction
  cases hint.underlying <;> simp

def Action.arity : Action → Option Nat
  | read | write => some 0
  | assign | deref | callReturn | compare | arith => some 1
  | call => none

def Action.accesses : Action → Bool
  | read | write | deref => true
  | assign | call | callReturn | compare | arith => false

namespace Event

variable {table : LocationTable} {event : Event} {observation : Observation} {fault : Fault}
  {use : Use}

/-- An event that carries all that its action needs. -/
structure WellFormed (table : LocationTable) (event : Event) : Prop where
  declared : ∀ loc ∈ event.locations, loc.index < table.size
  counted : ∀ expected, event.action.arity = some expected → event.operands.length = expected
  sized : event.action.accesses = true → ∃ size, event.size = some size ∧ size ≠ 0
  operated : event.action = .arith → ∃ operator, event.operator = some operator
  called : event.action = .call → ∀ hint, event.hint = some hint →
    ∃ name params ret, hint.underlying = .function name params ret

/-- The use that an event of each action stands for. -/
inductive UsedAs (event : Event) : Use → Prop
  | read {size : UInt8} : event.action = .read → event.size = some size →
    UsedAs event (.read size)
  | write {size : UInt8} : event.action = .write → event.size = some size →
    UsedAs event (.write size)
  | assign {source : LocId} : event.action = .assign → event.operands = [source] →
    UsedAs event (.assignedFrom source)
  | deref {base : LocId} {size : UInt8} : event.action = .deref → event.operands = [base] →
    event.size = some size → UsedAs event (.dereference base (event.offset.getD 0) size)
  | call : event.action = .call → UsedAs event (.callWithArgs event.operands)
  | callReturn {callee : LocId} : event.action = .callReturn → event.operands = [callee] →
    UsedAs event (.callReturns callee)
  | compare {other : LocId} : event.action = .compare → event.operands = [other] →
    UsedAs event (.comparedWith other event.signedness)
  | arith {other : LocId} {operator : Operator} : event.action = .arith →
    event.operands = [other] → event.operator = some operator →
    UsedAs event (.arithmeticWith other operator)

structure RecordedAs (event : Event) (observation : Observation) : Prop where
  point : observation.point = event.point
  location : observation.location = event.location
  hint : observation.hint = event.hint
  use : event.UsedAs observation.use

def undeclared (table : LocationTable) (event : Event) : List Fault :=
  (event.locations.filter fun loc => !table.contains loc).map .unknownLocation

def miscounted (event : Event) : List Fault :=
  match event.action.arity with
  | none => []
  | some expected =>
    if event.operands.length = expected then []
    else [.operandCount event.action expected event.operands.length]

def unsized (event : Event) : List Fault :=
  if event.action.accesses then
    match event.size with
    | none => [.missingSize event.action]
    | some size => if size = 0 then [.zeroSize event.action] else []
  else []

def unoperated (event : Event) : List Fault :=
  if event.action = .arith ∧ event.operator = none then [.missingOperator] else []

def mishinted (event : Event) : List Fault :=
  match event.hint with
  | none => []
  | some hint => if event.action = .call ∧ ¬ hint.isFunction then [.hintMismatch hint] else []

/-- What an event lacks for its action, wherever its locations are. -/
def lacks (event : Event) : List Fault :=
  event.miscounted ++ event.unsized ++ event.unoperated ++ event.mishinted

/-- Every check that an event fails, in the order of the checks. -/
def faults (table : LocationTable) (event : Event) : List Fault :=
  event.undeclared table ++ event.lacks

theorem undeclared_eq_nil :
    event.undeclared table = [] ↔ ∀ loc ∈ event.locations, loc.index < table.size := by
  simp [undeclared, List.filter_eq_nil_iff, LocationTable.contains]

theorem miscounted_eq_nil : event.miscounted = [] ↔
    ∀ expected, event.action.arity = some expected → event.operands.length = expected := by
  unfold miscounted
  cases event.action.arity <;> simp

theorem unsized_eq_nil : event.unsized = [] ↔
    (event.action.accesses = true → ∃ size, event.size = some size ∧ size ≠ 0) := by
  unfold unsized
  cases event.action.accesses <;> cases event.size <;> simp

theorem unoperated_eq_nil : event.unoperated = [] ↔
    (event.action = .arith → ∃ operator, event.operator = some operator) := by
  unfold unoperated
  cases event.operator <;> simp

theorem mishinted_eq_nil : event.mishinted = [] ↔
    (event.action = .call → ∀ hint, event.hint = some hint →
      ∃ name params ret, hint.underlying = .function name params ret) := by
  unfold mishinted
  cases event.hint with
  | none => simp
  | some hint =>
    simp only [← Hint.isFunction_iff]
    simp

theorem faults_eq_nil : event.faults table = [] ↔ event.WellFormed table := by
  simp only [faults, lacks, List.append_eq_nil_iff, undeclared_eq_nil, miscounted_eq_nil,
    unsized_eq_nil, unoperated_eq_nil, mishinted_eq_nil]
  constructor
  · rintro ⟨declared, ⟨⟨counted, sized⟩, operated⟩, called⟩
    exact ⟨declared, counted, sized, operated, called⟩
  · rintro ⟨declared, counted, sized, operated, called⟩
    exact ⟨declared, ⟨⟨counted, sized⟩, operated⟩, called⟩

instance : Decidable (event.WellFormed table) := decidable_of_iff _ faults_eq_nil

theorem noOperands_cases : (event.operands = [] ∧ event.noOperands = .ok ()) ∨
    (event.operands.length ≠ 0 ∧
      event.noOperands = .error (.operandCount event.action 0 event.operands.length)) := by
  unfold noOperands
  cases event.operands <;> simp

theorem soleOperand_cases :
    (∃ operand, event.operands = [operand] ∧ event.soleOperand = .ok operand) ∨
    (event.operands.length ≠ 1 ∧
      event.soleOperand = .error (.operandCount event.action 1 event.operands.length)) := by
  unfold soleOperand
  match event.operands with
  | [] => simp
  | [operand] => simp
  | _ :: _ :: _ => simp

theorem accessSize_cases (accesses : event.action.accesses = true) :
    (∃ size, event.size = some size ∧ event.unsized = [] ∧ event.accessSize = .ok size) ∨
    ∃ fault, event.unsized = [fault] ∧ event.accessSize = .error fault := by
  unfold accessSize unsized
  rw [if_pos accesses]
  cases event.size with
  | none => simp
  | some size => by_cases zero : size = 0 <;> simp [zero]

/-- A verdict that agrees with the faults found: the first of them, or the use if there is none. -/
def Judged (event : Event) (found : List Fault) : Except Fault Use → Prop
  | .ok use => found = [] ∧ event.UsedAs use
  | .error fault => found.head? = some fault

theorem lacks_of_arity {expected : Nat} (takes : event.action.arity = some expected) :
    event.lacks = event.miscounted ++ (event.unsized ++ event.unoperated) := by
  -- An action that takes a number of operands is no call, so its hint is not checked.
  have mishinted : event.mishinted = [] := by
    apply mishinted_eq_nil.2
    intro call
    simp [call, Action.arity] at takes
  rw [lacks, mishinted, List.append_nil, List.append_assoc]

theorem lacks_of_call (call : event.action = .call) : event.lacks = event.mishinted := by
  simp [lacks, miscounted, unsized, unoperated, call, Action.arity, Action.accesses]

theorem miscounted_of_length {expected : Nat} (takes : event.action.arity = some expected)
    (count : event.operands.length = expected) : event.miscounted = [] := by
  simp [miscounted, takes, count]

theorem miscounted_of_ne {expected : Nat} (takes : event.action.arity = some expected)
    (count : event.operands.length ≠ expected) :
    event.miscounted = [.operandCount event.action expected event.operands.length] := by
  simp [miscounted, takes, count]

theorem judged_of_noOperands {next : Unit → Except Fault Use}
    (takes : event.action.arity = some 0)
    (onward : event.Judged (event.unsized ++ event.unoperated) (next ())) :
    event.Judged event.lacks (event.noOperands >>= next) := by
  rw [lacks_of_arity takes]
  obtain ⟨operands, none⟩ | ⟨count, wrong⟩ := event.noOperands_cases
  · rw [none, miscounted_of_length takes (by rw [operands]; rfl)]
    exact onward
  · rw [wrong, miscounted_of_ne takes count]
    rfl

theorem judged_of_soleOperand {next : LocId → Except Fault Use}
    (takes : event.action.arity = some 1)
    (onward : ∀ operand, event.operands = [operand] →
      event.Judged (event.unsized ++ event.unoperated) (next operand)) :
    event.Judged event.lacks (event.soleOperand >>= next) := by
  rw [lacks_of_arity takes]
  obtain ⟨operand, operands, sole⟩ | ⟨count, wrong⟩ := event.soleOperand_cases
  · rw [sole, miscounted_of_length takes (by rw [operands]; rfl)]
    exact onward operand operands
  · rw [wrong, miscounted_of_ne takes count]
    rfl

theorem judged_of_accessSize {make : UInt8 → Use} (accesses : event.action.accesses = true)
    (used : ∀ size, event.size = some size → event.UsedAs (make size)) :
    event.Judged (event.unsized ++ event.unoperated)
      (event.accessSize >>= fun size => .ok (make size)) := by
  have unoperated : event.unoperated = [] := by
    apply unoperated_eq_nil.2
    intro arith
    simp [arith, Action.accesses] at accesses
  rw [unoperated, List.append_nil]
  obtain ⟨size, given, unsized, access⟩ | ⟨fault, unsized, access⟩ := accessSize_cases accesses
  · rw [access, unsized]
    exact ⟨rfl, used size given⟩
  · rw [access, unsized]
    rfl

theorem judged_of_operand {make : LocId → Use} (takes : event.action.arity = some 1)
    (accesses : event.action.accesses = false) (operates : event.action ≠ .arith)
    (used : ∀ operand, event.operands = [operand] → event.UsedAs (make operand)) :
    event.Judged event.lacks (event.soleOperand >>= fun operand => .ok (make operand)) := by
  apply judged_of_soleOperand takes
  intro operand operands
  refine ⟨?_, used operand operands⟩
  simp [unsized, unoperated, accesses, operates]

theorem judged_use : event.Judged event.lacks event.use := by
  cases action : event.action with
  | read =>
    simp only [Event.use, action]
    exact judged_of_noOperands (by rw [action]; rfl)
      (judged_of_accessSize (by rw [action]; rfl) fun _ => .read action)
  | write =>
    simp only [Event.use, action]
    exact judged_of_noOperands (by rw [action]; rfl)
      (judged_of_accessSize (by rw [action]; rfl) fun _ => .write action)
  | assign =>
    simp only [Event.use, action]
    exact judged_of_operand (by rw [action]; rfl) (by rw [action]; rfl) (by simp [action])
      fun _ => .assign action
  | deref =>
    simp only [Event.use, action]
    exact judged_of_soleOperand (by rw [action]; rfl) fun base operands =>
      judged_of_accessSize (by rw [action]; rfl) fun _ => .deref action operands
  | call =>
    simp only [Event.use, action]
    rw [lacks_of_call action]
    cases hint : event.hint with
    | none =>
      refine ⟨?_, .call action⟩
      rw [mishinted, hint]
    | some hint' =>
      by_cases isFunction : hint'.isFunction = true
      · simp only [isFunction, if_true]
        refine ⟨?_, .call action⟩
        simp [mishinted, hint, isFunction]
      · simp [Judged, mishinted, action, hint, isFunction]
  | callReturn =>
    simp only [Event.use, action]
    exact judged_of_operand (by rw [action]; rfl) (by rw [action]; rfl) (by simp [action])
      fun _ => .callReturn action
  | compare =>
    simp only [Event.use, action]
    exact judged_of_operand (by rw [action]; rfl) (by rw [action]; rfl) (by simp [action])
      fun _ => .compare action
  | arith =>
    simp only [Event.use, action]
    apply judged_of_soleOperand (by rw [action]; rfl)
    intro other operands
    cases operator : event.operator with
    | none => simp [Judged, unsized, unoperated, action, Action.accesses, operator]
    | some operator' =>
      refine ⟨?_, .arith action operands operator⟩
      simp [unsized, unoperated, action, Action.accesses, operator]

theorem find_undeclared (event : Event) :
    ((event.locations.find? fun loc => !table.contains loc).map .unknownLocation) =
      (event.undeclared table).head? := by
  rw [undeclared, List.head?_map, List.head?_filter]

theorem recordedAs_of_transcribe (ok : event.transcribe table = .ok observation) :
    event.WellFormed table ∧ event.RecordedAs observation := by
  have judged := event.judged_use
  have absent := @find_undeclared table event
  unfold transcribe at ok
  split at ok
  · cases ok
  · rename_i none
    obtain ⟨use, used, ok⟩ := exists_of_bind_ok ok
    cases ok
    rw [used] at judged
    rw [none] at absent
    refine ⟨faults_eq_nil.1 ?_, rfl, rfl, rfl, judged.2⟩
    rw [faults, judged.1, List.head?_eq_none_iff.1 absent.symm]
    rfl

theorem faults_of_transcribe (error : event.transcribe table = .error fault) :
    (event.faults table).head? = some fault := by
  have judged := event.judged_use
  have absent := @find_undeclared table event
  unfold transcribe at error
  rw [faults, List.head?_append, ← absent]
  split at error
  · rename_i loc found
    cases error
    rw [found]
    rfl
  · rename_i none
    rw [none]
    cases used : event.use with
    | ok use =>
      rw [used] at error
      cases error
    | error fault' =>
      rw [used] at error judged
      cases error
      exact judged

theorem transcribe_of_wellFormed (wellFormed : event.WellFormed table) :
    ∃ observation, event.transcribe table = .ok observation := by
  cases found : event.transcribe table with
  | ok observation => exact ⟨observation, rfl⟩
  | error fault =>
    have faulty := faults_of_transcribe found
    rw [faults_eq_nil.2 wellFormed] at faulty
    cases faulty

theorem not_wellFormed_of_transcribe (error : event.transcribe table = .error fault) :
    ¬ event.WellFormed table := by
  intro wellFormed
  obtain ⟨observation, ok⟩ := transcribe_of_wellFormed wellFormed
  rw [error] at ok
  cases ok

end Event

namespace Collection

variable {collection after : Collection} {event : Event} {events : List Event}

/-- The collection after a whole trace, with each malformed event passed over. -/
def pushAll (collection : Collection) (events : List Event) : Collection :=
  events.foldl (fun collection event => (collection.push event).toOption.getD collection) collection

/-- What pushing records after the observations that were there. -/
structure Records (collection after : Collection) (events : List Event) : Prop where
  table : after.table = collection.table
  recorded : ∃ observations, after.observations.toList =
    collection.observations.toList ++ observations ∧
      List.Forall₂ Event.RecordedAs events observations

theorem Records.refl : Records collection collection [] :=
  ⟨rfl, [], (List.append_nil _).symm, .nil⟩

theorem Records.cons {middle : Collection} (first : Records collection middle [event])
    (rest : Records middle after events) : Records collection after (event :: events) := by
  obtain ⟨before, same, one⟩ := first.recorded
  obtain ⟨observations, later, recorded⟩ := rest.recorded
  refine ⟨rest.table.trans first.table, before ++ observations, ?_, ?_⟩
  · rw [later, same, List.append_assoc]
  · exact List.rel_append one recorded

theorem records_push (ok : collection.push event = .ok after) :
    event.WellFormed collection.table ∧ Records collection after [event] := by
  obtain ⟨observation, transcribed, rfl⟩ := push_ok ok
  obtain ⟨wellFormed, recorded⟩ := Event.recordedAs_of_transcribe transcribed
  exact ⟨wellFormed, rfl, [observation], Array.toList_push, .cons recorded .nil⟩

theorem push_error {rejection : Rejection} (error : collection.push event = .error rejection) :
    ∃ fault, (event.faults collection.table).head? = some fault ∧
      ¬ event.WellFormed collection.table ∧
      rejection = ⟨event.point, event.location, fault⟩ := by
  unfold push at error
  cases found : event.transcribe collection.table with
  | ok observation => simp [found] at error
  | error fault =>
    simp only [found, Except.error.injEq] at error
    exact ⟨fault, Event.faults_of_transcribe found, Event.not_wellFormed_of_transcribe found,
      error.symm⟩

theorem records_foldlM (ok : events.foldlM push collection = .ok after) :
    (∀ event ∈ events, event.WellFormed collection.table) ∧ Records collection after events := by
  induction events generalizing collection with
  | nil =>
    cases ok
    exact ⟨List.forall_mem_nil _, .refl⟩
  | cons event rest ih =>
    rw [List.foldlM_cons] at ok
    obtain ⟨middle, pushed, ok⟩ := exists_of_bind_ok ok
    obtain ⟨wellFormed, first⟩ := records_push pushed
    obtain ⟨all, recorded⟩ := ih ok
    rw [first.table] at all
    exact ⟨List.forall_mem_cons.2 ⟨wellFormed, all⟩, first.cons recorded⟩

theorem foldlM_error {rejection : Rejection}
    (error : events.foldlM push collection = .error rejection) :
    ∃ earlier event later fault, events = earlier ++ event :: later ∧
      (∀ event ∈ earlier, event.WellFormed collection.table) ∧
      ¬ event.WellFormed collection.table ∧
      (event.faults collection.table).head? = some fault ∧
      rejection = ⟨event.point, event.location, fault⟩ := by
  induction events generalizing collection with
  | nil => cases error
  | cons event rest ih =>
    rw [List.foldlM_cons] at error
    cases pushed : collection.push event with
    | error found =>
      rw [pushed] at error
      cases error
      obtain ⟨fault, first, malformed, same⟩ := push_error pushed
      exact ⟨[], event, rest, fault, rfl, List.forall_mem_nil _, malformed, first, same⟩
    | ok middle =>
      rw [pushed] at error
      obtain ⟨wellFormed, records⟩ := records_push pushed
      obtain ⟨earlier, last, later, fault, split, all, malformed, first, same⟩ := ih error
      rw [records.table] at all malformed first
      exact ⟨event :: earlier, last, later, fault, by rw [split]; rfl,
        List.forall_mem_cons.2 ⟨wellFormed, all⟩, malformed, first, same⟩

theorem records_pushAll : Records collection (collection.pushAll events)
    (events.filter (·.WellFormed collection.table)) := by
  induction events generalizing collection with
  | nil => exact .refl
  | cons event rest ih =>
    cases pushed : collection.push event with
    | error rejection =>
      obtain ⟨_, _, malformed, _⟩ := push_error pushed
      have same : collection.pushAll (event :: rest) = collection.pushAll rest := by
        simp [pushAll, pushed, Except.toOption]
      rw [same, List.filter_cons_of_neg (by simpa using malformed)]
      exact ih
    | ok middle =>
      obtain ⟨wellFormed, first⟩ := records_push pushed
      have same : collection.pushAll (event :: rest) = middle.pushAll rest := by
        simp [pushAll, pushed, Except.toOption]
      have recorded := @ih middle
      rw [first.table] at recorded
      rw [same, List.filter_cons_of_pos (by simpa using wellFormed)]
      exact first.cons recorded

end Collection

variable {table : LocationTable} {events : List Event}

theorem records_collect {observations : List Observation}
    (ok : collect table events = .ok observations) :
    (∀ event ∈ events, event.WellFormed table) ∧
      List.Forall₂ Event.RecordedAs events observations := by
  obtain ⟨collection, collected, ok⟩ := exists_of_bind_ok ok
  cases ok
  obtain ⟨all, _, observations, same, recorded⟩ := Collection.records_foldlM collected
  rw [same]
  exact ⟨all, recorded⟩

theorem collect_error {rejection : Rejection} (error : collect table events = .error rejection) :
    events.foldlM Collection.push (.empty table) = .error rejection := by
  unfold collect at error
  cases pushed : events.foldlM Collection.push (.empty table) with
  | ok collection =>
    rw [pushed] at error
    cases error
  | error found =>
    rw [pushed] at error
    cases error
    rfl

/-- The collector accepts the traces of well-formed events and no others, and records each event
as it is. It refuses any other trace for the first check that the first malformed event fails.
When it goes on after each rejection, it has recorded the well-formed events, in their order. -/
theorem collect_exact (table : LocationTable) (events : List Event) :
    ((∃ observations, collect table events = .ok observations) ↔
      ∀ event ∈ events, event.WellFormed table) ∧
    (∀ observations, collect table events = .ok observations →
      List.Forall₂ Event.RecordedAs events observations) ∧
    (∀ rejection, collect table events = .error rejection →
      ∃ earlier event later fault, events = earlier ++ event :: later ∧
        (∀ event ∈ earlier, event.WellFormed table) ∧ ¬ event.WellFormed table ∧
        (event.faults table).head? = some fault ∧
        rejection = ⟨event.point, event.location, fault⟩) ∧
    List.Forall₂ Event.RecordedAs (events.filter (·.WellFormed table))
      ((Collection.empty table).pushAll events).observations.toList := by
  refine ⟨⟨?_, ?_⟩, fun _ ok => (records_collect ok).2, ?_, ?_⟩
  · rintro ⟨observations, ok⟩
    exact (records_collect ok).1
  · intro all
    cases collected : collect table events with
    | ok observations => exact ⟨observations, rfl⟩
    | error rejection =>
      obtain ⟨earlier, event, later, _, rfl, _, malformed, _⟩ :=
        Collection.foldlM_error (collect_error collected)
      exact absurd (all event (List.mem_append_right _ List.mem_cons_self)) malformed
  · intro rejection error
    exact Collection.foldlM_error (collect_error error)
  · obtain ⟨_, observations, same, recorded⟩ :=
      @Collection.records_pushAll (.empty table) events
    rw [same]
    exact recorded

end TypeRecovery
