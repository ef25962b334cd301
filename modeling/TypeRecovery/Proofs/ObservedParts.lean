import TypeRecovery.Proofs.DeclaredParts
import TypeRecovery.Proofs.Scene
/-!
The parts that observations contribute. A hint that is declared of a label contributes what the
label is declared as, and by its parts what the labels are that it leads to; a call contributes how
many parameters its target has. Seeding refines classes by just that. A typedef contributes once,
when it is bound. A later use with the same definition has nothing to add, unless the definition is
still being realized, but no hint within a definition is as large as that.
-/
namespace TypeRecovery

namespace Scene

variable {Label : Type} (scene : Scene Label) (pointerSize : UInt8)

/-- A hint that is declared of the first label declares this of the second one. -/
inductive HintDeclares : Hint → Label → Label → Constraint → Prop where
  | own {hint : Hint} {here : Label} {constraint : Constraint} :
      (hint.declaration pointerSize).SameDeclared constraint →
        HintDeclares hint here here constraint
  | definition {name : String} {definition : Hint} {here there : Label} {constraint : Constraint} :
      HintDeclares definition here there constraint →
        HintDeclares (.named name definition) here there constraint
  | target {inner : Hint} {here target there : Label} {constraint : Constraint} :
      inner.size pointerSize = none → scene.refers here .pointee target →
      HintDeclares inner target there constraint →
        HintDeclares (.pointer inner) here there constraint
  | value {inner : Hint} {size : UInt8} {here target value there : Label}
      {constraint : Constraint} : inner.size pointerSize = some size →
      scene.refers here .pointee target → scene.refers target (.slot 0 size) value →
      HintDeclares inner value there constraint →
        HintDeclares (.pointer inner) here there constraint
  | param {name : Option String} {params : List Hint} {ret param : Hint} {place : Nat}
      {here target there : Label} {constraint : Constraint} : params[place]? = some param →
      scene.refers here (.param place) target → HintDeclares param target there constraint →
      HintDeclares (.function name params ret) here there constraint
  | result {name : Option String} {params : List Hint} {ret : Hint} {here result there : Label}
      {constraint : Constraint} : scene.refers here .result result →
      HintDeclares ret result there constraint →
        HintDeclares (.function name params ret) here there constraint

def HintsDeclare (hints : List Hint) (targets : List Label) (there : Label)
    (constraint : Constraint) :
    Prop :=
  ∃ (place : Nat) (hint : Hint) (target : Label), hints[place]? = some hint ∧
    targets[place]? = some target ∧ scene.HintDeclares pointerSize hint target there constraint

variable {scene pointerSize} {here there : Label} {constraint : Constraint}

theorem hintDeclares_void : scene.HintDeclares pointerSize .void here there constraint ↔
    there = here ∧ (Hint.void.declaration pointerSize).SameDeclared constraint := by
  constructor
  · rintro ⟨same⟩
    exact ⟨rfl, same⟩
  · rintro ⟨rfl, same⟩
    exact .own same

theorem hintDeclares_int {size : UInt8} {signedness : Option Signedness} :
    scene.HintDeclares pointerSize (.int size signedness) here there constraint ↔ there = here ∧
      ((Hint.int size signedness).declaration pointerSize).SameDeclared constraint := by
  constructor
  · rintro ⟨same⟩
    exact ⟨rfl, same⟩
  · rintro ⟨rfl, same⟩
    exact .own same

theorem hintDeclares_named {name : String} {definition : Hint} :
    scene.HintDeclares pointerSize (.named name definition) here there constraint ↔
      scene.HintDeclares pointerSize definition here there constraint := by
  constructor
  · intro declares
    cases declares with
    | own same => exact .own same
    | definition declares => exact declares
  · exact .definition

section unique

variable (unique : scene.Unique)
include unique

theorem hintDeclares_target {inner : Hint} {target : Label}
    (unsized : inner.size pointerSize = none) (points : scene.refers here .pointee target) :
    scene.HintDeclares pointerSize (.pointer inner) here there constraint ↔
      scene.HintDeclares pointerSize inner target there constraint ∨ there = here ∧
        ((Hint.pointer inner).declaration pointerSize).SameDeclared constraint := by
  constructor
  · intro declares
    cases declares with
    | own same => exact Or.inr ⟨rfl, same⟩
    | target _ known declares =>
      cases unique known points
      exact Or.inl declares
    | value sized => cases unsized.symm.trans sized
  · rintro (declares | ⟨rfl, same⟩)
    · exact .target unsized points declares
    · exact .own same

theorem hintDeclares_value {inner : Hint} {size : UInt8} {target value : Label}
    (sized : inner.size pointerSize = some size) (points : scene.refers here .pointee target)
    (holds : scene.refers target (.slot 0 size) value) :
    scene.HintDeclares pointerSize (.pointer inner) here there constraint ↔
      scene.HintDeclares pointerSize inner value there constraint ∨ there = here ∧
        ((Hint.pointer inner).declaration pointerSize).SameDeclared constraint := by
  constructor
  · intro declares
    cases declares with
    | own same => exact Or.inr ⟨rfl, same⟩
    | target unsized => cases unsized.symm.trans sized
    | value known pointed held declares =>
      cases known.symm.trans sized
      cases unique pointed points
      cases unique held holds
      exact Or.inl declares
  · rintro (declares | ⟨rfl, same⟩)
    · exact .value sized points holds declares
    · exact .own same

theorem hintDeclares_function {name : Option String} {params : List Hint} {ret : Hint}
    {targets : List Label} {result : Label} (length : targets.length = params.length)
    (takes : ∀ place target, targets[place]? = some target →
      scene.refers here (.param place) target) (returns : scene.refers here .result result) :
    scene.HintDeclares pointerSize (.function name params ret) here there constraint ↔
      (scene.HintsDeclare pointerSize params targets there constraint ∨
        scene.HintDeclares pointerSize ret result there constraint) ∨ there = here ∧
        ((Hint.function name params ret).declaration pointerSize).SameDeclared constraint := by
  constructor
  · intro declares
    cases declares with
    | own same => exact Or.inr ⟨rfl, same⟩
    | @param _ _ _ param place _ target _ _ found known declares =>
      have inside : place < targets.length := by
        rw [length]
        exact (List.getElem?_eq_some_iff.1 found).1
      have placed := List.getElem?_eq_getElem inside
      cases unique known (takes place _ placed)
      exact Or.inl (Or.inl ⟨place, param, _, found, placed, declares⟩)
    | result known declares =>
      cases unique known returns
      exact Or.inl (Or.inr declares)
  · rintro ((⟨place, param, target, found, placed, declares⟩ | declares) | ⟨rfl, same⟩)
    · exact .param found (takes place target placed) declares
    · exact .result returns declares
    · exact .own same

end unique

theorem hintsDeclare_cons {hint : Hint} {hints : List Hint} {target : Label}
    {targets : List Label} :
    scene.HintsDeclare pointerSize (hint :: hints) (target :: targets) there constraint ↔
      scene.HintDeclares pointerSize hint target there constraint ∨
        scene.HintsDeclare pointerSize hints targets there constraint := by
  constructor
  · rintro ⟨_ | place, param, known, found, placed, declares⟩
    · cases found
      cases placed
      exact Or.inl declares
    · exact Or.inr ⟨place, param, known, found, placed, declares⟩
  · rintro (declares | ⟨place, param, known, found, placed, declares⟩)
    · exact ⟨0, hint, target, rfl, rfl, declares⟩
    · exact ⟨place + 1, param, known, found, placed, declares⟩

end Scene

namespace Seeding

variable {Label : Type} {label : ClassId → Label} {scene : Scene Label} {seeding after : Seeding}
  {pointerSize : UInt8}

def Recorded (label : ClassId → Label) (record : List (ClassId × Constraint)) (there : Label)
    (constraint : Constraint) : Prop :=
  ∃ entry ∈ record, label entry.1 = there ∧ entry.2.SameDeclared constraint

/-- All that the definition declares of the typedef is on record. -/
def DefinitionRecorded (scene : Scene Label) (pointerSize : UInt8) (label : ClassId → Label)
    (record : List (ClassId × Constraint)) (name : String) (definition : Hint) : Prop :=
  ∀ there constraint,
    scene.HintDeclares pointerSize definition (scene.named name) there constraint →
    Recorded label record there constraint

/-- So much is known of the typedefs with definitions that are smaller than the bound. -/
def Below (known : String → Hint → Prop) (bound : Nat) (seeding : Seeding) : Prop :=
  ∀ name entry, seeding.store.typedef? name = some entry → sizeOf entry.2 < bound →
    known name entry.2

theorem Below.lower {known : String → Hint → Prop} {bound less : Nat}
    (below : Below known bound seeding) (lower : less ≤ bound) : Below known less seeding :=
  fun name entry found small => below name entry found (Nat.lt_of_lt_of_le small lower)

theorem Below.onward {known : String → Hint → Prop} {bound : Nat}
    (below : Below known bound seeding) (binds : Binds known seeding after) :
    Below known bound after := by
  intro name entry found small
  rcases binds name entry found with old | new
  · exact below name entry old small
  · exact new

theorem Below.intern {known : String → Hint → Prop} {name : String} {definition : Hint}
    (free : seeding.store.typedef? name = none)
    (below : Below known (sizeOf definition) seeding) :
    Below known (sizeOf definition) (seeding.intern name definition) := by
  -- The only typedef that is new has the definition itself, which is not below its own size.
  intro other entry found small
  rcases typedef?_intern free found with old | ⟨_, same⟩
  · exact below other entry old small
  · rw [same] at small
    exact absurd small (Nat.lt_irrefl _)

/-- The parts that were added on the way are those that were expected, and no others. -/
structure ExactParts (scene : Scene Label) (pointerSize : UInt8) (label : ClassId → Label)
    (expected : Label → Constraint → Prop) (bound : Nat) (parts : List (ClassId × Constraint))
    (seeding after : Seeding) : Prop where
  sound : ∀ entry ∈ parts, expected (label entry.1) entry.2
  /-- Together with what is on record of the typedefs that were bound before. -/
  complete : ∀ record, parts ⊆ record →
    Below (DefinitionRecorded scene pointerSize label record) bound seeding →
    (∀ there constraint, expected there constraint → Recorded label record there constraint) ∧
      Binds (DefinitionRecorded scene pointerSize label record) seeding after

namespace ExactParts

variable {expected more : Label → Constraint → Prop} {bound : Nat}
  {parts others : List (ClassId × Constraint)} {final : Seeding}

theorem congr {greater : Nat}
    (exactly : ExactParts scene pointerSize label expected bound parts seeding after)
    (grown : bound ≤ greater) (same : ∀ there constraint, more there constraint ↔
      expected there constraint) :
    ExactParts scene pointerSize label more greater parts seeding after where
  sound entry member := (same _ _).2 (exactly.sound entry member)
  complete record listed below := by
    obtain ⟨recorded, binds⟩ := exactly.complete record listed (below.lower grown)
    exact ⟨fun there constraint expected =>
      recorded there constraint ((same _ _).1 expected), binds⟩

theorem trans (first : ExactParts scene pointerSize label expected bound parts seeding after)
    (second : ExactParts scene pointerSize label more bound others after final) :
    ExactParts scene pointerSize label
      (fun there constraint => expected there constraint ∨ more there constraint) bound
      (parts ++ others) seeding final where
  sound := List.forall_mem_append.2
    ⟨fun entry member => Or.inl (first.sound entry member),
      fun entry member => Or.inr (second.sound entry member)⟩
  complete record listed below := by
    obtain ⟨left, right⟩ := List.append_subset.1 listed
    obtain ⟨firstRecorded, firstBinds⟩ := first.complete record left below
    -- What was bound on the way to the middle state is on record by then, as the second step needs.
    obtain ⟨secondRecorded, secondBinds⟩ := second.complete record right (below.onward firstBinds)
    exact ⟨fun there constraint expected => expected.elim (firstRecorded there constraint)
      (secondRecorded there constraint), firstBinds.trans secondBinds⟩

theorem onward (exactly : ExactParts scene pointerSize label expected bound parts seeding after)
    (same : ∀ name, final.store.typedef? name = after.store.typedef? name) :
    ExactParts scene pointerSize label expected bound parts seeding final where
  sound := exactly.sound
  complete record listed below :=
    (exactly.complete record listed below).imp_right fun binds => binds.trans (binds_of_same same)

theorem none (same : ∀ name, after.store.typedef? name = seeding.store.typedef? name)
    (bound : Nat) (nothing : ∀ there constraint, ¬ expected there constraint) :
    ExactParts scene pointerSize label expected bound [] seeding after where
  sound := List.forall_mem_nil _
  complete _ _ _ := ⟨fun there constraint given => absurd given (nothing there constraint),
    binds_of_same same⟩

theorem single {declared constraint : Constraint} (same : declared.SameDeclared constraint)
    (cls : ClassId) (bound : Nat) :
    ExactParts scene pointerSize label
      (fun there other => there = label cls ∧ declared.SameDeclared other) bound
      [(cls, constraint)] seeding seeding where
  sound := List.forall_mem_singleton.2 ⟨rfl, same⟩
  complete record listed _ := by
    refine ⟨?_, binds_of_same fun _ => rfl⟩
    rintro _ other ⟨rfl, too⟩
    exact ⟨_, listed List.mem_cons_self, rfl, same.symm.trans too⟩

theorem known {name : String} {definition : Hint} {entry : ClassId × Hint} {here : Label}
    (found : seeding.store.typedef? name = some entry) (same : entry.2 = definition)
    (smaller : sizeOf definition < bound) (stands : here = scene.named name) :
    ExactParts scene pointerSize label
      (scene.HintDeclares pointerSize (.named name definition) here) bound []
      seeding seeding where
  sound := List.forall_mem_nil _
  complete record _ below := by
    -- Nothing is added, for all of it was recorded when the typedef was bound.
    subst same stands
    exact ⟨fun there constraint expected =>
      below name entry found smaller there constraint (Scene.hintDeclares_named.1 expected),
      binds_of_same fun _ => rfl⟩

theorem bind {name : String} {definition : Hint} {here : Label} {greater : Nat}
    (exactly : ExactParts scene pointerSize label (scene.HintDeclares pointerSize definition here)
      (sizeOf definition) parts (seeding.intern name definition) after)
    (free : seeding.store.typedef? name = Option.none) (grown : sizeOf definition ≤ greater)
    (stands : here = scene.named name) :
    ExactParts scene pointerSize label
      (scene.HintDeclares pointerSize (.named name definition) here) greater
      parts seeding after where
  sound entry member := .definition (exactly.sound entry member)
  complete record listed below := by
    -- A typedef that is bound declares what its definition does, in the state that has it bound.
    subst stands
    obtain ⟨recorded, binds⟩ := exactly.complete record listed ((below.lower grown).intern free)
    exact ⟨fun there constraint expected =>
      recorded there constraint (Scene.hintDeclares_named.1 expected),
      binds_intern free binds recorded⟩

end ExactParts

/-- Seeding a hint adds the parts that the hint declares, once its own class has what the hint was
realized as. -/
def RealizesExactly (pointerSize : UInt8) (hint : Hint) : Prop :=
  ∀ ⦃seeding : Seeding⦄, seeding.WellFormed → ∃ parts,
    Store.AddsParts parts seeding.store (realize pointerSize hint seeding).2.store ∧
      ∀ {Label : Type} {label : ClassId → Label} {scene : Scene Label}, scene.Unique →
        (realize pointerSize hint seeding).2.Holds label scene → ∀ cls,
        (realize pointerSize hint seeding).1.At label scene.toModel (label cls) →
        ExactParts scene pointerSize label (scene.HintDeclares pointerSize hint (label cls))
          (sizeOf hint)
          (parts ++ (realize pointerSize hint seeding).1.parts cls) seeding
          (realize pointerSize hint seeding).2

def SettlesExactly (pointerSize : UInt8) (hints : List Hint) : Prop :=
  ∀ ⦃seeding : Seeding⦄, seeding.WellFormed → ∃ parts,
    Store.AddsParts parts seeding.store (settleAll pointerSize hints seeding).2.store ∧
      ∀ {Label : Type} {label : ClassId → Label} {scene : Scene Label}, scene.Unique →
        (settleAll pointerSize hints seeding).2.Holds label scene →
        ExactParts scene pointerSize label
          (scene.HintsDeclare pointerSize hints ((settleAll pointerSize hints seeding).1.map label))
          (sizeOf hints) parts seeding (settleAll pointerSize hints seeding).2

theorem RealizesExactly.classFor {hint : Hint} (realizes : RealizesExactly pointerSize hint)
    (wellFormed : seeding.WellFormed) : ∃ parts,
    Store.AddsParts parts seeding.store (classFor pointerSize hint seeding).2.store ∧
      ∀ {Label : Type} {label : ClassId → Label} {scene : Scene Label}, scene.Unique →
        (classFor pointerSize hint seeding).2.Holds label scene →
        ExactParts scene pointerSize label
          (scene.HintDeclares pointerSize hint (label (classFor pointerSize hint seeding).1))
          (sizeOf hint) parts seeding (classFor pointerSize hint seeding).2 := by
  obtain ⟨realized, fits⟩ := realize_extends pointerSize hint wellFormed
  obtain ⟨parts, addsParts, exactly⟩ := realizes wellFormed
  refine ⟨_, addsParts.trans (addsParts_settle _ _), fun unique holds => ?_⟩
  have before := (settle_extends realized.wellFormed fits).1.holds_of holds
  exact (exactly unique before _ (at_of_settle holds)).onward (typedef?_settle _)

theorem RealizesExactly.declare {hint : Hint} (realizes : RealizesExactly pointerSize hint)
    (wellFormed : seeding.WellFormed) {cls : ClassId} (inside : cls.index < seeding.store.size) :
    ∃ parts, Store.AddsParts parts seeding.store (seeding.declare pointerSize cls hint).store ∧
      ∀ {Label : Type} {label : ClassId → Label} {scene : Scene Label}, scene.Unique →
        (seeding.declare pointerSize cls hint).Holds label scene →
        ExactParts scene pointerSize label (scene.HintDeclares pointerSize hint (label cls))
          (sizeOf hint)
          parts seeding (seeding.declare pointerSize cls hint) := by
  have realized := (realize_extends pointerSize hint wellFormed).1
  have inside := Nat.lt_of_lt_of_le inside realized.size
  obtain ⟨parts, addsParts, exactly⟩ := realizes wellFormed
  refine ⟨_, addsParts.trans (addsParts_declareRealized inside _), fun unique holds => ?_⟩
  obtain ⟨before, at'⟩ := at_of_declareRealized inside holds
  exact (exactly unique before cls at').onward (typedef?_declareRealized cls _)

theorem length_settleAll (pointerSize : UInt8) (hints : List Hint) (seeding : Seeding) :
    (settleAll pointerSize hints seeding).1.length = hints.length := by
  induction hints generalizing seeding with
  | nil => rfl
  | cons hint rest ih => exact congrArg Nat.succ (ih _)

theorem realizesExactly_void : RealizesExactly pointerSize .void := by
  intro seeding wellFormed
  refine ⟨[], .refl _, fun unique holds cls at' => ?_⟩
  exact (ExactParts.single (.refl _) cls _).congr (Nat.le_refl _) fun _ _ => Scene.hintDeclares_void

theorem realizesExactly_int (size : UInt8) (signedness : Option Signedness) :
    RealizesExactly pointerSize (.int size signedness) := by
  intro seeding wellFormed
  refine ⟨[], .refl _, fun unique holds cls at' => ?_⟩
  exact (ExactParts.single (.refl _) cls _).congr (Nat.le_refl _) fun _ _ => Scene.hintDeclares_int

theorem realizesExactly_pointer {inner : Hint} (realizes : RealizesExactly pointerSize inner) :
    RealizesExactly pointerSize (.pointer inner) := by
  intro seeding wellFormed
  have smaller : sizeOf inner ≤ sizeOf (Hint.pointer inner) := by simp
  have declared (target : ClassId) : ((Hint.pointer inner).declaration pointerSize).SameDeclared
      { declaredKind := some .pointer
        declaredWidth := some pointerSize
        pointee := some target } := ⟨rfl, rfl, rfl⟩
  obtain ⟨parts, addsParts, exactly⟩ := realizes.classFor wellFormed
  cases size : inner.size pointerSize with
  | some bytes =>
    -- Nothing is added to the memory around the value but its slot.
    simp only [realize, size]
    refine ⟨parts, addsParts.onward (Store.keepsDeclared_fresh _ ⟨rfl, rfl, rfl⟩),
      fun unique holds cls at' => ?_⟩
    obtain ⟨before, memory⟩ := holds_fresh.1 holds
    have value (target : ClassId) :=
      (exactly unique before).trans (.single (declared target) cls _)
    refine ExactParts.onward ((value _).congr smaller fun _ _ => ?_) (Store.typedef?_fresh _ _)
    exact Scene.hintDeclares_value unique size (Constraint.holds_pointer.1 at').2
      (Constraint.holds_slot.1 memory)
  | none =>
    simp only [realize, size]
    refine ⟨parts, addsParts, fun unique holds cls at' => ?_⟩
    have value (target : ClassId) :=
      (exactly unique holds).trans (.single (declared target) cls _)
    refine (value _).congr smaller fun _ _ => ?_
    exact Scene.hintDeclares_target unique size (Constraint.holds_pointer.1 at').2

theorem realizesExactly_function (name : Option String) {params : List Hint} {ret : Hint}
    (paramsSettle : SettlesExactly pointerSize params)
    (retRealizes : RealizesExactly pointerSize ret) :
    RealizesExactly pointerSize (.function name params ret) := by
  intro seeding wellFormed
  have smaller : sizeOf params ≤ sizeOf (Hint.function name params ret) ∧
      sizeOf ret ≤ sizeOf (Hint.function name params ret) := by
    constructor
    · simp
      omega
    · simp
  have formals := (settleAll_extends pointerSize params wellFormed).1
  obtain ⟨parts, addsParts, exactly⟩ := paramsSettle wellFormed
  -- The parameters are settled first, and the result in the state that they leave.
  obtain ⟨others, retAdds, retExactly⟩ := retRealizes.classFor formals.wellFormed
  refine ⟨_, addsParts.trans retAdds, fun unique holds cls at' => ?_⟩
  have before := (classFor_extends pointerSize ret formals.wellFormed).1.holds_of holds
  have length := length_settleAll pointerSize params seeding
  have declared : ((Hint.function name params ret).declaration pointerSize).SameDeclared
      { declaredKind := some .function
        signature := some ⟨some (settleAll pointerSize params seeding).1,
          (classFor pointerSize ret (settleAll pointerSize params seeding).2).1⟩ } :=
    ⟨rfl, rfl, by simp [Constraint.arity, Signature.arity, Hint.declaration, length]⟩
  obtain ⟨_, _, takes, returns⟩ := Constraint.holds_function.1 at'
  have formalsParts := (exactly unique before).congr smaller.1 fun _ _ => Iff.rfl
  have resultParts := (retExactly unique holds).congr smaller.2 fun _ _ => Iff.rfl
  refine ((formalsParts.trans resultParts).trans (.single declared cls _)).congr (Nat.le_refl _)
    fun _ _ => ?_
  exact Scene.hintDeclares_function unique (by rw [List.length_map, length]) takes returns

theorem keepsDeclared_intern (seeding : Seeding) (name : String) (definition : Hint) :
    Store.KeepsDeclared seeding.store (seeding.intern name definition).store :=
  have undeclared : ({} : Constraint).SameDeclared { declaredName := some name } := ⟨rfl, rfl, rfl⟩
  (Store.keepsDeclared_fresh _ undeclared).trans
    (Store.keepsDeclared_bindTypedef _ name _ definition)

theorem realizesExactly_named (name : String) {definition : Hint}
    (realizes : RealizesExactly pointerSize definition) :
    RealizesExactly pointerSize (.named name definition) := by
  intro seeding wellFormed
  have smaller : sizeOf definition < sizeOf (Hint.named name definition) := by
    simp only [Hint.named.sizeOf_spec]
    omega
  simp only [realize]
  cases found : seeding.store.typedef? name with
  | some entry =>
    -- To a typedef met again parts are added only if its definition is another one.
    by_cases known : entry.2 = definition
    · simp only [known, if_true]
      refine ⟨[], .refl _, fun {_ label scene} unique holds cls at' => ?_⟩
      exact .known found known smaller (at'.symm.trans (holds.named found))
    · simp only [known, if_false]
      obtain ⟨parts, addsParts, exactly⟩ := realizes.declare wellFormed (wellFormed.typedefs found)
      refine ⟨parts, addsParts, fun {_ label scene} unique holds cls at' => ?_⟩
      have there : label cls = label entry.1 := Eq.symm at'
      rw [there]
      exact (parts.append_nil.symm ▸ exactly unique holds).congr smaller.le
        fun _ _ => Scene.hintDeclares_named
  | none =>
    -- A new typedef is bound to a class of its own, of which its definition is then declared.
    obtain ⟨interned, new⟩ := @intern_extends _ _ definition found wellFormed
    have inside : (⟨seeding.store.size⟩ : ClassId).index < _ := new
    obtain ⟨parts, addsParts, exactly⟩ := realizes.declare interned.wellFormed inside
    have interns := Store.AddsParts.keepsDeclared (keepsDeclared_intern seeding name definition)
    refine ⟨parts, interns.trans addsParts,
      fun {_ label scene} unique holds cls at' => ?_⟩
    have there : label cls = label ⟨seeding.store.size⟩ := Eq.symm at'
    have before := (declare_extends definition interned.wellFormed inside).holds_of holds
    rw [there]
    exact (parts.append_nil.symm ▸ exactly unique holds).bind found smaller.le
      ((holds_intern found).1 before).2.2

theorem settlesExactly_nil : SettlesExactly pointerSize [] := by
  intro seeding wellFormed
  refine ⟨[], .refl _, fun unique holds => .none (fun _ => rfl) _ ?_⟩
  rintro there constraint ⟨place, hint, target, found, _⟩
  cases found

theorem settlesExactly_cons {hint : Hint} {rest : List Hint}
    (realizes : RealizesExactly pointerSize hint)
    (restSettles : SettlesExactly pointerSize rest) :
    SettlesExactly pointerSize (hint :: rest) := by
  intro seeding wellFormed
  have smaller : sizeOf hint ≤ sizeOf (hint :: rest) ∧ sizeOf rest ≤ sizeOf (hint :: rest) := by
    constructor
    · simp
      omega
    · simp
  have first := (classFor_extends pointerSize hint wellFormed).1
  obtain ⟨parts, addsParts, exactly⟩ := realizes.classFor wellFormed
  obtain ⟨others, restAdds, restExactly⟩ := restSettles first.wellFormed
  refine ⟨_, addsParts.trans restAdds, fun unique holds => ?_⟩
  have before := (settleAll_extends pointerSize rest first.wellFormed).1.holds_of holds
  have firstParts := (exactly unique before).congr smaller.1 fun _ _ => Iff.rfl
  have restParts := (restExactly unique holds).congr smaller.2 fun _ _ => Iff.rfl
  exact (firstParts.trans restParts).congr (Nat.le_refl _) fun _ _ => Scene.hintsDeclare_cons

mutual
theorem realizesExactly (pointerSize : UInt8) (hint : Hint) : RealizesExactly pointerSize hint := by
  match hint with
  | .void => exact realizesExactly_void
  | .int size signedness => exact realizesExactly_int size signedness
  | .pointer inner => exact realizesExactly_pointer (realizesExactly pointerSize inner)
  | .function name params ret =>
    exact realizesExactly_function name (settlesExactly pointerSize params)
      (realizesExactly pointerSize ret)
  | .named name definition =>
    exact realizesExactly_named name (realizesExactly pointerSize definition)

theorem settlesExactly (pointerSize : UInt8) (hints : List Hint) :
    SettlesExactly pointerSize hints := by
  match hints with
  | [] => exact settlesExactly_nil
  | hint :: rest =>
    exact settlesExactly_cons (realizesExactly pointerSize hint)
      (settlesExactly pointerSize rest)
end

end Seeding

def Use.declaration : Use → Option Constraint
  | callWithArgs args =>
    some { signature := some ⟨some (args.map fun _ => .absent), .absent⟩ }
  | _ => none

namespace Scene

variable {Label : Type} (scene : Scene Label) (pointerSize : UInt8)

def ObservationDeclares (observation : Observation) (there : Label) (constraint : Constraint) :
    Prop :=
  (there = scene.place observation.location ∧ ∃ declared,
    observation.use.declaration = some declared ∧ declared.SameDeclared constraint) ∨
  ∃ hint, observation.hint = some hint ∧
    scene.HintDeclares pointerSize hint (scene.place observation.location) there constraint

def ObservationsDeclare (observations : List Observation) (there : Label)
    (constraint : Constraint) : Prop :=
  ∃ observation ∈ observations, scene.ObservationDeclares pointerSize observation there constraint

end Scene

namespace Seeding

variable {seeding : Seeding} {cls : ClassId} {pointerSize : UInt8}

theorem keepsDeclared_recordUse (seeding : Seeding) (cls : ClassId) {use : Use}
    (nothing : use.declaration = none) :
    Store.KeepsDeclared seeding.store (seeding.recordUse cls use).store := by
  cases use with
  | read size => exact (keepsDeclared_mark ..).trans (keepsDeclared_access ..)
  | write size => exact (keepsDeclared_mark ..).trans (keepsDeclared_access ..)
  | assignedFrom source => exact (keepsDeclared_mark ..).trans (keepsDeclared_mark ..)
  | dereference base offset size =>
    exact (((keepsDeclared_mark ..).trans (keepsDeclared_access ..)).trans
      (keepsDeclared_pointeeOf ..)).trans (keepsDeclared_addSlot ..)
  | callWithArgs args => cases nothing
  | callReturns callee =>
    exact ((keepsDeclared_mark ..).trans (keepsDeclared_mark ..)).trans (keepsDeclared_returnOf ..)
  | comparedWith other signedness => exact (keepsDeclared_mark ..).trans (keepsDeclared_mark ..)
  | arithmeticWith other operator =>
    simp only [recordUse]
    split
    · exact keepsDeclared_mark ..
    · exact (keepsDeclared_mark ..).trans (keepsDeclared_mark ..)

theorem exists_callWithArgs (inside : cls.index < seeding.store.size) (args : List LocId) :
    ∃ declared part, (Use.callWithArgs args).declaration = some declared ∧
      declared.SameDeclared part ∧
      Store.AddsParts [(cls, part)] seeding.store
        (seeding.recordUse cls (.callWithArgs args)).store := by
  obtain ⟨params, known⟩ := @signature_returnOf (seeding.mark cls {.called}) cls inside
  have keepsDeclared :=
    (keepsDeclared_mark seeding cls {.called}).trans (keepsDeclared_returnOf _ cls)
  have added := Store.AddsParts.added (addsPart_formalsOf known args.length)
  have count := length_take_formalsOf (seeding.mark cls {.called}) cls args.length
  refine ⟨_, _, rfl, ?_, (Store.AddsParts.keepsDeclared keepsDeclared).trans added⟩
  exact ⟨rfl, rfl, congrArg some (count.trans (List.length_map _).symm)⟩

theorem exists_recordUse (wellFormed : seeding.WellFormed) (inside : cls.index < seeding.store.size)
    (use : Use) (declared : ∀ loc ∈ use.operands, loc.index < seeding.store.locationCount) :
    ∃ parts, Store.AddsParts parts seeding.store (seeding.recordUse cls use).store ∧
      ∀ {Label : Type} {label : ClassId → Label} {scene : Scene Label} (bound : Nat),
        ExactParts scene pointerSize label (fun there constraint => there = label cls ∧
          ∃ declared, use.declaration = some declared ∧ declared.SameDeclared constraint)
          bound parts seeding (seeding.recordUse cls use) := by
  have typedefs := typedef?_recordUse wellFormed inside use declared
  cases declares : use.declaration with
  | none =>
    refine ⟨[], .keepsDeclared (keepsDeclared_recordUse seeding cls declares),
      fun bound => .none typedefs _ ?_⟩
    rintro there constraint ⟨_, _, absent, _⟩
    cases absent
  | some known =>
    cases use with
    | callWithArgs args =>
      obtain ⟨_, part, given, same, addsParts⟩ := exists_callWithArgs inside args
      cases declares.symm.trans given
      refine ⟨_, addsParts, fun bound => ?_⟩
      apply ((ExactParts.single same cls bound).onward typedefs).congr (Nat.le_refl _)
      simp
    | _ => cases declares

theorem exists_observe {observation : Observation} {after : Seeding}
    (wellFormed : seeding.WellFormed) (ok : seeding.observe pointerSize observation = .ok after) :
    ∃ parts bound, Store.AddsParts parts seeding.store after.store ∧
      ∀ {Label : Type} {label : ClassId → Label} {scene : Scene Label}, scene.Unique →
        after.Holds label scene →
        ExactParts scene pointerSize label (scene.ObservationDeclares pointerSize observation)
          bound parts seeding
          after := by
  have onward := (observe_observes wellFormed ok).onward
  obtain ⟨declared, outcome⟩ := observe_ok ok
  have place := declared observation.location List.mem_cons_self
  have inside := classOf_inside place
  have operands (loc : LocId) (member : loc ∈ observation.use.operands) :=
    declared loc (List.mem_cons_of_mem _ member)
  have used := (recordUse_records wellFormed inside observation.use operands).onward
  -- The use is recorded first, and the hint declared in the state that it leaves.
  obtain ⟨parts, addsParts, exactly⟩ :=
    @exists_recordUse _ _ pointerSize wellFormed inside observation.use operands
  cases hinted : observation.hint with
  | none =>
    simp only [hinted] at outcome
    subst outcome
    refine ⟨parts, 0, addsParts, fun {_ label scene} unique holds => ?_⟩
    have located := label_classOf (onward.holds_of holds) place
    refine (exactly 0).congr (Nat.le_refl _) fun there constraint => ?_
    rw [Scene.ObservationDeclares, ← located, hinted]
    simp
  | some hint =>
    simp only [hinted] at outcome
    subst outcome
    obtain ⟨others, hintAdds, hintExactly⟩ := (realizesExactly pointerSize hint).declare
      used.wellFormed (Nat.lt_of_lt_of_le inside used.size)
    refine ⟨_, sizeOf hint, addsParts.trans hintAdds, fun {_ label scene} unique holds => ?_⟩
    have located := label_classOf (onward.holds_of holds) place
    refine ((exactly _).trans (hintExactly unique holds)).congr (Nat.le_refl _)
      fun there constraint => ?_
    rw [Scene.ObservationDeclares, ← located, hinted]
    simp

theorem exists_observeAll {observations : List Observation} {after : Seeding}
    (wellFormed : seeding.WellFormed)
    (ok : seeding.observeAll pointerSize observations = (after, none)) :
    ∃ parts bound, Store.AddsParts parts seeding.store after.store ∧
      ∀ {Label : Type} {label : ClassId → Label} {scene : Scene Label}, scene.Unique →
        after.Holds label scene →
        ExactParts scene pointerSize label (scene.ObservationsDeclare pointerSize observations)
          bound parts
          seeding after := by
  induction observations generalizing seeding with
  | nil =>
    cases ok
    refine ⟨[], 0, .refl _, fun unique holds => .none (fun _ => rfl) _ ?_⟩
    rintro there constraint ⟨_, absent, _⟩
    cases absent
  | cons observation rest ih =>
    cases found : seeding.observe pointerSize observation with
    | error failure => simp [observeAll, found] at ok
    | ok seeded =>
      simp only [observeAll, found] at ok
      have first := (observe_observes wellFormed found).onward
      have later := (observeAll_observes first.wellFormed ok).onward
      obtain ⟨parts, bound, addsParts, exactly⟩ := exists_observe wellFormed found
      obtain ⟨others, restBound, restAdds, restExactly⟩ := ih first.wellFormed ok
      refine ⟨_, max bound restBound, addsParts.trans restAdds, fun unique holds => ?_⟩
      have firstParts := (exactly unique (later.holds_of holds)).congr (Nat.le_max_left _ restBound)
        fun _ _ => Iff.rfl
      have restParts := (restExactly unique holds).congr (Nat.le_max_right bound _)
        fun _ _ => Iff.rfl
      refine (firstParts.trans restParts).congr (Nat.le_refl _) fun there constraint => ?_
      simp [Scene.ObservationsDeclare]

/-- What is on record is what is expected of the labels. -/
structure Faithful {Label : Type} (label : ClassId → Label) (expected : Label → Constraint → Prop)
    (record : List (ClassId × Constraint)) : Prop where
  sound : ∀ entry ∈ record, expected (label entry.1) entry.2
  recorded : ∀ there constraint, expected there constraint → Recorded label record there constraint

end Seeding

/-- The parts that an analysis adds to classes account for the conflicts about every class, and they
are what the observations declare in any scene in which the store can be found. -/
theorem Analysis.exists_record {observations : List Observation} {locationCount : Nat}
    {config : Config} {seeded : Seeding} {final : Propagation}
    (analysis : Analysis observations locationCount config seeded final) : ∃ record,
    (∀ {Good : Account → Prop}, Account.DeclaredLaw Good → final.store.Lawful Good record) ∧
      ∀ {Label : Type} {label : ClassId → Label} {scene : Scene Label}, scene.Unique →
        (Seeding.start final.store).Holds label scene →
        Seeding.Faithful label (scene.ObservationsDeclare config.pointerSize observations)
          record := by
  obtain ⟨_, _, steps⟩ := analysis.steps
  obtain ⟨parts, bound, addsParts, exactly⟩ :=
    Seeding.exists_observeAll (Seeding.wellFormed_start _) analysis.seeding
  refine ⟨parts, fun law => ?_, fun unique holds => ?_⟩
  · have closing := addsParts.trans (Propagation.addsParts_steps steps analysis.inside)
    have lawful := (Store.lawful_withLocations law.toLaw locationCount).addsParts law closing
    rwa [List.nil_append, List.append_nil] at lawful
  · have seededHolds := Seeding.holds_of_steps analysis.wellFormed steps analysis.done holds
    have expected := exactly unique seededHolds
    refine ⟨expected.sound, (expected.complete parts (List.Subset.refl parts) ?_).1⟩
    -- No typedef is bound at the start.
    intro name entry found
    cases found

end TypeRecovery
