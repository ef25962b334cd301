import TypeRecovery.Observation
import TypeRecovery.Proofs.Model
/-!
What observations and hints mean. A scene is a model that has a label for every location and for
every typedef name. Whether an observation holds in a scene does not depend on the order in which
observations are made, nor on the classes that stand for what they tell of. The classes that seeding
makes on the way appear here as labels that have to exist.

The parts of a hint are such a scene: the values of the types that the hint is made of, and the
memory that its pointers lead to.
-/
namespace TypeRecovery

section

structure Scene (Label : Type) extends Model Label where
  place : LocId → Label
  named : String → Label

variable {Label : Type}

def Model.Shows (model : Model Label) (here : Label) (constraint : Constraint) : Prop :=
  ∀ trait, constraint.Has trait → model.has here trait

namespace Constraint

variable {label : ClassId → Label} {model : Model Label} {here : Label} {constraint : Constraint}

theorem holds_iff : constraint.Holds label model here ↔ model.Shows here constraint ∧
    ∀ role cls, constraint.Refers role cls → model.refers here role (label cls) :=
  ⟨fun holds => ⟨holds.has, holds.refers⟩, fun both => ⟨both.1, both.2⟩⟩

theorem Holds.congr {other : ClassId → Label}
    (same : ∀ role cls, constraint.Refers role cls → other cls = label cls)
    (holds : constraint.Holds label model here) : constraint.Holds other model here where
  has := holds.has
  refers role cls refers := by
    rw [same role cls refers]
    exact holds.refers role cls refers

end Constraint

namespace Constraint

theorem not_has_empty (trait : Trait) : ¬ ({} : Constraint).Has trait := by
  intro has
  cases trait with
  | evidence flag => cases flag <;> cases has
  | access size =>
    have both : 0 < size ∧ size ≤ 0 := has
    exact absurd (UInt8.lt_of_lt_of_le both.1 both.2) (UInt8.lt_irrefl 0)
  | _ => simp [Has, arity] at has

theorem not_refers_empty (role : Role) (cls : ClassId) : ¬ ({} : Constraint).Refers role cls :=
  not_refers_of_none rfl rfl rfl role cls

theorem holds_empty {label : ClassId → Label} {model : Model Label} {here : Label} :
    ({} : Constraint).Holds label model here :=
  ⟨fun trait has => absurd has (not_has_empty trait),
    fun role cls refers => absurd refers (not_refers_empty role cls)⟩

end Constraint

namespace Scene

variable (scene : Scene Label) (pointerSize : UInt8) (lost : List String)

mutual
/-- What a hint says of the label it is declared for, as far as the definitions of typedefs are not
lost. -/
def Declared : Hint → Label → Prop
  | .void, here => scene.Shows here { declaredKind := some .void }
  | .int size signedness, here => scene.Shows here {
      evidence := .ofFlags (.declaredInt :: (signedness.map Flag.declared).toList)
      declaredKind := some .primitive
      declaredWidth := some size }
  | .pointer inner, here =>
    scene.Shows here { declaredKind := some .pointer, declaredWidth := some pointerSize } ∧
      ∃ target, scene.refers here .pointee target ∧
        match inner.size pointerSize with
        | some size => ∃ value, scene.refers target (.slot 0 size) value ∧ Declared inner value
        | none => Declared inner target
  | .function _ params ret, here =>
    scene.Shows here { declaredKind := some .function } ∧
      (∀ count ≤ params.length, scene.has here (.arity count)) ∧
      (∃ targets : List Label, DeclaredAll params targets ∧ ∀ place target,
        targets[place]? = some target → scene.refers here (.param place) target) ∧
      ∃ result, scene.refers here .result result ∧ Declared ret result
  | .named name definition, here =>
    here = scene.named name ∧
      (name ∉ lost → scene.Shows here { declaredName := some name } ∧ Declared definition here)

def DeclaredAll : List Hint → List Label → Prop
  | [], targets => targets = []
  | hint :: rest, targets => ∃ target others, targets = target :: others ∧
      Declared hint target ∧ DeclaredAll rest others
end

theorem declared_named {scene : Scene Label} {pointerSize : UInt8} {name : String}
    {definition : Hint} {here : Label} :
    scene.Declared pointerSize [] (.named name definition) here ↔ here = scene.named name ∧
      scene.Shows here { declaredName := some name } ∧
        scene.Declared pointerSize [] definition here := by
  simp only [Declared, List.not_mem_nil, not_false_eq_true, forall_const]

theorem declared_underlying {scene : Scene Label} {pointerSize : UInt8} {hint : Hint} {here : Label}
    (declared : scene.Declared pointerSize [] hint here) :
    scene.Declared pointerSize [] hint.underlying here := by
  induction hint using Hint.underlying.induct with
  | case1 name definition ih =>
    rw [declared_named] at declared
    exact ih declared.2.2
  | case2 hint unnamed =>
    cases hint with
    | named name definition => exact absurd rfl (unnamed name definition)
    | _ => exact declared

theorem length_of_declaredAll {scene : Scene Label} {pointerSize : UInt8} {lost : List String}
    {hints : List Hint} {targets : List Label}
    (declared : scene.DeclaredAll pointerSize lost hints targets) :
    targets.length = hints.length := by
  induction hints generalizing targets with
  | nil =>
    simp only [DeclaredAll] at declared
    rw [declared]
    rfl
  | cons hint rest ih =>
    simp only [DeclaredAll] at declared
    obtain ⟨target, others, rfl, _, all⟩ := declared
    exact congrArg Nat.succ (ih all)

/-- The class of a typedef has its name and its definition, unless that was lost. -/
def Defined (name : String) (definition : Hint) : Prop :=
  name ∉ lost → scene.Shows (scene.named name) { declaredName := some name } ∧
    scene.Declared pointerSize lost definition (scene.named name)

/-- What a use says of the label it is made of. -/
def Used (here : Label) : Use → Prop
  | .read size => scene.Shows here { evidence := {.read}, maxAccess := size }
  | .write size => scene.Shows here { evidence := {.written}, maxAccess := size }
  | .assignedFrom source =>
    scene.Shows here { evidence := {.assigned} } ∧ here = scene.place source
  | .dereference base offset size =>
    scene.Shows (scene.place base) { evidence := {.dereferenced} } ∧
      scene.Shows here { maxAccess := size } ∧
      ∃ target, scene.refers (scene.place base) .pointee target ∧
        scene.refers target (.slot offset size) here
  | .callWithArgs args =>
    scene.Shows here { evidence := {.called} } ∧
      (∃ result, scene.refers here .result result) ∧
      (∀ count ≤ args.length, scene.has here (.arity count)) ∧
      ∀ place arg, args[place]? = some arg → scene.refers here (.param place) (scene.place arg)
  | .callReturns callee =>
    scene.Shows (scene.place callee) { evidence := {.called} } ∧
      scene.Shows here { evidence := {.callResult} } ∧
      scene.refers (scene.place callee) .result here
  | .comparedWith other signedness =>
    scene.Shows here { evidence := .ofFlags (.compared :: (signedness.map Flag.observed).toList) } ∧
      here = scene.place other
  | .arithmeticWith other operator =>
    let evidence := Evidence.ofFlags (.arithmetic :: (operator.signedness.map Flag.observed).toList)
    scene.Shows here { evidence } ∧
      (operator.isAdditive = false → scene.Shows (scene.place other) { evidence })

def Observed (observation : Observation) : Prop :=
  scene.Used (scene.place observation.location) observation.use ∧
    ∀ hint, observation.hint = some hint →
      scene.Declared pointerSize lost hint (scene.place observation.location)

end Scene

end

namespace Hint

mutual
def typedefs : Hint → List (String × Hint)
  | void | int .. => []
  | pointer target => target.typedefs
  | function _ params ret => typedefsOfAll params ++ ret.typedefs
  | named name definition => (name, definition) :: definition.typedefs

def typedefsOfAll : List Hint → List (String × Hint)
  | [] => []
  | hint :: rest => hint.typedefs ++ typedefsOfAll rest
end

def Consistent (hint : Hint) : Prop :=
  ∀ use ∈ hint.typedefs, ∀ other ∈ hint.typedefs, use.1 = other.1 → use.2 = other.2

instance (hint : Hint) : Decidable hint.Consistent := inferInstanceAs (Decidable (∀ _ ∈ _, _))

/-- What a hint says of its class alone, apart from the names. The classes in the signature tell its
length only. -/
def declaration (pointerSize : UInt8) : Hint → Constraint
  | void => { declaredKind := some .void }
  | int size signedness => {
      evidence := .ofFlags (.declaredInt :: (signedness.map Flag.declared).toList)
      declaredKind := some .primitive
      declaredWidth := some size }
  | pointer _ => { declaredKind := some .pointer, declaredWidth := some pointerSize }
  | function _ params _ => {
      declaredKind := some .function
      signature := some ⟨some (params.map fun _ => .absent), .absent⟩ }
  | named _ definition => definition.declaration pointerSize

theorem size_underlying (pointerSize : UInt8) (hint : Hint) :
    hint.underlying.size pointerSize = hint.size pointerSize := by
  induction hint using underlying.induct with
  | case1 name definition ih => exact ih
  | case2 hint unnamed => cases hint <;> first | rfl | exact absurd rfl (unnamed _ _)

theorem declaration_underlying (pointerSize : UInt8) (hint : Hint) :
    hint.underlying.declaration pointerSize = hint.declaration pointerSize := by
  induction hint using underlying.induct with
  | case1 name definition ih => exact ih
  | case2 hint unnamed => cases hint <;> first | rfl | exact absurd rfl (unnamed _ _)

end Hint

theorem Scene.shows_declaration {Label : Type} {scene : Scene Label} {pointerSize : UInt8}
    {hint : Hint} {here : Label} (declared : scene.Declared pointerSize [] hint here) :
    scene.Shows here (hint.declaration pointerSize) := by
  induction hint using Hint.underlying.induct with
  | case1 name definition ih =>
    rw [declared_named] at declared
    exact ih declared.2.2
  | case2 hint unnamed =>
    cases hint with
    | named name definition => exact absurd rfl (unnamed name definition)
    | function name params ret =>
      simp only [Declared] at declared
      obtain ⟨kind, arity, _⟩ := declared
      intro trait has
      cases trait with
      | arity count =>
        obtain ⟨known, found, least⟩ := has
        have length : params.length = known := by
          simpa [Hint.declaration, Constraint.arity, Signature.arity] using found
        exact arity count (length ▸ least)
      | _ => exact kind _ has
    | pointer inner =>
      simp only [Declared] at declared
      exact declared.1
    | _ =>
      simp only [Declared] at declared
      exact declared

/-- Of no account for the type of a class that was declared. -/
def Trait.Incidental : Trait → Prop
  | .evidence flag => flag = .read
  | .access _ | .named _ => True
  | .width _ | .kind _ | .arity _ => False

/-- What the classes for a hint stand for: the values of a type, or the memory where a pointer to
the type leads. -/
inductive Part where
  | value (hint : Hint)
  | memory (hint : Hint)

namespace Part

def ofHint (hint : Hint) : Part := .value hint.underlying

inductive Refers (pointerSize : UInt8) : Part → Role → Part → Prop where
  | memory {inner : Hint} {size : UInt8} : inner.size pointerSize = some size →
      Refers pointerSize (.value (.pointer inner)) .pointee (.memory inner.underlying)
  | pointee {inner : Hint} : inner.size pointerSize = none →
      Refers pointerSize (.value (.pointer inner)) .pointee (ofHint inner)
  | slot {hint : Hint} {size : UInt8} : hint.size pointerSize = some size →
      Refers pointerSize (.memory hint) (.slot 0 size) (.value hint)
  | param {name : Option String} {params : List Hint} {ret : Hint} {place : Nat} {param : Hint} :
      params[place]? = some param →
      Refers pointerSize (.value (.function name params ret)) (.param place) (ofHint param)
  | result {name : Option String} {params : List Hint} {ret : Hint} :
      Refers pointerSize (.value (.function name params ret)) .result (ofHint ret)

/-- Values have what was declared of their type, and memory has nothing but its one slot. -/
def scene (pointerSize : UInt8) (place : Part) (named : String → Part) : Scene Part where
  has here trait := match here with
    | .value hint => (hint.declaration pointerSize).Has trait ∨ trait.Incidental
    | .memory _ => False
  refers := Refers pointerSize
  place _ := place
  named := named

variable {pointerSize : UInt8} {place : Part} {named : String → Part}

theorem scene_unique : (scene pointerSize place named).Unique := by
  intro here role target other first second
  cases first with
  | memory sized =>
    cases second with
    | memory _ => rfl
    | pointee unsized => cases sized.symm.trans unsized
  | pointee unsized =>
    cases second with
    | memory sized => cases sized.symm.trans unsized
    | pointee _ => rfl
  | slot _ => cases second; rfl
  | param found =>
    cases second with
    | param found' => cases found.symm.trans found'; rfl
  | result => cases second; rfl

theorem refers_pointer {inner : Hint} {role : Role} {target : Part}
    (refers : Refers pointerSize (ofHint (.pointer inner)) role target) :
    target = match inner.size pointerSize with
      | some _ => .memory inner.underlying
      | none => ofHint inner := by
  cases refers with
  | memory sized => rw [sized]
  | pointee unsized => rw [unsized]

theorem refers_memory {hint : Hint} {role : Role} {target : Part}
    (refers : Refers pointerSize (.memory hint) role target) : ∃ size,
      hint.size pointerSize = some size ∧ role = .slot 0 size ∧ target = .value hint := by
  cases refers with
  | slot sized => exact ⟨_, sized, rfl, rfl⟩

theorem refers_param {name : Option String} {params : List Hint} {ret : Hint} {place : Nat}
    {target : Part} (refers : Refers pointerSize (ofHint (.function name params ret))
      (.param place) target) : params[place]?.map ofHint = some target := by
  cases refers with
  | param found => rw [found]; rfl

theorem refers_result {name : Option String} {params : List Hint} {ret : Hint} {target : Part}
    (refers : Refers pointerSize (ofHint (.function name params ret)) .result target) :
    target = ofHint ret := by
  cases refers with
  | result => rfl

theorem shows_incidental {hint : Hint} {constraint : Constraint}
    (incidental : ∀ trait, constraint.Has trait → trait.Incidental) :
    (scene pointerSize place named).Shows (.value hint) constraint :=
  fun trait has => Or.inr (incidental trait has)

theorem used_read (hint : Hint) (size : UInt8) :
    (scene pointerSize place named).Used (.value hint) (.read size) := by
  simp only [Scene.Used]
  apply shows_incidental
  intro trait has
  cases trait with
  | evidence flag =>
    have only : ∀ flag, flag ∈ ({.read} : Evidence) → flag = .read := by
      intro flag
      cases flag <;> decide
    exact only flag has
  | access _ => trivial
  | named _ => trivial
  | width _ => simp [Constraint.Has] at has
  | kind _ => simp [Constraint.Has] at has
  | arity _ => simp [Constraint.Has, Constraint.arity] at has

mutual
theorem declared (hint : Hint) (meaning : ∀ use ∈ hint.typedefs, named use.1 = ofHint use.2) :
    (scene pointerSize place named).Declared pointerSize [] hint (ofHint hint) := by
  match hint with
  | .void =>
    simp only [Scene.Declared]
    exact fun trait has => Or.inl has
  | .int size signedness =>
    simp only [Scene.Declared]
    exact fun trait has => Or.inl has
  | .pointer inner =>
    have value := declared inner meaning
    simp only [Scene.Declared]
    refine ⟨fun trait has => Or.inl has, ?_⟩
    cases size : inner.size pointerSize with
    | some bytes =>
      have sized : inner.underlying.size pointerSize = some bytes := by
        rw [Hint.size_underlying, size]
      exact ⟨_, .memory size, _, .slot sized, value⟩
    | none => exact ⟨_, .pointee size, value⟩
  | .function name params ret =>
    have paramUses := fun use member => meaning use (List.mem_append_left _ member)
    have retUses := fun use member => meaning use (List.mem_append_right _ member)
    have parts := declaredAll params paramUses
    have result := declared ret retUses
    simp only [Scene.Declared]
    refine ⟨fun trait has => Or.inl ?_, fun count least => Or.inl ?_, ⟨_, parts, ?_⟩, _,
      .result, result⟩
    · cases trait with
      | arity count => simp [Constraint.Has, Constraint.arity] at has
      | _ => exact has
    · exact ⟨params.length, by simp [Constraint.arity, Hint.underlying, Hint.declaration,
        Signature.arity], least⟩
    · intro place target found
      rw [List.getElem?_map, Option.map_eq_some_iff] at found
      obtain ⟨param, found, rfl⟩ := found
      exact .param found
  | .named name definition =>
    have value := declared definition fun use member => meaning use (List.mem_cons_of_mem _ member)
    rw [Scene.declared_named]
    refine ⟨(meaning _ List.mem_cons_self).symm, shows_incidental fun trait has => ?_, value⟩
    cases trait with
    | named _ => trivial
    | access _ => trivial
    | evidence flag => exact absurd has (Constraint.not_has_empty (.evidence flag))
    | _ => simp [Constraint.Has, Constraint.arity] at has

theorem declaredAll (hints : List Hint)
    (meaning : ∀ use ∈ Hint.typedefsOfAll hints, named use.1 = ofHint use.2) :
    (scene pointerSize place named).DeclaredAll pointerSize [] hints (hints.map ofHint) := by
  match hints with
  | [] => simp [Scene.DeclaredAll]
  | hint :: rest =>
    have first := declared hint fun use member => meaning use (List.mem_append_left _ member)
    have others := declaredAll rest fun use member => meaning use (List.mem_append_right _ member)
    simp only [Scene.DeclaredAll]
    exact ⟨_, _, rfl, first, others⟩
end

end Part

def Hint.meaning (hint : Hint) (name : String) : Part :=
  match hint.typedefs.find? fun use => use.1 = name with
  | some use => .ofHint use.2
  | none => .ofHint hint

theorem Hint.meaning_of_use {hint : Hint} (consistent : hint.Consistent) :
    ∀ use ∈ hint.typedefs, hint.meaning use.1 = .ofHint use.2 := by
  intro use member
  unfold meaning
  cases found : hint.typedefs.find? fun other => other.1 = use.1 with
  | none => simpa using List.find?_eq_none.1 found use member
  | some other =>
    have same : other.1 = use.1 := by simpa using List.find?_some found
    exact congrArg Part.ofHint (consistent other (List.mem_of_find?_eq_some found) use member same)

end TypeRecovery
