import TypeRecovery.Proofs.AnalysisOutcome
import TypeRecovery.Proofs.StoreCorrespondence
import TypeRecovery.Proofs.TypingClasses
/-!
Which kind of type a class has, by what was observed of it. A class is void when it was hinted to be
and nothing else was. Otherwise a function comes first and a pointer second, and neither falls
through: a class that was called has a signature, and one that was dereferenced has a target. A
function that was dereferenced as well is reported.
-/
namespace TypeRecovery

namespace Evidence

theorem mem_singleton {flag other : Flag} : flag ∈ ({other} : Evidence) ↔ flag = other := by
  cases flag <;> cases other <;> decide

theorem not_mem_empty (flag : Flag) : flag ∉ (∅ : Evidence) := by
  cases flag <;> decide

theorem mem_ofFlags {flag : Flag} {flags : List Flag} : flag ∈ ofFlags flags ↔ flag ∈ flags := by
  have collected (evidence : Evidence) :
      flag ∈ flags.foldl (fun evidence flag => evidence ∪ {flag}) evidence ↔
        flag ∈ evidence ∨ flag ∈ flags := by
    induction flags generalizing evidence with
    | nil => simp
    | cons first rest ih =>
      rw [List.foldl_cons, ih, mem_union, mem_singleton, List.mem_cons, or_assoc]
  exact (collected ∅).trans (or_iff_right (not_mem_empty flag))

theorem mem_signed {flag base : Flag} {mark : Signedness → Flag} {signedness : Option Signedness}
    (apart : ∀ signedness, flag ≠ mark signedness) :
    flag ∈ ofFlags (base :: (signedness.map mark).toList) ↔ flag = base := by
  rw [mem_ofFlags, List.mem_cons, or_iff_left]
  intro member
  obtain ⟨known, _, same⟩ := Option.map_eq_some_iff.1 (Option.mem_toList.1 member)
  exact apart known same.symm

end Evidence

namespace Hint

def kind : Hint → Kind
  | void => .void
  | int .. => .primitive
  | pointer _ => .pointer
  | function .. => .function
  | named _ definition => definition.kind

theorem declaredKind_declaration (pointerSize : UInt8) (hint : Hint) :
    (hint.declaration pointerSize).declaredKind = some hint.kind := by
  induction hint using underlying.induct with
  | case1 name definition ih => exact ih
  | case2 hint unnamed => cases hint <;> first | rfl | exact absurd rfl (unnamed _ _)

theorem mem_declaration {pointerSize : UInt8} {hint : Hint} {flag : Flag}
    (apart : ∀ signedness, flag ≠ .declared signedness) :
    flag ∈ (hint.declaration pointerSize).evidence ↔
      flag = .declaredInt ∧ hint.kind = .primitive := by
  induction hint using underlying.induct with
  | case1 name definition ih => exact ih
  | case2 hint unnamed =>
    cases hint with
    | named name definition => exact absurd rfl (unnamed name definition)
    | int size signedness => exact (Evidence.mem_signed apart).trans (and_iff_left rfl).symm
    | _ =>
      refine iff_of_false (Evidence.not_mem_empty flag) ?_
      rintro ⟨_, primitive⟩
      cases primitive

end Hint

namespace Use

def callees (loc : LocId) : Use → List LocId
  | callWithArgs _ => [loc]
  | callReturns callee => [callee]
  | _ => []

def bases : Use → List LocId
  | dereference base .. => [base]
  | _ => []

def terms (loc : LocId) : Use → List LocId
  | arithmeticWith other operator => loc :: if operator.isAdditive then [] else [other]
  | _ => []

variable {here loc : LocId} {use : Use}

/-- The flags that a use contributes, apart from those for signedness, and the locations that have
them. -/
theorem exists_contribution_iff {flag : Flag} (apart : ∀ signedness, flag ≠ .observed signedness) :
    (∃ constraint, (loc, constraint) ∈ use.contributions here ∧ flag ∈ constraint.evidence) ↔
      match use with
      | .read _ => loc = here ∧ flag = .read
      | .write _ => loc = here ∧ flag = .written
      | .assignedFrom _ => loc = here ∧ flag = .assigned
      | .dereference base _ _ => loc = base ∧ flag = .dereferenced
      | .callWithArgs _ => loc = here ∧ flag = .called
      | .callReturns callee => loc = callee ∧ flag = .called ∨ loc = here ∧ flag = .callResult
      | .comparedWith _ _ => loc = here ∧ flag = .compared
      | .arithmeticWith other operator =>
        (loc = here ∨ operator.isAdditive = false ∧ loc = other) ∧ flag = .arithmetic := by
  cases use <;> simp [contributions, or_and_right, exists_or, and_assoc, Evidence.mem_singleton,
    Evidence.mem_signed apart, Evidence.not_mem_empty]

theorem mem_callees_iff : loc ∈ use.callees here ↔
    ∃ constraint, (loc, constraint) ∈ use.contributions here ∧ .called ∈ constraint.evidence := by
  rw [exists_contribution_iff (by rintro ⟨⟩ <;> decide)]
  cases use <;> simp [callees]

theorem mem_terms_iff : loc ∈ use.terms here ↔
    ∃ constraint, (loc, constraint) ∈ use.contributions here ∧
      .arithmetic ∈ constraint.evidence := by
  rw [exists_contribution_iff (by rintro ⟨⟩ <;> decide)]
  cases use <;> simp [terms]

theorem undeclared_of_contribution {constraint : Constraint}
    (listed : (loc, constraint) ∈ use.contributions here) :
    constraint.declaredKind = none ∧ .declaredInt ∉ constraint.evidence := by
  constructor
  · have bare : ∀ entry ∈ use.contributions here, entry.2.declaredKind = none := by
      cases use with
      | arithmeticWith other operator =>
        cases additive : operator.isAdditive <;> simp [contributions, additive]
      | _ => simp [contributions]
    exact bare _ listed
  · intro member
    have given := (exists_contribution_iff (by rintro ⟨⟩ <;> decide)).1 ⟨constraint, listed, member⟩
    cases use <;> simp at given

end Use

namespace Scene

variable {Label : Type} {scene : Scene Label} {pointerSize : UInt8}

theorem result_of_used {here : LocId} {use : Use} (used : scene.Used (scene.place here) use)
    {loc : LocId} (called : loc ∈ use.callees here) :
    ∃ target, scene.refers (scene.place loc) .result target := by
  cases use with
  | callWithArgs args =>
    cases List.mem_singleton.1 called
    exact used.2.1
  | callReturns callee =>
    cases List.mem_singleton.1 called
    exact ⟨_, used.2.2⟩
  | _ => cases called

theorem pointee_of_used {here : LocId} {use : Use} (used : scene.Used (scene.place here) use)
    {loc : LocId} (base : loc ∈ use.bases) :
    ∃ target, scene.refers (scene.place loc) .pointee target := by
  cases use with
  | dereference base' offset size =>
    cases List.mem_singleton.1 base
    obtain ⟨_, _, target, points, _⟩ := used
    exact ⟨target, points⟩
  | _ => cases base

theorem refers_of_declared {hint : Hint} {here : Label}
    (declared : scene.Declared pointerSize [] hint here) :
    (hint.kind = .function → ∃ target, scene.refers here .result target) ∧
      (hint.kind = .pointer → ∃ target, scene.refers here .pointee target) := by
  -- Through the names of the hint down to the type that they stand for.
  induction hint using Hint.underlying.induct with
  | case1 name definition ih =>
    rw [declared_named] at declared
    exact ih declared.2.2
  | case2 hint unnamed =>
    constructor
    · intro kind
      cases hint with
      | function name params ret =>
        simp only [Declared] at declared
        obtain ⟨_, _, _, target, returns, _⟩ := declared
        exact ⟨target, returns⟩
      | named name definition => exact absurd rfl (unnamed name definition)
      | _ => cases kind
    · intro kind
      cases hint with
      | pointer inner =>
        simp only [Declared] at declared
        obtain ⟨_, target, points, _⟩ := declared
        exact ⟨target, points⟩
      | named name definition => exact absurd rfl (unnamed name definition)
      | _ => cases kind

end Scene

namespace Store

section evidence

variable (pointerSize : UInt8) (observations : List Observation) (store : Store)

def HintedAs (kind : Kind) (cls : ClassId) : Prop :=
  ∃ hint, store.Hinted pointerSize observations hint cls ∧ hint.kind = kind

/-- A location of the class took this part in a use. -/
def TakesPart (part : LocId → Use → List LocId) (cls : ClassId) : Prop :=
  ∃ observation ∈ observations, ∃ loc ∈ part observation.location observation.use,
    store.classOf loc = cls

/-- Hints declared the class, and none of them as anything but void. -/
def OnlyVoid (cls : ClassId) : Prop :=
  (∃ kind, store.HintedAs pointerSize observations kind cls) ∧
    ∀ kind, store.HintedAs pointerSize observations kind cls → kind = .void

def Callable (cls : ClassId) : Prop :=
  store.TakesPart observations Use.callees cls ∨
    store.HintedAs pointerSize observations .function cls

def Pointing (cls : ClassId) : Prop :=
  store.TakesPart observations (fun _ => Use.bases) cls ∨
    store.HintedAs pointerSize observations .pointer cls

def Integral (cls : ClassId) : Prop :=
  store.TakesPart observations Use.terms cls ∨
    store.HintedAs pointerSize observations .primitive cls

/-- The sort of type that the evidence for a class decides on. -/
structure Decides (cls : ClassId) (type : CType) : Prop where
  void : store.OnlyVoid pointerSize observations cls → type = .void
  function : ¬ store.OnlyVoid pointerSize observations cls →
    store.Callable pointerSize observations cls → ∃ params ret, type = .function params ret
  pointer : ¬ store.OnlyVoid pointerSize observations cls →
    ¬ store.Callable pointerSize observations cls →
    store.Pointing pointerSize observations cls → ∃ target,
      (store.Integral pointerSize observations cls →
        ∃ scalar, type = .union [.primitive scalar, .pointer target]) ∧
      (¬ store.Integral pointerSize observations cls → type = .pointer target)

end evidence

variable {pointerSize : UInt8} {observations : List Observation} {store : Store}

theorem contributed_flag_iff {flag : Flag} {part : LocId → Use → List LocId}
    (marks : ∀ {here loc use}, loc ∈ part here use ↔
      ∃ constraint, (loc, constraint) ∈ use.contributions here ∧ flag ∈ constraint.evidence)
    (apart : ∀ signedness, flag ≠ .declared signedness) (other : flag ≠ .declaredInt)
    {cls : ClassId} :
    (∃ constraint, store.Contributed pointerSize observations cls constraint ∧
      flag ∈ constraint.evidence) ↔ store.TakesPart observations part cls := by
  constructor
  · rintro ⟨constraint, contributed, member⟩
    cases contributed with
    | use seen listed => exact ⟨_, seen, _, marks.2 ⟨_, listed, member⟩, rfl⟩
    | hint _ => exact absurd ((Hint.mem_declaration apart).1 member).1 other
    | name _ => exact absurd member (Evidence.not_mem_empty flag)
  · rintro ⟨observation, seen, loc, takes, rfl⟩
    obtain ⟨constraint, listed, member⟩ := marks.1 takes
    exact ⟨constraint, .use seen listed, member⟩

theorem contributed_declaredInt_iff {cls : ClassId} :
    (∃ constraint, store.Contributed pointerSize observations cls constraint ∧
      .declaredInt ∈ constraint.evidence) ↔
        store.HintedAs pointerSize observations .primitive cls := by
  have apart : ∀ signedness, Flag.declaredInt ≠ .declared signedness := by rintro ⟨⟩ <;> decide
  constructor
  · rintro ⟨constraint, contributed, member⟩
    cases contributed with
    | use _ listed => exact absurd member (Use.undeclared_of_contribution listed).2
    | hint hinted => exact ⟨_, hinted, ((Hint.mem_declaration apart).1 member).2⟩
    | name _ => exact absurd member (Evidence.not_mem_empty _)
  · rintro ⟨hint, hinted, kind⟩
    exact ⟨_, .hint hinted, (Hint.mem_declaration apart).2 ⟨rfl, kind⟩⟩

theorem contributed_kind_iff {kind : Kind} {cls : ClassId} :
    (∃ constraint, store.Contributed pointerSize observations cls constraint ∧
      constraint.Has (.kind kind)) ↔
        ∃ other, store.HintedAs pointerSize observations other cls ∧
          kind.strength ≤ other.strength := by
  constructor
  · rintro ⟨constraint, contributed, declared, known, least⟩
    cases contributed with
    | use _ listed =>
      rw [(Use.undeclared_of_contribution listed).1] at known
      cases known
    | @hint hint _ hinted =>
      rw [Hint.declaredKind_declaration] at known
      cases known
      exact ⟨hint.kind, ⟨hint, hinted, rfl⟩, least⟩
    | name _ => cases known
  · rintro ⟨_, ⟨hint, hinted, rfl⟩, least⟩
    exact ⟨_, .hint hinted, hint.kind, Hint.declaredKind_declaration pointerSize hint, least⟩

end Store

namespace Analysis

variable {observations : List Observation} {locationCount : Nat} {config : Config}
  {seeded : Seeding} {final : Propagation}
  (analysis : Analysis observations locationCount config seeded final)
  {root : ClassId} (isRoot : root ∈ final.store.roots)
include analysis

section root

include isRoot

theorem declaredKind_eq_some_iff {kind : Kind} :
    (final.store.constraint root).declaredKind = some kind ↔
      final.store.HintedAs config.pointerSize observations kind root ∧
        ∀ other, final.store.HintedAs config.pointerSize observations other root →
          other.strength ≤ kind.strength := by
  have has (kind : Kind) : (final.store.constraint root).Has (.kind kind) ↔ _ :=
    (analysis.has_iff isRoot).trans Store.contributed_kind_iff
  constructor
  · intro known
    have bounded : ∀ other, final.store.HintedAs config.pointerSize observations other root →
        other.strength ≤ kind.strength := by
      intro other hinted
      obtain ⟨declared, found, least⟩ := (has other).2 ⟨other, hinted, Nat.le_refl _⟩
      rw [known] at found
      cases found
      exact least
    obtain ⟨other, hinted, least⟩ := (has kind).1 ⟨kind, known, Nat.le_refl _⟩
    have same := Kind.eq_of_strength (Nat.le_antisymm least (bounded other hinted))
    exact ⟨same ▸ hinted, bounded⟩
  · rintro ⟨hinted, bounded⟩
    obtain ⟨declared, known, least⟩ := (has kind).2 ⟨kind, hinted, Nat.le_refl _⟩
    obtain ⟨other, hintedOther, above⟩ := (has declared).1 ⟨declared, known, Nat.le_refl _⟩
    have same := Kind.eq_of_strength
      (Nat.le_antisymm least (Nat.le_trans above (bounded other hintedOther)))
    rw [known, same]

theorem declaredKind_void_iff : (final.store.constraint root).declaredKind = some .void ↔
    final.store.OnlyVoid config.pointerSize observations root := by
  rw [analysis.declaredKind_eq_some_iff isRoot]
  constructor
  · rintro ⟨hinted, bounded⟩
    exact ⟨⟨_, hinted⟩, fun kind other =>
      Kind.eq_of_strength (Nat.le_antisymm (bounded kind other) (Nat.zero_le _))⟩
  · rintro ⟨⟨kind, hinted⟩, only⟩
    exact ⟨only kind hinted ▸ hinted, fun other hintedOther =>
      Nat.le_of_eq (congrArg Kind.strength (only other hintedOther))⟩

theorem declaredKind_function_iff : (final.store.constraint root).declaredKind = some .function ↔
    final.store.HintedAs config.pointerSize observations .function root := by
  rw [analysis.declaredKind_eq_some_iff isRoot]
  exact and_iff_left fun other _ => by cases other <;> decide

theorem called_iff : .called ∈ (final.store.constraint root).evidence ↔
    final.store.TakesPart observations Use.callees root := by
  have has : (final.store.constraint root).Has (.evidence .called) ↔ _ := analysis.has_iff isRoot
  exact has.trans
    (Store.contributed_flag_iff Use.mem_callees_iff (by rintro ⟨⟩ <;> decide) (by decide))

theorem hasIntegerUse_iff : (final.store.constraint root).evidence.hasIntegerUse = true ↔
    final.store.Integral config.pointerSize observations root := by
  have has (flag : Flag) : (final.store.constraint root).Has (.evidence flag) ↔ _ :=
    analysis.has_iff isRoot
  have computed : .arithmetic ∈ (final.store.constraint root).evidence ↔ _ :=
    (has .arithmetic).trans
      (Store.contributed_flag_iff Use.mem_terms_iff (by rintro ⟨⟩ <;> decide) (by decide))
  have declared : .declaredInt ∈ (final.store.constraint root).evidence ↔ _ :=
    (has .declaredInt).trans Store.contributed_declaredInt_iff
  unfold Evidence.hasIntegerUse Store.Integral
  rw [Bool.or_eq_true, decide_eq_true_eq, decide_eq_true_eq, computed, declared]

end root

theorem exists_signature (callable : final.store.Callable config.pointerSize observations root) :
    ∃ signature, (final.store.constraint root).signature = some signature := by
  have returns : ∃ target, final.store.model.refers root .result target := by
    rcases callable with ⟨observation, seen, loc, called, rfl⟩ | ⟨hint, hinted, kind⟩
    · exact Scene.result_of_used (analysis.observed observation seen).1 called
    · have declared := hinted.declared analysis.unique analysis.observed
      exact (Scene.refers_of_declared declared).1 kind
  obtain ⟨_, _, ⟨signature, known, _⟩, _⟩ := returns
  exact ⟨signature, known⟩

theorem exists_pointee (pointing : final.store.Pointing config.pointerSize observations root) :
    ∃ target, (final.store.constraint root).pointee = some target := by
  have points : ∃ target, final.store.model.refers root .pointee target := by
    rcases pointing with ⟨observation, seen, loc, base, rfl⟩ | ⟨hint, hinted, kind⟩
    · exact Scene.pointee_of_used (analysis.observed observation seen).1 base
    · have declared := hinted.declared analysis.unique analysis.observed
      exact (Scene.refers_of_declared declared).2 kind
  obtain ⟨_, target, known, _⟩ := points
  exact ⟨target, known⟩

include isRoot

theorem calls_iff : ((final.store.constraint root).declaredKind = some .function ∨
    .called ∈ (final.store.constraint root).evidence) ↔
      final.store.Callable config.pointerSize observations root := by
  rw [analysis.declaredKind_function_iff isRoot, analysis.called_iff isRoot, or_comm]
  exact Iff.rfl

theorem exists_calledAs (callable : final.store.Callable config.pointerSize observations root) :
    ∃ signature, (final.store.constraint root).calledAs? = some signature := by
  unfold Constraint.calledAs?
  rw [if_pos ((analysis.calls_iff isRoot).2 callable)]
  exact analysis.exists_signature callable

theorem calledAs_none (uncalled : ¬ final.store.Callable config.pointerSize observations root) :
    (final.store.constraint root).calledAs? = none :=
  if_neg (uncalled ∘ (analysis.calls_iff isRoot).1)

theorem decides (reading : Reading) : final.store.Decides config.pointerSize observations root
    (reading.type (final.store.constraint root)) where
  void only := if_pos ((analysis.declaredKind_void_iff isRoot).2 only)
  function notVoid callable := by
    obtain ⟨signature, called⟩ := analysis.exists_calledAs isRoot callable
    unfold Reading.type
    rw [if_neg (notVoid ∘ (analysis.declaredKind_void_iff isRoot).1), called]
    exact ⟨_, _, rfl⟩
  pointer notVoid uncalled pointing := by
    obtain ⟨target, known⟩ := analysis.exists_pointee pointing
    unfold Reading.type
    rw [if_neg (notVoid ∘ (analysis.declaredKind_void_iff isRoot).1),
      analysis.calledAs_none isRoot uncalled, known]
    exact ⟨reading.number target,
      fun integral => ⟨_, if_pos ((analysis.hasIntegerUse_iff isRoot).2 integral)⟩,
      fun plain => if_neg (plain ∘ (analysis.hasIntegerUse_iff isRoot).1)⟩

theorem isAmbiguous (notVoid : ¬ final.store.OnlyVoid config.pointerSize observations root)
    (callable : final.store.Callable config.pointerSize observations root)
    (pointing : final.store.Pointing config.pointerSize observations root) :
    (final.store.constraint root).isAmbiguous = true := by
  obtain ⟨signature, called⟩ := analysis.exists_calledAs isRoot callable
  obtain ⟨target, known⟩ := analysis.exists_pointee pointing
  have notVoid : (final.store.constraint root).declaredKind ≠ some .void :=
    notVoid ∘ (analysis.declaredKind_void_iff isRoot).1
  simp [Constraint.isAmbiguous, called, known, notVoid]

end Analysis

namespace Typing

variable {config : Config} {store : Store}

theorem exists_root_of_mem (inside : store.RefersInside) {typed : TypedClass}
    (member : typed ∈ (ofStore config store).classes) : ∃ root ∈ store.roots,
      typed.id = (readingOf config store).number root ∧ typed.members = store.members root ∧
      typed.type = (readingOf config store).type (store.constraint root) := by
  obtain ⟨root, listed, rfl⟩ := List.mem_map.1 (List.mem_toArray.1 member)
  exact ⟨root, (Numbering.mem_order inside).1 listed, rfl, rfl, rfl⟩

theorem mem_diagnostics_of_isAmbiguous (inside : store.RefersInside) {root : ClassId}
    (isRoot : root ∈ store.roots) (ambiguous : (store.constraint root).isAmbiguous = true) :
    Diagnostic.ambiguous ((readingOf config store).number root) ∈
      (ofStore config store).diagnostics := by
  apply Diagnostic.mem_report.2
  apply List.mem_append_right
  apply List.mem_map_of_mem
  exact List.mem_filter.2 ⟨(Numbering.mem_order inside).2 isRoot, ambiguous⟩

end Typing

/-- Evidence decides which sort of type a class has, and the function that was dereferenced is
reported. -/
theorem analyze_decides {observations : List Observation} {locationCount : Nat} {config : Config}
    {schedule : Schedule} {typing : Typing}
    (ok : analyze observations locationCount config schedule = .ok typing) :
    let store := analyzedStore observations locationCount config schedule
    typing = .ofStore config store ∧
    ∀ typed ∈ typing.classes, ∃ root ∈ store.roots,
      typed.id = (Typing.readingOf config store).number root ∧
      typed.members = store.members root ∧
      store.Decides config.pointerSize observations root typed.type ∧
      (¬ store.OnlyVoid config.pointerSize observations root →
        store.Callable config.pointerSize observations root →
        store.Pointing config.pointerSize observations root →
        ∃ diagnostic ∈ typing.diagnostics, diagnostic.code = .calledAndDereferenced ∧
          diagnostic.primarySubject? = some (.cls typed.id)) := by
  obtain ⟨seeded, final, analysis, same, rfl⟩ := analyze_ok_store ok
  intro store
  have same : store = final.store := same.symm
  rw [same]
  refine ⟨rfl, fun typed member => ?_⟩
  have inside : final.store.RefersInside := analysis.finalInside.refers
  obtain ⟨root, isRoot, id, members, type⟩ := Typing.exists_root_of_mem inside member
  refine ⟨root, isRoot, id, members, type ▸ analysis.decides isRoot _,
    fun notVoid callable pointing => ?_⟩
  have ambiguous := analysis.isAmbiguous isRoot notVoid callable pointing
  refine ⟨_, Typing.mem_diagnostics_of_isAmbiguous inside isRoot ambiguous, rfl, ?_⟩
  rw [id]
  rfl

def dispatchUses : List Observation :=
  [⟨⟨0⟩, ⟨0⟩, .callWithArgs [⟨1⟩], none⟩, ⟨⟨4⟩, ⟨2⟩, .dereference ⟨0⟩ 8 4, none⟩]

theorem analyze_decides_dispatch : ∃ typing typed,
    analyze dispatchUses 3 {} = .ok typing ∧ typed ∈ typing.classes ∧ typed.members = [⟨0⟩] ∧
      (∃ params ret, typed.type = .function params ret) ∧
      ∃ diagnostic ∈ typing.diagnostics, diagnostic.code = .calledAndDereferenced ∧
        diagnostic.primarySubject? = some (.cls typed.id) := by
  obtain ⟨typing, typed, ok, member, members⟩ : ∃ typing typed,
      analyze dispatchUses 3 {} = .ok typing ∧ typed ∈ typing.classes ∧ typed.members = [⟨0⟩] :=
    ⟨_, _, rfl, @Array.mem_of_getElem? _ _ 0 _ rfl, rfl⟩
  obtain ⟨_, all⟩ := analyze_decides ok
  obtain ⟨root, isRoot, number, same, decides, reports⟩ := all typed member
  have placed : (analyzedStore dispatchUses 3 {}).classOf ⟨0⟩ = root := by
    have listed : ⟨0⟩ ∈ (analyzedStore dispatchUses 3 {}).members root := by
      rw [← same, members]
      exact List.mem_cons_self
    rw [← (Store.mem_roots.1 isRoot).2]
    exact of_decide_eq_true (List.mem_filter.1 listed).2
  have callable : (analyzedStore dispatchUses 3 {}).Callable 8 dispatchUses root :=
    Or.inl ⟨_, List.mem_cons_self, ⟨0⟩, List.mem_cons_self, placed⟩
  have pointing : (analyzedStore dispatchUses 3 {}).Pointing 8 dispatchUses root :=
    Or.inl ⟨_, List.mem_cons_of_mem _ List.mem_cons_self, ⟨0⟩, List.mem_cons_self, placed⟩
  have unhinted (hint : Hint) (cls : ClassId) :
      ¬ (analyzedStore dispatchUses 3 {}).Hinted 8 dispatchUses hint cls := by
    intro hinted
    induction hinted with
    | observed seen hinted =>
      rcases List.mem_cons.1 seen with rfl | seen
      · cases hinted
      · cases List.mem_singleton.1 seen
        cases hinted
    | _ => assumption
  have notVoid : ¬ (analyzedStore dispatchUses 3 {}).OnlyVoid 8 dispatchUses root :=
    fun only => only.1.elim fun _ hinted => hinted.elim fun hint both => unhinted hint root both.1
  exact ⟨typing, typed, ok, member, members, decides.function notVoid callable,
    reports notVoid callable pointing⟩

end TypeRecovery
