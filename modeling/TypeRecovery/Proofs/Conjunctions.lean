import TypeRecovery.Proofs.Partition
import TypeRecovery.Proofs.StoreCorrespondence
/-!
Conjunctions of several constraints. However the constraints are grouped and ordered, all that they
say of their class alone comes out the same, and so does what they refer to, up to the equalities
that were implied on the way. For these connect whatever the constraints have in one role, and
nothing else: one of the classes found there is kept, and the others were paired with it.
-/
namespace TypeRecovery

/-- Constraints that are conjoined two by two, in some grouping and order. -/
inductive Grouping where
  | one (part : Constraint)
  | both (left right : Grouping)

namespace Grouping

def parts : Grouping → List Constraint
  | one part => [part]
  | both left right => left.parts ++ right.parts

/-- What the parts say together, with the equalities and the conflicts of all conjunctions on the
way. -/
def conjoin : Grouping → Conjunction
  | one part => ⟨part, [], []⟩
  | both left right =>
    let first := left.conjoin
    let second := right.conjoin
    let last := first.constraint.conjoin second.constraint
    ⟨last.constraint, first.implied ++ second.implied ++ last.implied,
      first.conflicts ++ second.conflicts ++ last.conflicts⟩

def total (grouping : Grouping) : Constraint := grouping.conjoin.constraint

def implied (grouping : Grouping) : List ClassPair := grouping.conjoin.implied

end Grouping

/-- Two conjunctions say the same. Of classes that the implied equalities connect they may name
different ones. -/
structure Conjunction.Agrees (a b : Conjunction) : Prop where
  evidence : a.constraint.evidence = b.constraint.evidence
  maxAccess : a.constraint.maxAccess = b.constraint.maxAccess
  extent : a.constraint.extent = b.constraint.extent
  declaredWidth : a.constraint.declaredWidth = b.constraint.declaredWidth
  declaredKind : a.constraint.declaredKind = b.constraint.declaredKind
  declaredName : a.constraint.declaredName = b.constraint.declaredName
  arity : a.constraint.arity = b.constraint.arity
  slots : (a.constraint.slots.map fun slot => (slot.offset, slot.size)).Perm
    (b.constraint.slots.map fun slot => (slot.offset, slot.size))
  connected : ∀ x y, Store.Connected a.implied x y ↔ Store.Connected b.implied x y
  /-- Pointees, slots, parameters and returns are found in the same roles. -/
  roles : ∀ role, (∃ cls, a.constraint.Refers role cls) ↔ ∃ cls, b.constraint.Refers role cls
  classes : ∀ role x y, a.constraint.Refers role x → b.constraint.Refers role y →
    Store.Connected a.implied x y

theorem Store.Connected.of_pairs {pairs others : List ClassPair}
    (given : ∀ pair ∈ pairs, Connected others pair.1 pair.2) {a b : ClassId}
    (connected : Connected pairs a b) : Connected others a b := by
  induction connected with
  | rel first second member => exact given (first, second) member
  | refl cls => exact .refl cls
  | symm _ _ _ ih => exact .symm _ _ ih
  | trans _ _ _ _ _ first second => exact .trans _ _ _ first second

theorem Store.Connected.mono {pairs more : List ClassPair} (included : pairs ⊆ more)
    {a b : ClassId} (connected : Connected pairs a b) : Connected more a b :=
  connected.of_pairs fun pair member => .rel pair.1 pair.2 (included member)

namespace Slot

theorem addAll_of_subset {slots : List Slot} (separate : Separate slots) {more : List Slot}
    (held : more ⊆ slots) : addAll slots more = (slots, []) := by
  induction more with
  | nil => rfl
  | cons slot rest ih =>
    obtain ⟨member, later⟩ := List.cons_subset.1 held
    have kept : add slots slot = (slots, none) := by
      rcases add_cases slots slot with ⟨known, found, same, added⟩ | ⟨apart, _⟩
      · rw [added, eq_of_sameField separate found member same, if_pos rfl]
      · exact absurd ⟨rfl, rfl⟩ (apart slot member)
    rw [addAll, kept, ih later]
    rfl

theorem fields_perm {a b : List Slot} (first : Separate a) (second : Separate b)
    (same : ∀ offset size, (∃ cls, ⟨offset, size, cls⟩ ∈ a) ↔ ∃ cls, ⟨offset, size, cls⟩ ∈ b) :
    (a.map fun slot => (slot.offset, slot.size)).Perm
      (b.map fun slot => (slot.offset, slot.size)) := by
  have nodup {slots : List Slot} (separate : Separate slots) :
      (slots.map fun slot => (slot.offset, slot.size)).Nodup :=
    List.pairwise_map.2 (separate.imp fun apart same => apart (Prod.mk.inj same))
  have listed {slots : List Slot} (offset : Int64) (size : UInt8) :
      (offset, size) ∈ slots.map (fun slot => (slot.offset, slot.size)) ↔
        ∃ cls, ⟨offset, size, cls⟩ ∈ slots := by
    rw [List.mem_map]
    constructor
    · rintro ⟨⟨_, _, cls⟩, member, same⟩
      cases same
      exact ⟨cls, member⟩
    · rintro ⟨cls, member⟩
      exact ⟨_, member, rfl⟩
  refine (List.perm_ext_iff_of_nodup (nodup first) (nodup second)).2 fun ⟨offset, size⟩ => ?_
  rw [listed, listed, same]

end Slot

theorem Signature.join_self (signature : Signature) : signature.join signature = signature := by
  obtain ⟨_ | params, ret⟩ := signature <;> simp [join]

theorem Signature.implied_self (signature : Signature) : signature.implied signature = [] := by
  apply List.eq_nil_iff_forall_not_mem.2
  intro pair implied
  obtain ⟨apart, role, first, second⟩ := mem_implied.1 implied
  cases role with
  | result => exact apart (first.symm.trans second)
  | param place => exact apart (Option.some.inj (first.symm.trans second))
  | pointee => exact first
  | slot offset size => exact first

namespace Constraint

variable {constraint : Constraint}

theorem join_self (separate : Slot.Separate constraint.slots) :
    constraint.join constraint = constraint := by
  have merged {Value : Type} (choose : Value → Value → Value)
      (own : ∀ value, choose value value = value) (known : Option Value) :
      known.merge choose known = known := by
    cases known with
    | none => rfl
    | some value => exact congrArg some (own value)
  have evidence : constraint.evidence ∪ constraint.evidence = constraint.evidence :=
    congrArg Evidence.mk BitVec.or_self
  have access : max constraint.maxAccess constraint.maxAccess = constraint.maxAccess := ite_self _
  have extent : max constraint.extent constraint.extent = constraint.extent := ite_self _
  have width := merged max (fun _ => ite_self _) constraint.declaredWidth
  have kind := merged max (fun _ => ite_self _) constraint.declaredKind
  have name := merged (fun a b => if b < a then b else a) (fun _ => ite_self _)
    constraint.declaredName
  have signature := merged Signature.join Signature.join_self constraint.signature
  have slots := Slot.addAll_of_subset separate (List.Subset.refl _)
  unfold join
  rw [evidence, access, extent, width, kind, name, signature, slots, Option.or_self]

theorem implied_self (separate : Slot.Separate constraint.slots) :
    constraint.implied constraint = [] := by
  unfold implied
  rw [Slot.addAll_of_subset separate (List.Subset.refl _)]
  cases constraint.pointee <;> cases constraint.signature <;>
    simp [ClassPair.distinct, Signature.implied_self]

theorem conflicts_self (constraint : Constraint) : constraint.conflicts constraint = [] := by
  unfold conflicts
  cases constraint.declaredWidth <;> cases constraint.declaredKind <;>
    cases constraint.signature.bind Signature.arity <;>
    simp [Conflict.ofWidths, Conflict.ofKinds, Conflict.ofArities, Kind.Compatible]

theorem conjoin_self (separate : Slot.Separate constraint.slots) :
    constraint.conjoin constraint = ⟨constraint, [], []⟩ := by
  rw [conjoin, join_self separate, implied_self separate, conflicts_self]

end Constraint

namespace Grouping

variable {grouping : Grouping}

theorem has_total (grouping : Grouping) (trait : Trait) :
    grouping.total.Has trait ↔ ∃ part ∈ grouping.parts, part.Has trait := by
  induction grouping with
  | one part => simp [total, conjoin, parts]
  | both left right ihLeft ihRight =>
    have joined : (both left right).total = left.total.join right.total := rfl
    rw [joined, Constraint.has_join, ihLeft, ihRight]
    simp only [parts, List.mem_append, or_and_right, exists_or]

theorem extent_total_le (grouping : Grouping) (bound : UInt64) :
    grouping.total.extent ≤ bound ↔ ∀ part ∈ grouping.parts, part.extent ≤ bound := by
  induction grouping with
  | one part => simp [total, conjoin, parts]
  | both left right ihLeft ihRight =>
    have joined : (both left right).total.extent = max left.total.extent right.total.extent := rfl
    rw [joined, le_max_extent, ihLeft, ihRight, parts, List.forall_mem_append]

theorem separate_total (separate : ∀ part ∈ grouping.parts, Slot.Separate part.slots) :
    Slot.Separate grouping.total.slots := by
  induction grouping with
  | one part => exact separate part List.mem_cons_self
  | both left right ihLeft _ =>
    exact Constraint.separate_join (ihLeft (List.forall_mem_append.1 separate).1)

theorem refers_of_total {role : Role} {cls : ClassId} (refers : grouping.total.Refers role cls) :
    ∃ part ∈ grouping.parts, part.Refers role cls := by
  induction grouping with
  | one part => exact ⟨part, List.mem_cons_self, refers⟩
  | both left right ihLeft ihRight =>
    rcases Constraint.refers_of_join refers with refers | refers
    · obtain ⟨part, member, refers⟩ := ihLeft refers
      exact ⟨part, List.mem_append_left _ member, refers⟩
    · obtain ⟨part, member, refers⟩ := ihRight refers
      exact ⟨part, List.mem_append_right _ member, refers⟩

theorem refers_total {part : Constraint} (member : part ∈ grouping.parts) {role : Role}
    {cls : ClassId} (refers : part.Refers role cls) :
    ∃ kept, grouping.total.Refers role kept ∧ Store.Connected grouping.implied kept cls := by
  induction grouping with
  | one only =>
    rw [List.mem_singleton.1 member] at refers
    exact ⟨cls, refers, .refl cls⟩
  | both left right ihLeft ihRight =>
    have implied : (both left right).implied =
      left.implied ++ right.implied ++ left.total.implied right.total := rfl
    rw [implied]
    rcases List.mem_append.1 member with member | member
    · obtain ⟨kept, refers, connected⟩ := ihLeft member
      refine ⟨kept, Constraint.refers_join_left _ refers, (connected.append _).append _⟩
    · obtain ⟨known, refers, connected⟩ := ihRight member
      obtain ⟨kept, refers, same⟩ := Constraint.refers_join_right left.total refers
      refine ⟨kept, refers, .trans _ known _ ?_ (connected.mono ?_)⟩
      · rcases same with rfl | pair
        · exact .refl _
        · exact .rel _ _ (List.mem_append_right _ pair)
      · exact List.subset_append_of_subset_left _ (List.subset_append_right _ _)

theorem refers_of_implied {pair : ClassPair} (implied : pair ∈ grouping.implied) :
    ∃ role, (∃ part ∈ grouping.parts, part.Refers role pair.1) ∧
      ∃ part ∈ grouping.parts, part.Refers role pair.2 := by
  -- A pair was implied on one of the sides, or by joining the two totals, which refer to classes of
  -- parts only.
  induction grouping with
  | one part => cases implied
  | both left right ihLeft ihRight =>
    have within {grouping whole : Grouping} (included : grouping.parts ⊆ whole.parts) {role : Role}
        {cls : ClassId} (found : ∃ part ∈ grouping.parts, part.Refers role cls) :
        ∃ part ∈ whole.parts, part.Refers role cls :=
      found.imp fun part given => ⟨included given.1, given.2⟩
    have fromLeft : left.parts ⊆ (both left right).parts := List.subset_append_left _ _
    have fromRight : right.parts ⊆ (both left right).parts := List.subset_append_right _ _
    rcases List.mem_append.1 implied with implied | implied
    · rcases List.mem_append.1 implied with implied | implied
      · obtain ⟨role, first, second⟩ := ihLeft implied
        exact ⟨role, within fromLeft first, within fromLeft second⟩
      · obtain ⟨role, first, second⟩ := ihRight implied
        exact ⟨role, within fromRight first, within fromRight second⟩
    · obtain ⟨role, first, second⟩ := Constraint.refers_of_implied implied
      refine ⟨role, ?_, within fromRight (refers_of_total second)⟩
      exact first.elim (fun refers => within fromLeft (refers_of_total refers))
        fun refers => within fromRight (refers_of_total refers)

/-- All classes that the parts have in one role are connected in the end. -/
theorem connected_of_refers (separate : ∀ part ∈ grouping.parts, Slot.Separate part.slots)
    {role : Role} {x y : ClassId} (first : ∃ part ∈ grouping.parts, part.Refers role x)
    (second : ∃ part ∈ grouping.parts, part.Refers role y) :
    Store.Connected grouping.implied x y := by
  obtain ⟨_, member, refers⟩ := first
  obtain ⟨_, member', refers'⟩ := second
  obtain ⟨kept, refers, connected⟩ := refers_total member refers
  obtain ⟨kept', refers', connected'⟩ := refers_total member' refers'
  have same : kept = kept' := Constraint.refers_unique (separate_total separate) refers refers'
  exact .trans _ _ _ (.symm _ _ connected) (same ▸ connected')

theorem exists_refers_total (grouping : Grouping) (role : Role) :
    (∃ cls, grouping.total.Refers role cls) ↔
      ∃ part ∈ grouping.parts, ∃ cls, part.Refers role cls := by
  constructor
  · rintro ⟨cls, refers⟩
    obtain ⟨part, member, refers⟩ := refers_of_total refers
    exact ⟨part, member, cls, refers⟩
  · rintro ⟨part, member, cls, refers⟩
    obtain ⟨kept, refers, _⟩ := refers_total member refers
    exact ⟨kept, refers⟩

variable {a b : Grouping}

/-- The equalities that one grouping implies are those that any other one does. -/
theorem connected_of_same (same : ∀ part, part ∈ a.parts ↔ part ∈ b.parts)
    (separate : ∀ part ∈ a.parts, Slot.Separate part.slots) {x y : ClassId}
    (connected : Store.Connected a.implied x y) : Store.Connected b.implied x y := by
  refine connected.of_pairs fun pair implied => ?_
  obtain ⟨role, first, second⟩ := refers_of_implied implied
  simp only [same] at first second separate
  exact connected_of_refers separate first second

/-- However constraints are grouped, ordered and repeated, they say the same together. And a
constraint says nothing new to itself. -/
theorem conjoin_agrees (same : ∀ part, part ∈ a.parts ↔ part ∈ b.parts)
    (separate : ∀ part ∈ a.parts, Slot.Separate part.slots) :
    a.conjoin.Agrees b.conjoin ∧
      ∀ part ∈ a.parts, part.conjoin part = ⟨part, [], []⟩ := by
  have others : ∀ part ∈ b.parts, Slot.Separate part.slots := fun part member =>
    separate part ((same part).2 member)
  have has (trait : Trait) : a.total.Has trait ↔ b.total.Has trait := by
    simp only [has_total, same]
  have roles (role : Role) :
      (∃ cls, a.total.Refers role cls) ↔ ∃ cls, b.total.Refers role cls := by
    simp only [exists_refers_total, same]
  have within (bound : UInt64) : a.total.extent ≤ bound ↔ b.total.extent ≤ bound := by
    simp only [extent_total_le, same]
  have extent : a.total.extent = b.total.extent :=
    UInt64.le_antisymm ((within _).2 (UInt64.le_refl _)) ((within _).1 (UInt64.le_refl _))
  refine ⟨?_, fun part member => Constraint.conjoin_self (separate part member)⟩
  exact {
    evidence := Constraint.evidence_eq_of_has fun flag => has (.evidence flag)
    maxAccess := Constraint.maxAccess_eq_of_has fun size => has (.access size)
    extent
    declaredWidth := Constraint.declaredWidth_eq_of_has fun size => has (.width size)
    declaredKind := Constraint.declaredKind_eq_of_has fun kind => has (.kind kind)
    declaredName := Constraint.declaredName_eq_of_has fun name => has (.named name)
    arity := Constraint.arity_eq_of_has fun count => has (.arity count)
    slots := Slot.fields_perm (separate_total separate) (separate_total others) fun offset size =>
      roles (.slot offset size)
    connected := fun x y => ⟨connected_of_same same separate,
      connected_of_same (fun part => (same part).symm) others⟩
    roles
    classes := fun role x y first second => by
      obtain ⟨part, member, refers⟩ := refers_of_total second
      exact connected_of_refers separate (refers_of_total first)
        ⟨part, (same part).2 member, refers⟩ }

/-- A pointer that is called as well. Three constraints tell of it, each with a pointee of its own
and another number of parameters. -/
def pointer : Constraint :=
  { declaredWidth := some 4, pointee := some ⟨1⟩, slots := [⟨0, 4, ⟨2⟩⟩],
    signature := some ⟨none, ⟨3⟩⟩ }

def callee : Constraint :=
  { declaredWidth := some 8, declaredName := some "handler", pointee := some ⟨4⟩,
    slots := [⟨0, 4, ⟨5⟩⟩, ⟨4, 4, ⟨1⟩⟩], signature := some ⟨some [⟨6⟩], ⟨7⟩⟩ }

def caller : Constraint :=
  { maxAccess := 4, pointee := some ⟨6⟩, slots := [⟨4, 4, ⟨2⟩⟩],
    signature := some ⟨some [⟨8⟩, ⟨9⟩], ⟨3⟩⟩ }

/-- The groupings keep different pointees, and both imply that these are one. -/
theorem conjoin_agrees_pointees :
    let forward : Grouping := .both (.both (.one pointer) (.one callee)) (.one caller)
    let backward : Grouping := .both (.one caller) (.both (.one callee) (.one pointer))
    (∀ part, part ∈ forward.parts ↔ part ∈ backward.parts) ∧
      (∀ part ∈ forward.parts, Slot.Separate part.slots) ∧
      forward.conjoin.constraint.pointee = some ⟨1⟩ ∧
      backward.conjoin.constraint.pointee = some ⟨6⟩ ∧
      forward.conjoin.implied ≠ backward.conjoin.implied ∧
      forward.conjoin.Agrees backward.conjoin ∧
      pointer.conjoin pointer = ⟨pointer, [], []⟩ := by
  intro forward backward
  have same : ∀ part, part ∈ forward.parts ↔ part ∈ backward.parts := fun part => by
    simp only [forward, backward, parts, List.mem_append, List.mem_singleton, or_comm, or_left_comm]
  have separate : ∀ part ∈ forward.parts, Slot.Separate part.slots := by
    unfold Slot.Separate
    decide
  have agrees := conjoin_agrees same separate
  exact ⟨same, separate, rfl, rfl, by decide, agrees.1, agrees.2 pointer List.mem_cons_self⟩

end Grouping
end TypeRecovery
