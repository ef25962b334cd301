import TypeRecovery.Constraint
import TypeRecovery.Proofs.SlotLists
/-!
Models of constraints. A constraint says two sorts of things about its class: traits, which are
bits of evidence about the class alone, and references, which lead to other classes by the role
they play. A model says the same of labels, and a constraint holds at a label when the model has
all that the constraint says, with classes read as their labels.

Joining two constraints keeps the traits of both. Of two references in one role the first is kept
and the two classes are implied to be equal, so both constraints hold wherever the joined one and
the implied equalities do.
-/
namespace TypeRecovery

/-- What one class is to another that refers to it. -/
inductive Role where
  | pointee
  | slot (offset : Int64) (size : UInt8)
  | result
  | param (place : Nat)
deriving DecidableEq

/-- A statement about a class alone. A joined constraint has the traits that either side has. -/
inductive Trait where
  | evidence (flag : Flag)
  | access (size : UInt8)
  | width (size : UInt8)
  | kind (kind : Kind)
  /-- Named, by this name or one before it in the alphabet. -/
  | named (name : String)
  /-- So many parameters are known, or more. -/
  | arity (count : Nat)

namespace Signature

def Refers (signature : Signature) : Role → ClassId → Prop
  | .result, cls => signature.ret = cls
  | .param place, cls => (signature.params.getD [])[place]? = some cls
  | _, _ => False

end Signature

namespace Constraint

def Refers (constraint : Constraint) (role : Role) (cls : ClassId) : Prop :=
  match role with
  | .pointee => constraint.pointee = some cls
  | .slot offset size => ⟨offset, size, cls⟩ ∈ constraint.slots
  | role => ∃ signature, constraint.signature = some signature ∧ signature.Refers role cls

theorem not_refers_of_none {constraint : Constraint} (pointee : constraint.pointee = none)
    (slots : constraint.slots = []) (signature : constraint.signature = none) (role : Role)
    (cls : ClassId) : ¬ constraint.Refers role cls := by
  cases role <;> simp [Refers, pointee, slots, signature]

def arity (constraint : Constraint) : Option Nat := constraint.signature.bind Signature.arity

def Has (constraint : Constraint) : Trait → Prop
  | .evidence flag => flag ∈ constraint.evidence
  | .access size => 0 < size ∧ size ≤ constraint.maxAccess
  | .width size => ∃ declared, constraint.declaredWidth = some declared ∧ size ≤ declared
  | .kind kind =>
    ∃ declared, constraint.declaredKind = some declared ∧ kind.strength ≤ declared.strength
  | .named name => ∃ declared, constraint.declaredName = some declared ∧ declared ≤ name
  | .arity count => ∃ known, constraint.arity = some known ∧ count ≤ known

end Constraint

theorem exists_merge {Value : Type} {good : Value → Prop} {choose : Value → Value → Value}
    (splits : ∀ a b, good (choose a b) ↔ good a ∨ good b) (a b : Option Value) :
    (∃ value, a.merge choose b = some value ∧ good value) ↔
      (∃ value, a = some value ∧ good value) ∨ ∃ value, b = some value ∧ good value := by
  cases a <;> cases b <;> simp [splits]

theorem Evidence.mem_union {flag : Flag} {a b : Evidence} :
    flag ∈ a ∪ b ↔ flag ∈ a ∨ flag ∈ b := by
  show (a.bits ||| b.bits).getLsbD flag.bit = true ↔ _
  rw [BitVec.getLsbD_or, Bool.or_eq_true]
  rfl

theorem le_max_width (size a b : UInt8) : size ≤ max a b ↔ size ≤ a ∨ size ≤ b := by
  show size ≤ (if a ≤ b then b else a) ↔ _
  split <;> simp only [UInt8.le_iff_toNat_le] at * <;> omega

theorem Kind.strength_max (a b : Kind) : (max a b).strength = max a.strength b.strength := by
  cases a <;> cases b <;> rfl

namespace Constraint

theorem arity_join (a b : Constraint) : (a.join b).arity = a.arity.merge max b.arity := by
  rcases a with ⟨_, _, _, _, _, _, _, a, _⟩
  rcases b with ⟨_, _, _, _, _, _, _, b, _⟩
  rcases a with _ | ⟨_ | known, _⟩ <;> rcases b with _ | ⟨_ | other, _⟩ <;>
    simp [arity, join, Signature.join, Signature.arity]
  omega

theorem has_join (a b : Constraint) (trait : Trait) :
    (a.join b).Has trait ↔ a.Has trait ∨ b.Has trait := by
  cases trait with
  | evidence flag => exact Evidence.mem_union
  | access size =>
    simp only [Has, ← and_or_left]
    exact and_congr_right fun _ => le_max_width size a.maxAccess b.maxAccess
  | width size => exact exists_merge (le_max_width size) _ _
  | kind kind => exact exists_merge (fun a b => by rw [Kind.strength_max]; omega) _ _
  | named name =>
    refine exists_merge (fun a b => ?_) _ _
    by_cases later : b < a
    · simp only [later, if_true]
      exact ⟨Or.inr, fun either => either.elim
        (fun least => String.le_trans (String.not_lt.1 (String.lt_asymm later)) least) id⟩
    · simp only [later, if_false]
      exact ⟨Or.inl, fun either => either.elim id
        (fun least => String.le_trans (String.not_lt.1 later) least)⟩
  | arity count =>
    simp only [Has, arity_join]
    exact exists_merge (fun a b => by omega) _ _

end Constraint

theorem ClassPair.mem_distinct {a b : ClassId} {pair : ClassPair} :
    pair ∈ distinct a b ↔ a ≠ b ∧ pair = (a, b) := by
  unfold distinct
  split <;> simp [*]

namespace Signature

theorem params_join (a b : Signature) (place : Nat) :
    ((a.join b).params.getD [])[place]? =
      ((a.params.getD [])[place]?).or ((b.params.getD [])[place]?) := by
  rcases a with ⟨_ | known, ret⟩ <;> rcases b with ⟨_ | other, ret'⟩ <;> simp [join]
  by_cases inside : place < known.length
  · simp [List.getElem?_append, inside]
  · have reached : known.length + (place - known.length) = place := by omega
    simp [List.getElem?_append, inside, reached]

theorem refers_of_join {a b : Signature} {role : Role} {cls : ClassId}
    (refers : (a.join b).Refers role cls) : a.Refers role cls ∨ b.Refers role cls := by
  cases role with
  | result => exact Or.inl refers
  | param place =>
    simp only [Refers, params_join, Option.or_eq_some_iff] at refers
    exact refers.imp_right And.right
  | pointee => exact Or.inl refers
  | slot offset size => exact Or.inl refers

theorem refers_join_left {a : Signature} (b : Signature) {role : Role} {cls : ClassId}
    (refers : a.Refers role cls) : (a.join b).Refers role cls := by
  cases role with
  | param place =>
    simp only [Refers] at refers
    simp only [Refers, params_join, refers, Option.some_or]
  | _ => exact refers

theorem mem_implied {a b : Signature} {pair : ClassPair} :
    pair ∈ a.implied b ↔
      pair.1 ≠ pair.2 ∧ ∃ role, a.Refers role pair.1 ∧ b.Refers role pair.2 := by
  rcases pair with ⟨first, second⟩
  simp only [implied, List.mem_append, List.mem_flatMap, ClassPair.mem_distinct, Prod.mk.injEq]
  constructor
  · rintro (⟨apart, rfl, rfl⟩ | ⟨⟨known, other⟩, member, apart, rfl, rfl⟩)
    · exact ⟨apart, .result, rfl, rfl⟩
    · rcases List.mem_iff_getElem?.1 member with ⟨place, found⟩
      exact ⟨apart, .param place, (List.getElem?_zip_eq_some.1 found)⟩
  · rintro ⟨apart, role, left, right⟩
    cases role with
    | result => exact Or.inl ⟨by rw [left, right]; exact apart, left.symm, right.symm⟩
    | param place =>
      refine Or.inr ⟨(first, second), List.mem_iff_getElem?.2 ⟨place, ?_⟩, apart, rfl, rfl⟩
      exact List.getElem?_zip_eq_some.2 ⟨left, right⟩
    | pointee => exact left.elim
    | slot offset size => exact left.elim

theorem refers_join_right (a : Signature) {b : Signature} {role : Role} {cls : ClassId}
    (refers : b.Refers role cls) :
    ∃ kept, (a.join b).Refers role kept ∧ (kept = cls ∨ (kept, cls) ∈ a.implied b) := by
  have settled {kept : ClassId} (known : a.Refers role kept) :
      kept = cls ∨ (kept, cls) ∈ a.implied b := by
    by_cases same : kept = cls
    · exact Or.inl same
    · exact Or.inr (mem_implied.2 ⟨same, role, known, refers⟩)
  cases role with
  | result => exact ⟨a.ret, rfl, settled rfl⟩
  | param place =>
    cases known : (a.params.getD [])[place]? with
    | none => exact ⟨cls, by simpa only [Refers, params_join, known, Option.none_or], Or.inl rfl⟩
    | some kept => exact ⟨kept, refers_join_left b known, settled known⟩
  | pointee => exact refers.elim
  | slot offset size => exact refers.elim

end Signature

namespace Constraint

-- The references of a joined constraint come from either side. Those of the first side are all
-- there, and so are those of the second, if not with the same class then with one implied equal.
theorem refers_of_join {a b : Constraint} {role : Role} {cls : ClassId}
    (refers : (a.join b).Refers role cls) : a.Refers role cls ∨ b.Refers role cls := by
  have signatures (refers : ∃ signature, a.signature.merge Signature.join b.signature =
      some signature ∧ signature.Refers role cls) :
      (∃ signature, a.signature = some signature ∧ signature.Refers role cls) ∨
        ∃ signature, b.signature = some signature ∧ signature.Refers role cls := by
    rcases refers with ⟨joined, found, refers⟩
    cases left : a.signature with
    | none => exact Or.inr ⟨joined, by simpa [left] using found, refers⟩
    | some known =>
      cases right : b.signature with
      | none => exact Or.inl ⟨joined, by simpa [left, right] using found, refers⟩
      | some other =>
        simp only [left, right, Option.merge_some_some, Option.some.injEq] at found
        subst found
        exact (Signature.refers_of_join refers).imp (fun held => ⟨known, rfl, held⟩)
          fun held => ⟨other, rfl, held⟩
  cases role with
  | pointee =>
    simp only [Refers, join, Option.or_eq_some_iff] at refers ⊢
    exact refers.imp_right And.right
  | slot offset size => exact Slot.mem_addAll refers
  | result => exact signatures refers
  | param place => exact signatures refers

theorem refers_join_left {a : Constraint} (b : Constraint) {role : Role} {cls : ClassId}
    (refers : a.Refers role cls) : (a.join b).Refers role cls := by
  have signatures (refers : ∃ signature, a.signature = some signature ∧
      signature.Refers role cls) :
      ∃ signature, a.signature.merge Signature.join b.signature = some signature ∧
        signature.Refers role cls := by
    rcases refers with ⟨known, found, refers⟩
    cases right : b.signature with
    | none => exact ⟨known, by simp [found], refers⟩
    | some other =>
      exact ⟨known.join other, by simp [found], Signature.refers_join_left other refers⟩
  cases role with
  | pointee =>
    simp only [Refers] at refers
    simp [Refers, join, refers]
  | slot offset size => exact Slot.addAll_keeps b.slots refers
  | result => exact signatures refers
  | param place => exact signatures refers

theorem refers_join_right (a : Constraint) {b : Constraint} {role : Role} {cls : ClassId}
    (refers : b.Refers role cls) :
    ∃ kept, (a.join b).Refers role kept ∧ (kept = cls ∨ (kept, cls) ∈ a.implied b) := by
  have signatures (refers : ∃ signature, b.signature = some signature ∧
      signature.Refers role cls) :
      ∃ kept, (∃ signature, a.signature.merge Signature.join b.signature = some signature ∧
        signature.Refers role kept) ∧ (kept = cls ∨ (kept, cls) ∈ a.implied b) := by
    rcases refers with ⟨other, found, refers⟩
    cases left : a.signature with
    | none => exact ⟨cls, ⟨other, by simp [found], refers⟩, Or.inl rfl⟩
    | some known =>
      rcases Signature.refers_join_right known refers with ⟨kept, held, same⟩
      refine ⟨kept, ⟨known.join other, by simp [found], held⟩, same.imp_right fun pair => ?_⟩
      simp only [implied, left, found, List.mem_append]
      exact Or.inr pair
  cases role with
  | pointee =>
    simp only [Refers] at refers
    cases left : a.pointee with
    | none => exact ⟨cls, by simp [Refers, join, left, refers], Or.inl rfl⟩
    | some kept =>
      refine ⟨kept, by simp [Refers, join, left], ?_⟩
      by_cases same : kept = cls
      · exact Or.inl same
      · simp [implied, left, refers, ClassPair.mem_distinct, same]
  | slot offset size =>
    rcases @Slot.addAll_represents a.slots _ _ refers with ⟨held, present, same, paired⟩
    rcases held with ⟨_, _, kept⟩
    rcases same with ⟨rfl, rfl⟩
    refine ⟨kept, present, paired.imp_right fun pair => ?_⟩
    simp only [implied, List.mem_append]
    exact Or.inl (Or.inr pair)
  | result => exact signatures refers
  | param place => exact signatures refers

theorem refers_of_implied {a b : Constraint} {pair : ClassPair} (implied : pair ∈ a.implied b) :
    ∃ role, (a.Refers role pair.1 ∨ b.Refers role pair.1) ∧ b.Refers role pair.2 := by
  -- By the place where the two constraints met: pointees, slots, or signatures.
  simp only [Constraint.implied, List.mem_append] at implied
  rcases implied with (pointees | slots) | signatures
  · cases left : a.pointee <;> cases right : b.pointee <;> simp only [left, right] at pointees
    · cases pointees
    · cases pointees
    · cases pointees
    · rcases (ClassPair.mem_distinct.1 pointees).2 with rfl
      exact ⟨.pointee, Or.inl left, right⟩
  · rcases Slot.addAll_pair slots with ⟨known, member, slot, added, ⟨offset, size⟩, rfl⟩
    rcases known with ⟨_, _, kept⟩
    rcases slot with ⟨_, _, cls⟩
    cases offset
    cases size
    exact ⟨.slot _ _, member, added⟩
  · cases left : a.signature <;> cases right : b.signature <;>
      simp only [left, right] at signatures
    · cases signatures
    · cases signatures
    · cases signatures
    · rcases (Signature.mem_implied.1 signatures).2 with ⟨role, known, other⟩
      cases role with
      | result => exact ⟨.result, Or.inl ⟨_, left, known⟩, ⟨_, right, other⟩⟩
      | param place => exact ⟨.param place, Or.inl ⟨_, left, known⟩, ⟨_, right, other⟩⟩
      | pointee => exact known.elim
      | slot offset size => exact known.elim

end Constraint

structure Model (Label : Type) where
  has : Label → Trait → Prop
  refers : Label → Role → Label → Prop

/-- One label plays a role for another. -/
def Model.Unique {Label : Type} (model : Model Label) : Prop :=
  ∀ {here role target other}, model.refers here role target → model.refers here role other →
    target = other

def Agree {Label : Type} (label : ClassId → Label) (pairs : List ClassPair) : Prop :=
  ∀ pair ∈ pairs, label pair.1 = label pair.2

variable {Label : Type} {label : ClassId → Label} {model : Model Label} {here : Label}

theorem agree_append {first second : List ClassPair} :
    Agree label (first ++ second) ↔ Agree label first ∧ Agree label second :=
  List.forall_mem_append

namespace Constraint

structure Holds (label : ClassId → Label) (model : Model Label) (here : Label)
    (constraint : Constraint) : Prop where
  has : ∀ trait, constraint.Has trait → model.has here trait
  refers : ∀ role cls, constraint.Refers role cls → model.refers here role (label cls)

theorem holds_left_of_join {a b : Constraint} (holds : (a.join b).Holds label model here) :
    a.Holds label model here where
  has trait given := holds.has trait ((has_join a b trait).2 (Or.inl given))
  refers _ _ refers := holds.refers _ _ (refers_join_left b refers)

theorem holds_right_of_join {a b : Constraint} (holds : (a.join b).Holds label model here)
    (agree : Agree label (a.implied b)) : b.Holds label model here where
  has trait given := holds.has trait ((has_join a b trait).2 (Or.inr given))
  refers role cls refers := by
    rcases refers_join_right a refers with ⟨kept, held, same⟩
    have labels : label kept = label cls := by
      rcases same with rfl | pair
      · rfl
      · exact agree _ pair
    rw [← labels]
    exact holds.refers role kept held

theorem holds_join {a b : Constraint} (left : a.Holds label model here)
    (right : b.Holds label model here) : (a.join b).Holds label model here where
  has trait given := ((has_join a b trait).1 given).elim (left.has trait) (right.has trait)
  refers role cls refers :=
    (refers_of_join refers).elim (left.refers role cls) (right.refers role cls)

theorem agree_implied {a b : Constraint} (unique : model.Unique)
    (left : a.Holds label model here) (right : b.Holds label model here) :
    Agree label (a.implied b) := by
  intro pair implied
  rcases refers_of_implied implied with ⟨role, first, second⟩
  exact unique (first.elim (left.refers role _) (right.refers role _)) (right.refers role _ second)

theorem has_relink (find : ClassId → ClassId) (constraint : Constraint) (trait : Trait) :
    (constraint.relink find).Has trait ↔ constraint.Has trait := by
  cases trait with
  | arity count =>
    rcases constraint with ⟨_, _, _, _, _, _, _, signature, _⟩
    rcases signature with _ | ⟨_ | params, _⟩ <;>
      simp [Has, arity, relink, Signature.relink, Signature.arity]
  | _ => exact Iff.rfl

theorem refers_relink {find : ClassId → ClassId} {constraint : Constraint} {role : Role}
    {cls : ClassId} :
    (constraint.relink find).Refers role cls ↔
      ∃ old, constraint.Refers role old ∧ find old = cls := by
  rcases constraint with ⟨_, _, _, _, _, pointee, slots, signature, _⟩
  cases role with
  | pointee => simp [Refers, relink]
  | slot offset size =>
    simp only [Refers, relink, List.mem_map]
    constructor
    · rintro ⟨⟨_, _, old⟩, member, same⟩
      cases same
      exact ⟨old, member, rfl⟩
    · rintro ⟨old, member, rfl⟩
      exact ⟨_, member, rfl⟩
  | result =>
    cases signature <;> simp [Refers, relink, Signature.Refers, Signature.relink]
  | param place =>
    rcases signature with _ | ⟨_ | params, _⟩ <;>
      simp [Refers, relink, Signature.Refers, Signature.relink]

theorem holds_relink {find : ClassId → ClassId} (same : ∀ cls, label (find cls) = label cls)
    (constraint : Constraint) :
    (constraint.relink find).Holds label model here ↔ constraint.Holds label model here := by
  constructor
  · intro holds
    refine ⟨fun trait given => holds.has trait ((has_relink find constraint trait).2 given), ?_⟩
    intro role cls refers
    rw [← same cls]
    exact holds.refers role _ (refers_relink.2 ⟨cls, refers, rfl⟩)
  · intro holds
    refine ⟨fun trait given => holds.has trait ((has_relink find constraint trait).1 given), ?_⟩
    intro role cls relinked
    rcases refers_relink.1 relinked with ⟨old, refers, rfl⟩
    rw [same old]
    exact holds.refers role old refers

end Constraint

end TypeRecovery
