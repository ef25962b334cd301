import TypeRecovery.Basic
import TypeRecovery.Diagnostic
import TypeRecovery.Observation
/-!
Constraints: all that is known of one class. Besides its evidence, widths and declarations, a
constraint refers to other classes: the class its values point at, the classes of the fields found
through it, and the parameters and the return of a class that is called.

In the conjunction of two constraints on one class evidence accumulates, the greater width and kind
and the longer parameter list are kept, and of two typedefs the first in the alphabet. Where both
refer to a class in the same place the first reference stays, and the two classes are an implied
equality. Declarations that cannot both hold are a conflict; one of the two is kept.
-/
namespace TypeRecovery

inductive Flag where
  | read | written | assigned | dereferenced | arithmetic | compared | called | callResult
  | signed | unsigned | declaredSigned | declaredUnsigned | declaredInt
deriving DecidableEq

namespace Flag

def all : List Flag :=
  [read, written, assigned, dereferenced, arithmetic, compared, called, callResult,
    signed, unsigned, declaredSigned, declaredUnsigned, declaredInt]

/-- The bit that stands for the flag, which is its place in `all`. -/
def bit : Flag → Nat
  | read => 0
  | written => 1
  | assigned => 2
  | dereferenced => 3
  | arithmetic => 4
  | compared => 5
  | called => 6
  | callResult => 7
  | signed => 8
  | unsigned => 9
  | declaredSigned => 10
  | declaredUnsigned => 11
  | declaredInt => 12

def observed : Signedness → Flag
  | .signed => signed
  | .unsigned => unsigned

def declared : Signedness → Flag
  | .signed => declaredSigned
  | .unsigned => declaredUnsigned

end Flag

structure Evidence where
  bits : BitVec 13
deriving DecidableEq

namespace Evidence

def empty : Evidence := ⟨0⟩

def singleton (flag : Flag) : Evidence := ⟨BitVec.twoPow 13 flag.bit⟩

instance : EmptyCollection Evidence := ⟨empty⟩

instance : Singleton Flag Evidence := ⟨singleton⟩

instance : Union Evidence := ⟨fun a b => ⟨a.bits ||| b.bits⟩⟩

instance : Membership Flag Evidence where
  mem evidence flag := evidence.bits.getLsbD flag.bit = true

instance (flag : Flag) (evidence : Evidence) : Decidable (flag ∈ evidence) :=
  inferInstanceAs (Decidable (_ = true))

def ofFlags (flags : List Flag) : Evidence :=
  flags.foldl (fun evidence flag => evidence ∪ {flag}) ∅

/-- Bits that stand for no flag are dropped. -/
def ofBits (bits : UInt16) : Evidence := ⟨bits.toBitVec.truncate 13⟩

def flags (evidence : Evidence) : List Flag := Flag.all.filter (· ∈ evidence)

def isEmpty (evidence : Evidence) : Bool := evidence = ∅

def hasIntegerUse (evidence : Evidence) : Bool :=
  .arithmetic ∈ evidence || .declaredInt ∈ evidence

/-- Both signednesses were declared, as when a signed return value flows into an unsigned
parameter. -/
def hasConflictingDeclarations (evidence : Evidence) : Bool :=
  .declaredSigned ∈ evidence && .declaredUnsigned ∈ evidence

def exactlyOne (evidence : Evidence) (forSigned forUnsigned : Flag) : Option Signedness :=
  if forSigned ∈ evidence then
    if forUnsigned ∈ evidence then none else some .signed
  else
    if forUnsigned ∈ evidence then some .unsigned else none

/-- The signedness on which the evidence agrees. Where any was declared, use has no say. -/
def signedness (evidence : Evidence) : Option Signedness :=
  if .declaredSigned ∈ evidence ∨ .declaredUnsigned ∈ evidence then
    evidence.exactlyOne .declaredSigned .declaredUnsigned
  else
    evidence.exactlyOne .signed .unsigned

end Evidence

structure Slot where
  offset : Int64
  size : UInt8
  cls : ClassId
deriving DecidableEq

namespace Slot

def SameField (a b : Slot) : Prop := a.offset = b.offset ∧ a.size = b.size

instance (a b : Slot) : Decidable (SameField a b) := inferInstanceAs (Decidable (_ ∧ _))

def Before (a b : Slot) : Prop := a.offset < b.offset ∨ (a.offset = b.offset ∧ a.size < b.size)

instance (a b : Slot) : Decidable (Before a b) := inferInstanceAs (Decidable (_ ∨ _))

def Ordered (slots : List Slot) : Prop := slots.Pairwise Before

instance (slots : List Slot) : Decidable (Ordered slots) :=
  inferInstanceAs (Decidable (slots.Pairwise Before))

def insert (slot : Slot) : List Slot → List Slot
  | [] => [slot]
  | head :: rest => if slot.Before head then slot :: head :: rest else head :: insert slot rest

/-- The slots with one more field. Where the field is known already the slots stay as they are, and
the two classes found for it are an equality unless they are the same. -/
def add (slots : List Slot) (slot : Slot) : List Slot × Option ClassPair :=
  match slots.find? fun known => known.SameField slot with
  | some known => (slots, if known.cls = slot.cls then none else some (known.cls, slot.cls))
  | none => (insert slot slots, none)

def addAll (slots : List Slot) : List Slot → List Slot × List ClassPair
  | [] => (slots, [])
  | slot :: rest =>
    let added := add slots slot
    let final := addAll added.1 rest
    (final.1, added.2.toList ++ final.2)

end Slot

/-- What a hint declared a class to be, weakest first. Of two kinds declared for one class the
stronger is kept. -/
inductive Kind where
  | void | primitive | pointer | function
deriving DecidableEq

namespace Kind

def strength : Kind → Nat
  | void => 0
  | primitive => 1
  | pointer => 2
  | function => 3

instance : Max Kind := ⟨fun a b => if a.strength ≤ b.strength then b else a⟩

instance : Min Kind := ⟨fun a b => if a.strength ≤ b.strength then a else b⟩

/-- A declared integer and a declared pointer can hold of one class, which is then a union of both.
Any other two kinds contradict each other. -/
def Compatible (a b : Kind) : Prop :=
  a = b ∨ (a = primitive ∧ b = pointer) ∨ (a = pointer ∧ b = primitive)

instance (a b : Kind) : Decidable (Compatible a b) := inferInstanceAs (Decidable (_ ∨ _))

def text : Kind → String
  | void => "void"
  | primitive => "primitive"
  | pointer => "pointer"
  | function => "function"

end Kind

/-- Parameters and return of a called class. The parameters are unknown until a call or a hint
tells how many there are. -/
structure Signature where
  params : Option (List ClassId)
  ret : ClassId
deriving DecidableEq

namespace Signature

def arity (signature : Signature) : Option Nat := signature.params.map List.length

def references (signature : Signature) : List ClassId :=
  signature.params.getD [] ++ [signature.ret]

def relink (find : ClassId → ClassId) (signature : Signature) : Signature :=
  ⟨signature.params.map (List.map find), find signature.ret⟩

end Signature

structure Constraint where
  evidence : Evidence := ∅
  /-- Bytes of the widest access seen, zero if there was none. -/
  maxAccess : UInt8 := 0
  declaredWidth : Option UInt8 := none
  declaredKind : Option Kind := none
  declaredName : Option String := none
  /-- The class of the values that this class points at. -/
  pointee : Option ClassId := none
  slots : List Slot := []
  signature : Option Signature := none
  /-- Bytes of the aggregate, as far as its slots are known to reach. -/
  extent : UInt64 := 0
deriving DecidableEq

namespace Constraint

def addEvidence (constraint : Constraint) (evidence : Evidence) : Constraint :=
  { constraint with evidence := constraint.evidence ∪ evidence }

def recordAccess (constraint : Constraint) (size : UInt8) : Constraint :=
  { constraint with maxAccess := max constraint.maxAccess size }

def addSlot (constraint : Constraint) (slot : Slot) : Constraint × Option ClassPair :=
  let added := Slot.add constraint.slots slot
  ({ constraint with slots := added.1 }, added.2)

/-- Bytes of a value of the class. A declared width has precedence over any access. -/
def width (constraint : Constraint) : Option UInt8 :=
  match constraint.declaredWidth with
  | some width => some width
  | none => if constraint.maxAccess = 0 then none else some constraint.maxAccess

def hasSlots (constraint : Constraint) : Bool := !constraint.slots.isEmpty

/-- Something is known of the values of the class themselves, beyond the fields found through
them. -/
def hasOwnEvidence (constraint : Constraint) : Bool :=
  !constraint.evidence.isEmpty || constraint.maxAccess != 0 || constraint.declaredWidth.isSome
    || constraint.declaredKind.isSome || constraint.declaredName.isSome
    || constraint.pointee.isSome || constraint.signature.isSome

def isEmpty (constraint : Constraint) : Bool :=
  !constraint.hasOwnEvidence && constraint.slots.isEmpty

def references (constraint : Constraint) : List ClassId :=
  constraint.pointee.toList ++ constraint.slots.map Slot.cls
    ++ (constraint.signature.map Signature.references).getD []

def relink (find : ClassId → ClassId) (constraint : Constraint) : Constraint :=
  { constraint with
    pointee := constraint.pointee.map find
    slots := constraint.slots.map fun slot => { slot with cls := find slot.cls }
    signature := constraint.signature.map (Signature.relink find) }

def isStale (find : ClassId → ClassId) (constraint : Constraint) : Bool :=
  constraint.references.any fun cls => find cls != cls

end Constraint

inductive Conflict where
  | width (kept dropped : UInt8)
  | kind (kept dropped : Kind)
  | arity (kept dropped : Nat)
deriving DecidableEq

namespace Conflict

def code : Conflict → Code
  | width .. => .widthConflict
  | kind .. => .kindConflict
  | arity .. => .arityConflict

def text : Conflict → String
  | width kept dropped =>
    "declared widths of " ++ Numeral.decimal dropped.toNat ++ " and "
      ++ Numeral.decimal kept.toNat ++ " bytes disagree"
  | kind kept dropped => "declared as both " ++ dropped.text ++ " and " ++ kept.text
  | arity kept dropped =>
    "called with " ++ Numeral.decimal dropped ++ " and " ++ Numeral.decimal kept ++ " arguments"

/-- What became of the declaration that was kept. -/
def outcome : Conflict → String
  | width kept _ => "resolved with the " ++ Numeral.decimal kept.toNat ++ "-byte width"
  | kind kept _ => "resolved as " ++ kept.text
  | arity kept _ => "resolved with " ++ Numeral.decimal kept ++ " parameters"

def diagnostic (conflict : Conflict) (cls : ClassId) : Diagnostic :=
  (Diagnostic.ofCode .warning conflict.code).withMessage ("type conflict: " ++ conflict.text)
    |>.withLabel (.cls cls) "conflicting evidence merged here"
    |>.withNote conflict.outcome

def ofWidths (a b : Option UInt8) : List Conflict :=
  match a, b with
  | some a, some b => if a = b then [] else [width (max a b) (min a b)]
  | _, _ => []

def ofKinds (a b : Option Kind) : List Conflict :=
  match a, b with
  | some a, some b => if a.Compatible b then [] else [kind (max a b) (min a b)]
  | _, _ => []

def ofArities (a b : Option Nat) : List Conflict :=
  match a, b with
  | some a, some b => if a = b then [] else [arity (max a b) (min a b)]
  | _, _ => []

end Conflict

def ClassPair.distinct (a b : ClassId) : List ClassPair := if a = b then [] else [(a, b)]

namespace Signature

/-- Unknown parameters take the other side's; of two known lists the longer one's tail is kept. -/
def join (a b : Signature) : Signature :=
  ⟨a.params.merge (fun known other => known ++ other.drop known.length) b.params, a.ret⟩

def implied (a b : Signature) : List ClassPair :=
  ClassPair.distinct a.ret b.ret ++
    ((a.params.getD []).zip (b.params.getD [])).flatMap fun pair =>
      ClassPair.distinct pair.1 pair.2

end Signature

/-- A joined constraint, the equalities that joining implied, and the declarations lost by it. -/
structure Conjunction where
  constraint : Constraint
  implied : List ClassPair
  conflicts : List Conflict
deriving DecidableEq

namespace Constraint

def join (a b : Constraint) : Constraint where
  evidence := a.evidence ∪ b.evidence
  maxAccess := max a.maxAccess b.maxAccess
  declaredWidth := a.declaredWidth.merge max b.declaredWidth
  declaredKind := a.declaredKind.merge max b.declaredKind
  declaredName := a.declaredName.merge (fun a b => if b < a then b else a) b.declaredName
  pointee := a.pointee.or b.pointee
  slots := (Slot.addAll a.slots b.slots).1
  signature := a.signature.merge Signature.join b.signature
  extent := max a.extent b.extent

def implied (a b : Constraint) : List ClassPair :=
  let pointees := match a.pointee, b.pointee with
    | some a, some b => ClassPair.distinct a b
    | _, _ => []
  let signatures := match a.signature, b.signature with
    | some a, some b => a.implied b
    | _, _ => []
  pointees ++ (Slot.addAll a.slots b.slots).2 ++ signatures

def conflicts (a b : Constraint) : List Conflict :=
  Conflict.ofWidths a.declaredWidth b.declaredWidth ++
    Conflict.ofKinds a.declaredKind b.declaredKind ++
    Conflict.ofArities (a.signature.bind Signature.arity) (b.signature.bind Signature.arity)

def conjoin (a b : Constraint) : Conjunction := ⟨a.join b, a.implied b, a.conflicts b⟩

end Constraint

end TypeRecovery
