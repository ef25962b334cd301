import TypeRecovery.Basic
/-!
Observations: what a location was seen to be used for at one instruction, and the type it was
declared with, if any. They are all that inference goes by. The type comes as a hint, from a library
signature or the declaration of a global. A `named` hint is a typedef; within one run every use of
its name means the same class.
-/
namespace TypeRecovery

inductive Signedness where
  | signed | unsigned
deriving DecidableEq

inductive Operator where
  | add | sub | mul | signedDiv | unsignedDiv | and | or | xor | shiftLeft
  | shiftRight | shiftRightSigned
deriving DecidableEq

namespace Operator

def isAdditive : Operator → Bool
  | add | sub => true
  | _ => false

def signedness : Operator → Option Signedness
  | signedDiv | shiftRightSigned => some .signed
  | unsignedDiv | shiftRight => some .unsigned
  | _ => none

def text : Operator → String
  | add => "+"
  | sub => "-"
  | mul => "*"
  | signedDiv => "/s"
  | unsignedDiv => "/u"
  | and => "&"
  | or => "|"
  | xor => "^"
  | shiftLeft => "<<"
  | shiftRight => ">>u"
  | shiftRightSigned => ">>s"

end Operator

inductive Hint where
  | void
  | int (size : UInt8) (signedness : Option Signedness)
  | pointer (target : Hint)
  | function (name : Option String) (params : List Hint) (ret : Hint)
  | named (name : String) (definition : Hint)

namespace Hint

mutual
def same : Hint → Hint → Bool
  | void, void => true
  | int size signedness, int size' signedness' => size == size' && signedness == signedness'
  | pointer target, pointer target' => same target target'
  | function name params ret, function name' params' ret' =>
    name == name' && sameAll params params' && same ret ret'
  | named name definition, named name' definition' => name == name' && same definition definition'
  | _, _ => false

def sameAll : List Hint → List Hint → Bool
  | [], [] => true
  | hint :: rest, hint' :: rest' => same hint hint' && sameAll rest rest'
  | _, _ => false
end

mutual
theorem same_iff : (a b : Hint) → (same a b = true ↔ a = b)
  | void, b => by cases b <;> simp [same]
  | int _ _, b => by cases b <;> simp [same]
  | pointer target, b => by cases b <;> simp [same, same_iff target]
  | function _ params ret, b => by
    cases b <;> simp [same, sameAll_iff params, same_iff ret, and_assoc]
  | named _ definition, b => by cases b <;> simp [same, same_iff definition]

theorem sameAll_iff : (as bs : List Hint) → (sameAll as bs = true ↔ as = bs)
  | [], bs => by cases bs <;> simp [sameAll]
  | hint :: rest, bs => by cases bs <;> simp [sameAll, same_iff hint, sameAll_iff rest]
end

instance : DecidableEq Hint := fun a b => decidable_of_iff _ (same_iff a b)

def underlying : Hint → Hint
  | named _ definition => definition.underlying
  | hint => hint

def isFunction (hint : Hint) : Bool :=
  match hint.underlying with
  | function .. => true
  | _ => false

/-- Bytes of a value of this type. `void` and a bare function have no values to measure. -/
def size (pointerSize : UInt8) : Hint → Option UInt8
  | void | function .. => none
  | int size _ => some size
  | pointer _ => some pointerSize
  | named _ definition => definition.size pointerSize

mutual
def text : Hint → String
  | void => "void"
  | int size none => "word" ++ Numeral.bits size
  | int size (some .signed) => "int" ++ Numeral.bits size
  | int size (some .unsigned) => "uint" ++ Numeral.bits size
  | pointer target => "(ptr " ++ target.text ++ ")"
  | function _ params ret =>
    "(fn " ++ ret.text ++ " (" ++ String.intercalate ", " (texts params) ++ "))"
  | named name _ => name

def texts : List Hint → List String
  | [] => []
  | hint :: rest => hint.text :: texts rest
end

end Hint

inductive Use where
  | read (size : UInt8)
  | write (size : UInt8)
  | assignedFrom (source : LocId)
  /-- Loaded from or stored to `base` plus `offset`. -/
  | dereference (base : LocId) (offset : Int64) (size : UInt8)
  | callWithArgs (args : List LocId)
  | callReturns (callee : LocId)
  | comparedWith (other : LocId) (signedness : Option Signedness)
  | arithmeticWith (other : LocId) (operator : Operator)
deriving DecidableEq

structure Observation where
  point : ProgramPoint
  location : LocId
  use : Use
  hint : Option Hint
deriving DecidableEq

namespace Use

def operands : Use → List LocId
  | read _ | write _ => []
  | assignedFrom source => [source]
  | dereference base _ _ => [base]
  | callWithArgs args => args
  | callReturns callee => [callee]
  | comparedWith other _ => [other]
  | arithmeticWith other _ => [other]

def text : Use → String
  | read _ => "read"
  | write _ => "write"
  | assignedFrom _ => "assigned-from"
  | dereference .. => "dereference"
  | callWithArgs _ => "call-with-args"
  | callReturns _ => "call-returns"
  | comparedWith .. => "compared-with"
  | arithmeticWith .. => "arithmetic-with"

end Use

def Observation.locations (observation : Observation) : List LocId :=
  observation.location :: observation.use.operands

end TypeRecovery
