import TypeRecovery.Basic
import TypeRecovery.Diagnostic
import TypeRecovery.Observation
/-!
Transcription of trace events into observations. A location is known by what it is, and declaring an
equal one again gives the handle of the first. Whatever an action needs may be missing in an event,
and whatever it has no use for may be present. An event is accepted when every location it names is
declared and it carries what its action needs; nothing is inferred. The locations are checked first,
then the number of operands, then the size, operator or hint.
-/
namespace TypeRecovery

inductive Location where
  | memory (address : UInt64)
  | register (name : String)
  | stack (offset : Int64)
  | temporary (id : UInt32)
  | constant (value site : UInt64)
deriving DecidableEq

/-- Stack offsets are written by magnitude, with the sign in front. The place of a literal is not
shown. -/
def Location.text : Location → String
  | memory address => "mem[0x" ++ Numeral.hex address.toNat ++ "]"
  | register name => name
  | stack offset =>
    let sign := if offset < 0 then "-" else ""
    "stack[" ++ sign ++ "0x" ++ Numeral.hex offset.toInt.natAbs ++ "]"
  | temporary id => "t" ++ Numeral.decimal id.toNat
  | constant value _ => Numeral.address value.toNat

/-- Declared locations, each once, in the order of their first declaration. The index has the handle
that each of them was given. -/
structure LocationTable where
  locations : Array Location
  index : List (Location × LocId)

namespace LocationTable

def empty : LocationTable := ⟨#[], []⟩

def size (table : LocationTable) : Nat := table.locations.size

def isEmpty (table : LocationTable) : Bool := table.locations.isEmpty

def lookup (table : LocationTable) (location : Location) : Option LocId :=
  table.index.lookup location

def get? (table : LocationTable) (loc : LocId) : Option Location := table.locations[loc.index]?

def contains (table : LocationTable) (loc : LocId) : Bool := loc.index < table.size

def declare (table : LocationTable) (location : Location) : LocId × LocationTable :=
  match table.lookup location with
  | some loc => (loc, table)
  | none =>
    let loc := LocId.ofIndex table.size
    (loc, ⟨table.locations.push location, (location, loc) :: table.index⟩)

def ofList (locations : List Location) : LocationTable :=
  locations.foldl (fun table location => (table.declare location).2) empty

def toList (table : LocationTable) : List (LocId × Location) :=
  table.locations.toList.zipIdx.map fun entry => (.ofIndex entry.2, entry.1)

end LocationTable

inductive Action where
  | read | write | assign | deref | call | callReturn | compare | arith
deriving DecidableEq

def Action.text : Action → String
  | read => "read"
  | write => "write"
  | assign => "assign"
  | deref => "deref"
  | call => "call"
  | callReturn => "call-return"
  | compare => "compare"
  | arith => "arith"

structure Event where
  point : ProgramPoint
  location : LocId
  action : Action
  operands : List LocId
  offset : Option Int64
  size : Option UInt8
  operator : Option Operator
  signedness : Option Signedness
  hint : Option Hint
deriving DecidableEq

def Event.locations (event : Event) : List LocId := event.location :: event.operands

inductive Fault where
  | unknownLocation (loc : LocId)
  | operandCount (action : Action) (expected found : Nat)
  | missingSize (action : Action)
  | zeroSize (action : Action)
  | missingOperator
  /-- A call target was declared with a type that is not a function. -/
  | hintMismatch (hint : Hint)
deriving DecidableEq

namespace Fault

def code : Fault → Code
  | unknownLocation _ => .undeclaredLocation
  | operandCount .. => .operandCount
  | missingSize _ => .missingSize
  | zeroSize _ => .zeroSize
  | missingOperator => .missingOperator
  | hintMismatch _ => .hintMismatch

def text : Fault → String
  | unknownLocation loc => "location " ++ loc.text ++ " is not declared"
  | operandCount action expected found =>
    "`" ++ action.text ++ "` takes " ++ Numeral.decimal expected ++ " operand(s), found "
      ++ Numeral.decimal found
  | missingSize action => "`" ++ action.text ++ "` requires an access size"
  | zeroSize action => "`" ++ action.text ++ "` has a zero-byte access size"
  | missingOperator => "arithmetic without an operator"
  | hintMismatch hint =>
    "call target hinted as `" ++ hint.text ++ "`, expected a function type"

end Fault

structure Rejection where
  point : ProgramPoint
  location : LocId
  fault : Fault
deriving DecidableEq

namespace Rejection

def text (rejection : Rejection) : String :=
  "malformed trace at " ++ rejection.point.text ++ " on " ++ rejection.location.text ++ ": "
    ++ rejection.fault.text

def diagnostic (rejection : Rejection) : Diagnostic :=
  let fault := rejection.fault
  let common :=
    (Diagnostic.ofCode .error fault.code).withMessage ("malformed trace: " ++ fault.text)
      |>.withLabel (.point rejection.point) "rejected event"
      |>.withContext (.location rejection.location) "observed location"
  match fault with
  | .unknownLocation missing =>
    if missing = rejection.location then common
    else common.withContext (.location missing) "undeclared operand"
  | _ => common

end Rejection

namespace Event

def accessSize (event : Event) : Except Fault UInt8 :=
  match event.size with
  | none => .error (.missingSize event.action)
  | some size => if size = 0 then .error (.zeroSize event.action) else .ok size

def noOperands (event : Event) : Except Fault Unit :=
  match event.operands with
  | [] => .ok ()
  | operands => .error (.operandCount event.action 0 operands.length)

def soleOperand (event : Event) : Except Fault LocId :=
  match event.operands with
  | [operand] => .ok operand
  | operands => .error (.operandCount event.action 1 operands.length)

/-- What the event says its location was used for. A missing offset means zero. -/
def use (event : Event) : Except Fault Use :=
  match event.action with
  | .read => do
    event.noOperands
    return .read (← event.accessSize)
  | .write => do
    event.noOperands
    return .write (← event.accessSize)
  | .assign => do return .assignedFrom (← event.soleOperand)
  | .deref => do
    let base ← event.soleOperand
    return .dereference base (event.offset.getD 0) (← event.accessSize)
  | .call =>
    match event.hint with
    | some hint =>
      if hint.isFunction then .ok (.callWithArgs event.operands) else .error (.hintMismatch hint)
    | none => .ok (.callWithArgs event.operands)
  | .callReturn => do return .callReturns (← event.soleOperand)
  | .compare => do return .comparedWith (← event.soleOperand) event.signedness
  | .arith => do
    let other ← event.soleOperand
    match event.operator with
    | none => .error .missingOperator
    | some operator => return .arithmeticWith other operator

def transcribe (table : LocationTable) (event : Event) : Except Fault Observation :=
  match event.locations.find? fun loc => !table.contains loc with
  | some undeclared => .error (.unknownLocation undeclared)
  | none => do return ⟨event.point, event.location, ← event.use, event.hint⟩

end Event

structure Collection where
  table : LocationTable
  observations : Array Observation

namespace Collection

def empty (table : LocationTable) : Collection := ⟨table, #[]⟩

def size (collection : Collection) : Nat := collection.observations.size

def isEmpty (collection : Collection) : Bool := collection.observations.isEmpty

/-- A rejected event leaves the caller's collection as it was, so collecting can go on. -/
def push (collection : Collection) (event : Event) : Except Rejection Collection :=
  match event.transcribe collection.table with
  | .error fault => .error ⟨event.point, event.location, fault⟩
  | .ok observation =>
    .ok { collection with observations := collection.observations.push observation }

end Collection

def collect (table : LocationTable) (events : List Event) :
    Except Rejection (List Observation) := do
  let collection ← events.foldlM Collection.push (Collection.empty table)
  return collection.observations.toList

end TypeRecovery
