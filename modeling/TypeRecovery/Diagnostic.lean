import TypeRecovery.Basic
/-!
Diagnostics, and what can end an analysis. A binary has no lines of source to point at, so a
diagnostic labels the location, the class or the instruction that it is about. The first digit of
its code's number is a phase: 1 for traces, 2 for contradictory evidence, 9 for the limits of the
engine. A report has its diagnostics in order, and of equal neighbours one.

Contradictory evidence ends no analysis. It is recorded on its class and reported with the result.
-/
namespace TypeRecovery

inductive Code where
  | undeclaredLocation | operandCount | missingSize | zeroSize | missingOperator | hintMismatch
  | widthConflict | kindConflict | arityConflict | calledAndDereferenced
  | noFixedPoint
deriving DecidableEq

namespace Code

/-- Codes are ordered by their numbers. -/
def number : Code → Nat
  | undeclaredLocation => 1001
  | operandCount => 1002
  | missingSize => 1003
  | zeroSize => 1004
  | missingOperator => 1005
  | hintMismatch => 1006
  | widthConflict => 2001
  | kindConflict => 2002
  | arityConflict => 2003
  | calledAndDereferenced => 2004
  | noFixedPoint => 9001

instance : Ord Code where
  compare a b := compare a.number b.number

def text (code : Code) : String := "E" ++ Numeral.decimal code.number

def description : Code → String
  | undeclaredLocation => "observation references an undeclared location"
  | operandCount => "operation has the wrong number of operands"
  | missingSize => "memory access without an access size"
  | zeroSize => "memory access of zero bytes"
  | missingOperator => "arithmetic without an operator"
  | hintMismatch => "call target hint is not a function type"
  | widthConflict => "merged classes declare different primitive widths"
  | kindConflict => "merged classes declare incompatible kinds"
  | arityConflict => "call sites disagree on the number of parameters"
  | calledAndDereferenced => "class is both called and dereferenced"
  | noFixedPoint => "constraint propagation did not reach a fixed point"

/-- Contradictory evidence is reported and the run goes on; everything else ends it. -/
def isFatal : Code → Bool
  | widthConflict | kindConflict | arityConflict | calledAndDereferenced => false
  | _ => true

end Code

inductive Severity where
  | error | warning | note
deriving DecidableEq

def Severity.text : Severity → String
  | error => "error"
  | warning => "warning"
  | note => "note"

inductive Subject where
  | location (loc : LocId)
  | cls (cls : ClassId)
  | point (site : ProgramPoint)
deriving DecidableEq

namespace Subject

def text : Subject → String
  | location loc => "location " ++ loc.text
  | cls id => "class " ++ id.text
  | point site => "at " ++ site.text

/-- Locations come before classes and classes before instructions; each sort goes by number. -/
def position : Subject → Nat × Nat
  | location loc => (0, loc.index)
  | cls id => (1, id.index)
  | point site => (2, site.address.toNat)

instance : Ord Subject where
  compare a b := (compare a.position.1 b.position.1).then (compare a.position.2 b.position.2)

end Subject

structure Label where
  subject : Subject
  message : String
  isPrimary : Bool
deriving DecidableEq

structure Diagnostic where
  code : Code
  severity : Severity
  message : String
  labels : List Label
  notes : List String
deriving DecidableEq

namespace Diagnostic

def ofCode (severity : Severity) (code : Code) : Diagnostic := ⟨code, severity, "", [], []⟩

def withMessage (diagnostic : Diagnostic) (message : String) : Diagnostic :=
  { diagnostic with message }

def withLabel (diagnostic : Diagnostic) (subject : Subject) (message : String) : Diagnostic :=
  { diagnostic with labels := diagnostic.labels ++ [⟨subject, message, true⟩] }

def withContext (diagnostic : Diagnostic) (subject : Subject) (message : String) : Diagnostic :=
  { diagnostic with labels := diagnostic.labels ++ [⟨subject, message, false⟩] }

def withNote (diagnostic : Diagnostic) (note : String) : Diagnostic :=
  { diagnostic with notes := diagnostic.notes ++ [note] }

def primarySubject? (diagnostic : Diagnostic) : Option Subject :=
  (diagnostic.labels.find? Label.isPrimary).map Label.subject

def isError (diagnostic : Diagnostic) : Bool := diagnostic.severity = .error

def text (diagnostic : Diagnostic) : String :=
  let heading := diagnostic.severity.text ++ " [" ++ diagnostic.code.text ++ "]: "
    ++ diagnostic.message
  let labels := diagnostic.labels.map fun label =>
    let marker := if label.isPrimary then "-->" else "   "
    "\n  " ++ marker ++ " " ++ label.subject.text ++ ": " ++ label.message
  let notes := diagnostic.notes.map fun note => "\n  = note: " ++ note
  String.join (heading :: labels ++ notes)

end Diagnostic

namespace Diagnostic

def order (a b : Diagnostic) : Ordering :=
  (compare a.primarySubject? b.primarySubject?).then
    ((compare a.code b.code).then (compare a.message b.message))

def insert (diagnostic : Diagnostic) : List Diagnostic → List Diagnostic
  | [] => [diagnostic]
  | head :: rest =>
    if order diagnostic head = .gt then head :: insert diagnostic rest
    else diagnostic :: head :: rest

def sort (diagnostics : List Diagnostic) : List Diagnostic := diagnostics.foldr insert []

/-- Diagnostics in order, with equal neighbours made one. -/
def report (diagnostics : List Diagnostic) : List Diagnostic := (sort diagnostics).eraseReps

theorem mem_insert {diagnostic other : Diagnostic} {diagnostics : List Diagnostic} :
    other ∈ insert diagnostic diagnostics ↔ other = diagnostic ∨ other ∈ diagnostics := by
  induction diagnostics with
  | nil => exact List.mem_cons
  | cons head rest ih =>
    unfold insert
    split
    · rw [List.mem_cons, ih, List.mem_cons, or_left_comm]
    · exact List.mem_cons

theorem mem_sort {diagnostic : Diagnostic} {diagnostics : List Diagnostic} :
    diagnostic ∈ sort diagnostics ↔ diagnostic ∈ diagnostics := by
  unfold sort
  induction diagnostics with
  | nil => exact Iff.rfl
  | cons first rest ih => rw [List.foldr_cons, mem_insert, ih, List.mem_cons]

theorem mem_eraseReps {diagnostic : Diagnostic} {diagnostics : List Diagnostic} :
    diagnostic ∈ diagnostics.eraseReps ↔ diagnostic ∈ diagnostics := by
  have looped (last : Diagnostic) (rest done : List Diagnostic) :
      diagnostic ∈ List.eraseRepsBy.loop (· == ·) last rest done ↔
        diagnostic ∈ done ∨ diagnostic = last ∨ diagnostic ∈ rest := by
    induction rest generalizing last done with
    | nil => simp [List.eraseRepsBy.loop, or_comm]
    | cons next rest ih =>
      unfold List.eraseRepsBy.loop
      split
      · rename_i same
        rw [ih, eq_of_beq same, List.mem_cons, or_self_left]
      · rw [ih, List.mem_cons, List.mem_cons]
        simp only [or_assoc, or_left_comm]
  cases diagnostics with
  | nil => exact Iff.rfl
  | cons first rest => exact (looped first rest []).trans (by simp)

theorem mem_report {diagnostic : Diagnostic} {diagnostics : List Diagnostic} :
    diagnostic ∈ report diagnostics ↔ diagnostic ∈ diagnostics :=
  mem_eraseReps.trans mem_sort

end Diagnostic

inductive AnalysisFailure where
  /-- An observation names a location that the store has no class for. -/
  | unknownLocation (point : ProgramPoint) (location : LocId)
  /-- Propagation used up its steps; `cls` is the class it was at. -/
  | nonTerminating (steps : Nat) (cls : ClassId)
deriving DecidableEq

namespace AnalysisFailure

def code : AnalysisFailure → Code
  | unknownLocation .. => .undeclaredLocation
  | nonTerminating .. => .noFixedPoint

def text : AnalysisFailure → String
  | unknownLocation point location =>
    "observation at " ++ point.text ++ " references undeclared location " ++ location.text
  | nonTerminating steps cls =>
    "propagation did not reach a fixed point within " ++ Numeral.decimal steps
      ++ " steps (last class " ++ cls.text ++ ")"

def diagnostic (failure : AnalysisFailure) : Diagnostic :=
  let common := (Diagnostic.ofCode .error failure.code).withMessage failure.text
  match failure with
  | unknownLocation point location =>
    common.withLabel (.location location) "not a declared location"
      |>.withContext (.point point) "observed here"
  | nonTerminating _ cls =>
    common.withLabel (.cls cls) "still changing when the cap was hit"
      |>.withNote
        "raise `AnalysisConfig::max_iterations` or inspect the trace for cyclic containment"

end AnalysisFailure

end TypeRecovery
