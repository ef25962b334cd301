import TypeRecovery.Propagation
import TypeRecovery.Seeding
import TypeRecovery.Transcription
import TypeRecovery.Typing.Assignment
/-!
Inference, from observations or from trace events to a typing, in one run or in several batches.
Equalities found by seeding wait for the next propagation. Reading a typing off a session changes
nothing, so it can be done at any time.
-/
namespace TypeRecovery

structure Session where
  config : Config
  store : Store
  pending : List ClassPair

namespace Session

def start (config : Config) (locationCount : Nat) : Session :=
  ⟨config, .withLocations locationCount, []⟩

/-- Seeds a batch. Of a batch that fails, the evidence up to the failure stays in the store, and the
equalities are lost. -/
def seed (session : Session) (observations : List Observation) :
    Session × Option AnalysisFailure :=
  let seeded := (Seeding.start session.store).observeAll session.config.pointerSize observations
  match seeded.2 with
  | none =>
    ({ session with
      store := seeded.1.store
      pending := session.pending ++ seeded.1.merges }, none)
  | some failure => ({ session with store := seeded.1.store }, some failure)

/-- Closes the store under the waiting equalities. They wait no longer, even after a failure. -/
def propagate (session : Session) (schedule : Schedule := .listed) :
    Session × Except AnalysisFailure Work :=
  let cap := session.config.stepCap session.store.size
  let closed := session.store.propagate schedule cap session.pending
  ({ session with store := closed.1, pending := [] }, closed.2)

def typing (session : Session) : Typing := .ofStore session.config session.store

end Session

def analyze (observations : List Observation) (locationCount : Nat) (config : Config)
    (schedule : Schedule := .listed) : Except AnalysisFailure Typing :=
  let seeded := (Session.start config locationCount).seed observations
  match seeded.2 with
  | some failure => .error failure
  | none =>
    let closed := seeded.1.propagate schedule
    match closed.2 with
    | .error failure => .error failure
    | .ok _ => .ok closed.1.typing

inductive Failure where
  | malformed (rejection : Rejection)
  | analysis (failure : AnalysisFailure)
deriving DecidableEq

namespace Failure

def code : Failure → Code
  | malformed rejection => rejection.fault.code
  | analysis failure => failure.code

def text : Failure → String
  | malformed rejection => rejection.text
  | analysis failure => failure.text

def diagnostic : Failure → Diagnostic
  | malformed rejection => rejection.diagnostic
  | analysis failure => failure.diagnostic

end Failure

def inferTypes (table : LocationTable) (events : List Event) (config : Config)
    (schedule : Schedule := .listed) : Except Failure Typing :=
  match collect table events with
  | .error rejection => .error (.malformed rejection)
  | .ok observations => (analyze observations table.size config schedule).mapError .analysis

end TypeRecovery
