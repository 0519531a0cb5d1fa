import RelayFleet.Json.Value

/-!
# Scan passes

A pass looks at every pool of a set once: it takes a snapshot, asks whether it may act at all, and
then goes through the pools, deciding for each that is ready and acting as decided. What a pool's
action comes to is put down in the report; an error concerns its pool alone. `runPass` is written
for any handler, in any monad.
-/

namespace RelayFleet

/-- What to do with a pool. -/
inductive ScanAction where
  | expand
  | shrink
  | noOp
deriving Repr, DecidableEq, Inhabited

namespace ScanAction

/-- Every action. -/
def all : List ScanAction := [expand, shrink, noOp]

/-- The word for an action. -/
def word : ScanAction → String
  | expand => "Expand"
  | shrink => "Shrink"
  | noOp => "NoOp"

end ScanAction

/-- What an action came to. -/
inductive StageOutcome where
  /-- The pool was changed. -/
  | applied
  /-- Nothing could be done now; the next pass may try again. -/
  | deferred
  /-- Nothing was done: there was no need, or a limit forbids it. -/
  | skipped
deriving Repr, DecidableEq, Inhabited

namespace StageOutcome

/-- Every outcome. -/
def all : List StageOutcome := [applied, deferred, skipped]

/-- The word for an outcome. -/
def word : StageOutcome → String
  | applied => "Applied"
  | deferred => "Deferred"
  | skipped => "Skipped"

end StageOutcome

/-- The texts of an error and of what caused it, outermost first. -/
abbrev ErrorChain := List String

/-- The text of an error with its causes. -/
def chainText (chain : ErrorChain) : String := ": ".intercalate chain

/-- The summary of a pass. -/
structure PassReport where
  admitted : Bool
  poolsConsidered : Nat
  poolsReady : Nat
  expanded : List String
  shrunk : List String
  deferred : List String
  skipped : List String
  /-- The pools whose action failed, each with its error. -/
  failures : List (String × String)
deriving Repr, DecidableEq, Inhabited

namespace PassReport

open Json

/-- The report of a pass that did nothing. -/
def empty : PassReport := ⟨false, 0, 0, [], [], [], [], []⟩

/-- Puts down what the action on a pool came to. -/
def add (r : PassReport) (pool : String) (action : ScanAction) :
    Except ErrorChain StageOutcome → PassReport
  | .ok .applied =>
    if action = .expand then { r with expanded := r.expanded ++ [pool] }
    else { r with shrunk := r.shrunk ++ [pool] }
  | .ok .deferred => { r with deferred := r.deferred ++ [pool] }
  | .ok .skipped => { r with skipped := r.skipped ++ [pool] }
  | .error chain => { r with failures := r.failures ++ [(pool, chainText chain)] }

/-- A report in JSON. -/
def encode (r : PassReport) : Value :=
  .object [
    ("admitted", .bool r.admitted),
    ("pools_considered", .natural r.poolsConsidered),
    ("pools_ready", .natural r.poolsReady),
    ("expanded", .array (r.expanded.map .string)),
    ("shrunk", .array (r.shrunk.map .string)),
    ("deferred", .array (r.deferred.map .string)),
    ("skipped", .array (r.skipped.map .string)),
    ("failures", .array (r.failures.map fun (pool, text) => .array [.string pool, .string text]))]

end PassReport

/-- The stages of a pass over pools of type `π`, with snapshots of type `σ`. -/
structure ScanHandler (m : Type → Type) (σ π : Type) where
  name : String
  poolName : π → String
  /-- Reads what the whole pass goes by. -/
  snapshot : m (Except ErrorChain σ)
  /-- Whether the pass may act at all. -/
  admits : σ → m Bool
  pools : σ → m (List π)
  isReady : σ → π → m Bool
  decide : σ → π → m ScanAction
  expand : π → m (Except ErrorChain StageOutcome)
  shrink : π → m (Except ErrorChain StageOutcome)
  /-- Comes last, whatever became of the pass. -/
  finish : PassReport → m Unit

namespace ScanHandler

variable {m : Type → Type} [Monad m] {σ π : Type}

/-- Acts on a pool and puts down what comes of it. -/
def act (h : ScanHandler m σ π) (report : PassReport) (pool : π) (action : ScanAction) :
    m PassReport :=
  match action with
  | .noOp => pure report
  | .expand => do return report.add (h.poolName pool) action (← h.expand pool)
  | .shrink => do return report.add (h.poolName pool) action (← h.shrink pool)

/-- Looks at one pool. -/
def runPool (h : ScanHandler m σ π) (s : σ) (report : PassReport) (pool : π) : m PassReport := do
  let report := { report with poolsConsidered := report.poolsConsidered + 1 }
  if ← h.isReady s pool then
    let action ← h.decide s pool
    h.act { report with poolsReady := report.poolsReady + 1 } pool action
  else return report

/-- The report of a pass up to its end. -/
def survey (h : ScanHandler m σ π) : m PassReport := do
  match ← h.snapshot with
  | .error _ => return .empty
  | .ok s =>
    if ← h.admits s then
      (← h.pools s).foldlM (h.runPool s) { PassReport.empty with admitted := true }
    else return .empty

/-- Runs a pass. -/
def runPass (h : ScanHandler m σ π) : m PassReport := do
  let report ← h.survey
  h.finish report
  return report

end ScanHandler

end RelayFleet
