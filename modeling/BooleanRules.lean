import BooleanRules.Number.Basic
import BooleanRules.Number.Reading
import BooleanRules.Value.Text
import BooleanRules.Expr.Basic
import BooleanRules.Call.Registry
import BooleanRules.Call.Journal
import BooleanRules.Evaluation.Sync
import BooleanRules.Evaluation.Async
import BooleanRules.Node.Json
import BooleanRules.Node.Datum
import BooleanRules.Config.Reading
import BooleanRules.Evaluator
import BooleanRules.Script.Scenario
import BooleanRules.Proofs.Polling
import BooleanRules.Proofs.Reached
import BooleanRules.Proofs.Visits
import BooleanRules.Proofs.Reading
import BooleanRules.Proofs.Lockstep
import BooleanRules.Proofs.Entry
import BooleanRules.Proofs.Simulation
import BooleanRules.Proofs.Positions
import BooleanRules.Proofs.RootPromise
import BooleanRules.Proofs.Formula
import BooleanRules.Proofs.ShortCircuit
import BooleanRules.Proofs.Places
import BooleanRules.Proofs.Grammar
import BooleanRules.Proofs.Blocks
import BooleanRules.Proofs.Sequence
import BooleanRules.Proofs.Budget
import BooleanRules.Proofs.Causes
import BooleanRules.Proofs.Provenance
import BooleanRules.Proofs.Delivery
import BooleanRules.Proofs.Relabel
import BooleanRules.Proofs.Duality
import BooleanRules.Proofs.Meaning
import BooleanRules.Proofs.Associativity
import BooleanRules.Proofs.Conversion
import BooleanRules.Proofs.Trimming
import BooleanRules.Proofs.Unvisited
import BooleanRules.Proofs.Evidence
import BooleanRules.Proofs.Monotonicity
import BooleanRules.Proofs.Reordering
import BooleanRules.Proofs.Canonical
import BooleanRules.Proofs.Spelling
import BooleanRules.Proofs.TwoReadings
import BooleanRules.Proofs.Retraction
import BooleanRules.Proofs.FirstFault
import BooleanRules.Proofs.Marshalling
import BooleanRules.Proofs.Locality
import BooleanRules.Proofs.Registrations
import BooleanRules.Proofs.ConfiguredPolicy
import BooleanRules.Proofs.Snapshots
