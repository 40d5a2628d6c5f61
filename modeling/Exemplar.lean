import Exemplar.Text
import Exemplar.Ty
import Exemplar.Value
import Exemplar.Term
import Exemplar.Primitive
import Exemplar.Typing
import Exemplar.Eval
import Exemplar.Decimal.Binary
import Exemplar.Decimal.Fixed
import Exemplar.Decimal.Shortest
import Exemplar.Decimal.Numeral
import Exemplar.Json.Basic
import Exemplar.Json.Fault
import Exemplar.Json.Form
import Exemplar.Json.Reader
import Exemplar.Json.Scan
import Exemplar.Json.Writer
import Exemplar.Json.Shape
import Exemplar.Problem
import Exemplar.Probe
import Exemplar.Terminal
import Exemplar.Clock
import Exemplar.Settings
import Exemplar.Saved.Program
import Exemplar.Saved.Settings
import Exemplar.Enumeration.Stats
import Exemplar.Evolution.Fitness
import Exemplar.Verification.Certificate
import Exemplar.Error
import Exemplar.Enumeration.Search
import Exemplar.Saved.Search
import Exemplar.Verification.Reach
import Exemplar.Verification.Paths
import Exemplar.Verification.Verify
import Exemplar.Saved.Certificate
import Exemplar.Random.Source
import Exemplar.Random.ChaCha
import Exemplar.Random.SplitMix
import Exemplar.Evolution.Vocabulary
import Exemplar.Evolution.Variation
import Exemplar.Evolution.Population
import Exemplar.Evolution.Run
import Exemplar.Catalog
import Exemplar.Experience.Features
import Exemplar.Experience.Record
import Exemplar.Experience.Learner
import Exemplar.Experience.Insights
import Exemplar.Saved.Experience
import Exemplar.Session.Program
import Exemplar.Session.Strategy
import Exemplar.Session.Journal
import Exemplar.Session.Basic
import Exemplar.Session.Request
import Exemplar.Session.Expansion
import Exemplar.Saved.Stamp
import Exemplar.Saved.Session
import Exemplar.Text.Invisible
import Exemplar.Demo
import Exemplar.Main
import Exemplar.Proofs.Result
import Exemplar.Proofs.Term
import Exemplar.Proofs.Typing
import Exemplar.Proofs.Eval
import Exemplar.Proofs.TypeSoundness
import Exemplar.Proofs.Reach
import Exemplar.Proofs.Agreement
import Exemplar.Proofs.Growth
import Exemplar.Proofs.Probe
import Exemplar.Proofs.Catalog
import Exemplar.Proofs.Catalog.Repetition
import Exemplar.Proofs.Catalog.History
import Exemplar.Proofs.Catalog.Conservation
import Exemplar.Proofs.Enumeration.Composition
import Exemplar.Proofs.Enumeration.Invariant
import Exemplar.Proofs.Enumeration.Steps
import Exemplar.Proofs.Enumeration.Levels
import Exemplar.Proofs.Enumeration.Kept
import Exemplar.Proofs.Enumeration.Soundness
import Exemplar.Proofs.Enumeration.Completeness
import Exemplar.Proofs.Enumeration.Constants
import Exemplar.Proofs.Random
import Exemplar.Proofs.Evolution.Trees
import Exemplar.Proofs.Evolution.Variation
import Exemplar.Proofs.Evolution.Population
import Exemplar.Proofs.Evolution.Fitness
import Exemplar.Proofs.Evolution.Elitism
import Exemplar.Proofs.Verification.Checks
import Exemplar.Proofs.Verification.Trace
import Exemplar.Proofs.Verification.Coverage
import Exemplar.Proofs.Verification.Termination
import Exemplar.Proofs.Verification.Certificate
import Exemplar.Proofs.Verification.Exploration
import Exemplar.Proofs.Experience.Ranking
import Exemplar.Proofs.Session.Operation
import Exemplar.Proofs.Session.Promotion
import Exemplar.Proofs.Session.Trial
import Exemplar.Proofs.Session.Reachable
import Exemplar.Proofs.Session.Request
import Exemplar.Proofs.Session.Candidate
import Exemplar.Proofs.Catalog.Naming
import Exemplar.Proofs.Catalog.Distinction
import Exemplar.Proofs.Enumeration.Learning
import Exemplar.Proofs.Experience.Totals
import Exemplar.Proofs.Session.Returned
import Exemplar.Proofs.Session.Naming
import Exemplar.Proofs.Session.Chronicle
import Exemplar.Proofs.Session.Accounts
import Exemplar.Proofs.Limits
import Exemplar.Proofs.Verification.Fixpoint
import Exemplar.Proofs.Session.Refusal
import Exemplar.Proofs.Enumeration.Course
import Exemplar.Proofs.Enumeration.Balance
import Exemplar.Proofs.Enumeration.Budget
import Exemplar.Proofs.Enumeration.Order
import Exemplar.Proofs.Probe.Sample
import Exemplar.Proofs.Probe.Rank
import Exemplar.Proofs.Evolution.Existence
import Exemplar.Proofs.Term.Replacement
import Exemplar.Proofs.Evolution.Offspring
import Exemplar.Proofs.Iteration
import Exemplar.Proofs.Overflow
import Exemplar.Proofs.Experience.Records
import Exemplar.Proofs.Experience.Bookkeeping
import Exemplar.Proofs.Experience.Exploration
import Exemplar.Proofs.Text
import Exemplar.Proofs.Experience.Preferred
import Exemplar.Proofs.Problem
import Exemplar.Proofs.Enumeration.Candidates
import Exemplar.Proofs.Term.Addressing
