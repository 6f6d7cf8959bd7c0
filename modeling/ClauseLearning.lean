import ClauseLearning.Main
import ClauseLearning.Proofs.Branching.Naive
import ClauseLearning.Proofs.Capacity
import ClauseLearning.Proofs.Clauses.Judgement
import ClauseLearning.Proofs.Conflict.Paths
import ClauseLearning.Proofs.Conflict.Survey
import ClauseLearning.Proofs.Correctness
import ClauseLearning.Proofs.Counters
import ClauseLearning.Proofs.Decisions
import ClauseLearning.Proofs.FirstUip
import ClauseLearning.Proofs.ImplicationGraph
import ClauseLearning.Proofs.Invariants
import ClauseLearning.Proofs.Learning
import ClauseLearning.Proofs.Loading
import ClauseLearning.Proofs.OutOfRange
import ClauseLearning.Proofs.Overflow
import ClauseLearning.Proofs.Phases
import ClauseLearning.Proofs.Prefix
import ClauseLearning.Proofs.Program
import ClauseLearning.Proofs.Propagation.Course
import ClauseLearning.Proofs.Propagation.Frame
import ClauseLearning.Proofs.Record
import ClauseLearning.Proofs.RefusedLines
import ClauseLearning.Proofs.RoundTrip
import ClauseLearning.Proofs.Threshold
import ClauseLearning.Proofs.Tracing
import ClauseLearning.Proofs.Trail.InUse
import ClauseLearning.Proofs.Trail.Undo
import ClauseLearning.Proofs.Validation
