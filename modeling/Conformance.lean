import Conformance.Outcome
import Conformance.Proofs.Foundation
import Conformance.Proofs.Calls
import Conformance.Proofs.Completion
import Conformance.Proofs.Moment
import Conformance.Proofs.Session
import Conformance.Proofs.Roster
import Conformance.Proofs.Excision
import Conformance.Proofs.Turn
import Conformance.Proofs.Sound
import Conformance.Proofs.Partition
import Conformance.Proofs.Retention
import Conformance.Proofs.Steady
import Conformance.Proofs.Publication
import Conformance.Proofs.Explanation
import Conformance.Proofs.Judgement
import Conformance.Proofs.Order
import Conformance.Proofs.Precedence
import Conformance.Proofs.Reliance
import Conformance.Proofs.Silence
import Conformance.Proofs.Termination
import Conformance.Proofs.Obligations
import Conformance.Proofs.Lasting
import Conformance.Proofs.Trail
import Conformance.Proofs.Retrace
import Conformance.Proofs.Repetition
import Conformance.Proofs.Releases
import Conformance.Proofs.Extent
import Conformance.Proofs.Containment
import Conformance.Proofs.Storage
import Conformance.Proofs.Arrival
import Conformance.Proofs.Attribution
import Conformance.Proofs.Branch
import Conformance.Proofs.Slice
import Conformance.Proofs.Enclosure
import Conformance.Proofs.Composition
import Conformance.Proofs.Mode
import Conformance.Proofs.Relaxed
import Conformance.Proofs.Fraction
import Conformance.Proofs.FractionText
import Conformance.Proofs.Width
import Conformance.Proofs.Scaling
import Conformance.Proofs.Numbering
import Conformance.Proofs.PackageIndex
import Conformance.Proofs.Masking
