import SimGate.Semantics
import SimGate.Evaluation
import SimGate.TruthTable
import SimGate.TableOfTruth
import SimGate.Feedback
import SimGate.Reentry
import SimGate.Calls
import SimGate.Independence
import SimGate.Renaming
import SimGate.Project
import SimGate.Deleting
import SimGate.Loading
import SimGate.Reloading
import SimGate.Identifiers
import SimGate.PendingClicks
import SimGate.DisplayRuns
import SimGate.CircuitRefinement
import SimGate.Loadable
import SimGate.Screen
import SimGate.Levels
import SimGate.TruthFunction
import SimGate.TableScreen
import SimGate.TableWindow
import SimGate.Resaving
import SimGate.RandomIds
import SimGate.Faults
import SimGate.EditOrder
import SimGate.Continuing
import SimGate.Locality
