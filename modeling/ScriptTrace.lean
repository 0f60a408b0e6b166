import ScriptTrace.Main
import ScriptTrace.Proofs.CleanCheck
import ScriptTrace.Proofs.Repeats
import ScriptTrace.Proofs.SwapDetection
import ScriptTrace.Proofs.IterationCap
import ScriptTrace.Proofs.EventBound
import ScriptTrace.Proofs.Locations
import ScriptTrace.Proofs.UnmentionedNames
import ScriptTrace.Proofs.GrowingHistory
import ScriptTrace.Proofs.Permuted
import ScriptTrace.Proofs.SlotsFound
import ScriptTrace.Proofs.Accounted
import ScriptTrace.Proofs.Readable
import ScriptTrace.Proofs.ModelledMembers
import ScriptTrace.Proofs.FindingLines
import ScriptTrace.Proofs.Interchangeable
import ScriptTrace.Proofs.IdiomShape
import ScriptTrace.Proofs.LoopRounds
import ScriptTrace.Proofs.Unfolding
import ScriptTrace.Proofs.ReplayedStates
import ScriptTrace.Proofs.CompoundAssignment
import ScriptTrace.Proofs.BubbleSort
import ScriptTrace.Proofs.ArrayNumbers
import ScriptTrace.Proofs.Neighbours
import ScriptTrace.Proofs.ArgumentGrammar
