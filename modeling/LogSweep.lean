import LogSweep.Main
import LogSweep.Proofs.Resweep
import LogSweep.Proofs.CommentedCalls
import LogSweep.Proofs.WrittenTargets
import LogSweep.Proofs.InPlaceRuns
import LogSweep.Proofs.OutDirRuns
import LogSweep.Proofs.Containment
import LogSweep.Proofs.Schedules
import LogSweep.Proofs.DryRuns
import LogSweep.Proofs.RunEffects
import LogSweep.Proofs.ConvertedTrees
import LogSweep.Proofs.WalkOrders
import LogSweep.Proofs.EditClashes
import LogSweep.Proofs.AddingOrders
import LogSweep.Proofs.PlannedEdits
import LogSweep.Proofs.CollapsedSpans
import LogSweep.Proofs.WiderTargets
import LogSweep.Proofs.NamedChains
import LogSweep.Proofs.TreeLevels
import LogSweep.Proofs.TargetTexts
import LogSweep.Proofs.LinePositions
import LogSweep.Proofs.WantedFiles
import LogSweep.Proofs.OutputLayout
import LogSweep.Proofs.NearestSettings
import LogSweep.Proofs.FirstFaults
import LogSweep.Proofs.Templates
import LogSweep.Proofs.TrailingSemicolons
import LogSweep.Proofs.ClosedComments
