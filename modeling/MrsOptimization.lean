import MrsOptimization.Alliance.MessageService
import MrsOptimization.Control.MowerBrains
import MrsOptimization.Combinations.Enumeration
import MrsOptimization.Control.CachedBehavior
import MrsOptimization.Control.MirroredScan
import MrsOptimization.Control.PlayerConfig
import MrsOptimization.Control.PlayerLoop
import MrsOptimization.Control.RangerSectors
import MrsOptimization.Control.WorldCtrl
import MrsOptimization.Heuristic.EvenUpResult
import MrsOptimization.Heuristic.AreaCoverage
import MrsOptimization.Heuristic.CommonTime
import MrsOptimization.Heuristic.ComponentOrder
import MrsOptimization.Heuristic.Configuration
import MrsOptimization.Heuristic.EvenUpTermination
import MrsOptimization.Heuristic.ExaminedSubsets
import MrsOptimization.Heuristic.Evolution
import MrsOptimization.Heuristic.MatrixRuns
import MrsOptimization.Heuristic.OpTimeCost
import MrsOptimization.Heuristic.Ranking
import MrsOptimization.Heuristic.SimpleFitness
import MrsOptimization.Heuristic.SolutionCalculator
import MrsOptimization.Kinematics.ArmRuns
import MrsOptimization.Navigation.ClippedArea
import MrsOptimization.Navigation.ColorPalette
import MrsOptimization.Navigation.ConnectedObjects
import MrsOptimization.Navigation.Triangulation
import MrsOptimization.Navigation.WallWalk
import MrsOptimization.Player.PullMode
import MrsOptimization.Player.Session
import MrsOptimization.Player.Subscriptions
import MrsOptimization.Player.Telemetry
import MrsOptimization.Player.XdrAccepted
import MrsOptimization.Player.XdrRuns
