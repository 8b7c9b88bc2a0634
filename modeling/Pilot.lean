import Pilot.Lib.Dict
import Pilot.Lib.Lists
import Pilot.Lib.Rounding
import Pilot.Lib.Transitions
import Pilot.V33.Vocabulary
import Pilot.V33.State
import Pilot.V33.Context
import Pilot.V33.LadderOps
import Pilot.V33.Wings
import Pilot.V33.Booking
import Pilot.V33.PrintThrough
import Pilot.V33.Converge
import Pilot.V33.Decide
import Pilot.V33.LadderSteps
import Pilot.V33.WingPairs
import Pilot.V33.WingSteps
import Pilot.V33.Events
import Pilot.V33.ClientOrderIds
import Pilot.V33.Runs
import Pilot.V33.BucketLaw
import Pilot.V33.LadderShape
import Pilot.V33.CancelGate
import Pilot.V33.SingleSlot
import Pilot.V33.QuoteSafety
import Pilot.V33.Reconcile
import Pilot.V33.ExecTruth
import Pilot.V33.WriteTokens
import Pilot.V33.Ledger
import Pilot.V33.PendingCredit
import Pilot.V33.Backfills
import Pilot.V33.DayGuard
import Pilot.V33.Arming
import Pilot.V33.GuardLaw
import Pilot.V33.DayHalts
import Pilot.V33.Netting
import Pilot.V33.Batches
import Pilot.V33.NettingRuns
import Pilot.V33.Floor
import Pilot.V33.S4Band
import Pilot.V33.Settlement
import Pilot.V33.DecisionContext
import Pilot.V33.FreshPlacement
import Pilot.V33.NeverRefill
import Pilot.V33.DecisionRuns
import Pilot.V33.SwitchLaw
import Pilot.V33.Triggers
import Pilot.V33.WingService
import Pilot.V33.DeferredLegs
import Pilot.V33.WingPhase
import Pilot.V33.WingTurns
import Pilot.V33.WingLaw
import Pilot.V33.WingGates
import Pilot.V33.OrderIds
import Pilot.V33.FillOrder
import Pilot.V33.OwnMarket
import Pilot.V33.Convergence
import Pilot.V33.ConvergenceLaw
import Pilot.V32.State
import Pilot.V32.Wings
import Pilot.V32.Decide
import Pilot.V32.Executor
import Pilot.V32.Driver
import Pilot.V32.VenueSteps
import Pilot.V32.RestSteps
import Pilot.V32.Phases
import Pilot.V32.PhaseSteps
import Pilot.V32.RequoteSteps
import Pilot.V32.SingleOrder
import Pilot.V32.RightBucket
import Pilot.V32.MoneyMath
import Pilot.V32.Holdings
import Pilot.V32.CashFlows
import Pilot.V32.Feed
import Pilot.V32.FeedSafety
import Pilot.V32.FeeInversion
import Pilot.V32.OrderCalls
import Pilot.V32.CancelTruth
import Pilot.V33.AsyncOrders
import Pilot.V1.Wire
import Pilot.V1.BookMirror
import Pilot.V1.Envelope
import Pilot.V1.Ledger
import Pilot.V1.Closing
import Pilot.V1.Executor
import Pilot.V1.WriteAhead
import Pilot.V1.DecimalText
import Pilot.V1.Restart
import Pilot.V1.Reconciler
import Pilot.V1.Rebalancing
import Pilot.V33.WingTakes
import Pilot.Lib.FirstOfEach
import Pilot.V33.WingConfirm
import Pilot.V33.JournalLaw
import Pilot.Lib.RoundRobin
import Pilot.V33.WingBatches
import Pilot.V1.OrderWire
import Pilot.V32.Shadow
import Pilot.Box.Decide
import Pilot.Box.DecisionLaw
import Pilot.Box.Flatten
import Pilot.Box.FlattenLaw
import Pilot.Corridor.Signal
import Pilot.Corridor.Stops
import Pilot.Corridor.Window
import Pilot.Corridor.StopLaw
import Pilot.Corridor.WindowLaw
import Pilot.Corridor.EntryLaw
import Pilot.V33.HedgeCover
import Pilot.V33.ServeRuns
import Pilot.V33.RightHedge
import Pilot.Host.Supervisor
import Pilot.Host.SupervisorLaw
import Pilot.Host.Rosters
import Pilot.Host.JournalFiles
import Pilot.Host.JournalFilesLaw
import Pilot.Lib.WorkerPool
import Pilot.V33.OrderWriter
import Pilot.V33.OrderWriterCalls
import Pilot.V33.OrderWriterMoves
import Pilot.V33.OrderWriterLaw
import Pilot.V33.OrderWriterLanes
import Pilot.V33.OrderWriterDrain
