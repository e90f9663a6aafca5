import SharedPrompt.Host.Stage
import SharedPrompt.Proofs.ArrivalOrder
import SharedPrompt.Proofs.CancelledRead
import SharedPrompt.Proofs.EnginePrompts
import SharedPrompt.Proofs.FiredReads
import SharedPrompt.Proofs.IdleNotifications
import SharedPrompt.Proofs.IdleOverlap
import SharedPrompt.Proofs.IdlePrompt
import SharedPrompt.Proofs.InterruptingCommand
import SharedPrompt.Proofs.LeftoverLines
import SharedPrompt.Proofs.LensOrigins
import SharedPrompt.Proofs.LineOnScreen
import SharedPrompt.Proofs.LinesInTurn
import SharedPrompt.Proofs.OneTicket
import SharedPrompt.Proofs.OrderlyShutdown
import SharedPrompt.Proofs.ReadExclusion
import SharedPrompt.Proofs.Routes
import SharedPrompt.Proofs.RoutesAgree
import SharedPrompt.Proofs.SettingsReach
import SharedPrompt.Proofs.SoleConsumer
import SharedPrompt.Proofs.WaitFor
import SharedPrompt.Settings
import SharedPrompt.Text.Shown
import SharedPrompt.WaitQueue.Op
import SharedPrompt.Worker.Launch
import SharedPrompt.Worker.Watch
import SharedPrompt.Proofs.EditorShown
