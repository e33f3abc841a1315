import ShowdownCli.Library.Runs
import ShowdownCli.Library.Purge
import ShowdownCli.Library.Results
import ShowdownCli.Library.Keyed
import ShowdownCli.Library.Log
import ShowdownCli.Library.Ring
import ShowdownCli.Library.Form
import ShowdownCli.Library.Fifo
import ShowdownCli.Library.Search
import ShowdownCli.Library.Ordered
import ShowdownCli.Library.Transducer
import ShowdownCli.Library.Refinement
import ShowdownCli.Library.Atomic
import ShowdownCli.Queue
import ShowdownCli.WsClient
import ShowdownCli.Auth
import ShowdownCli.Standard
import ShowdownCli.Parser
import ShowdownCli.Json
import ShowdownCli.Config
import ShowdownCli.BattleState
import ShowdownCli.LayerStack
import ShowdownCli.Client
import ShowdownCli.Layers
import ShowdownCli.DebugLog
import ShowdownCli.App
import ShowdownCli.Dialogue
import ShowdownCli.Program
import ShowdownCli.Proofs.JsonOrder
import ShowdownCli.Proofs.ConfigNames
import ShowdownCli.Proofs.ParserLines
import ShowdownCli.Proofs.ParserRoundTrip
import ShowdownCli.Proofs.ParserCompose
import ShowdownCli.Proofs.ParserLoss
import ShowdownCli.Proofs.ParserRange
import ShowdownCli.Proofs.Numbers
import ShowdownCli.Proofs.BattleChanges
import ShowdownCli.Proofs.BattleShapes
import ShowdownCli.Proofs.BattleTeams
import ShowdownCli.Proofs.BattleSides
import ShowdownCli.Proofs.BattleRoster
import ShowdownCli.Proofs.BattleActive
import ShowdownCli.Proofs.BattleMemory
import ShowdownCli.Proofs.BattleSlots
import ShowdownCli.Proofs.BattleFainted
import ShowdownCli.Proofs.BattleHp
import ShowdownCli.Proofs.BattleShown
import ShowdownCli.Proofs.BattleSightings
import ShowdownCli.Proofs.BattlePosition
import ShowdownCli.Proofs.BattleRooms
import ShowdownCli.Proofs.BattleIndependence
import ShowdownCli.Proofs.BattleFailures
import ShowdownCli.Proofs.CommandTokens
import ShowdownCli.Proofs.BattleCommands
import ShowdownCli.Proofs.BattleRoomKept
import ShowdownCli.Proofs.IdentGrammar
import ShowdownCli.Inbound
import ShowdownCli.Proofs.QueueContents
import ShowdownCli.Proofs.QueueOrder
import ShowdownCli.Proofs.QueueLinearizable
import ShowdownCli.WeakQueue
import ShowdownCli.Proofs.QueueRaces
import ShowdownCli.Proofs.QueueRefines
import ShowdownCli.Proofs.InboundDelivery
import ShowdownCli.Proofs.LayerStackHalves
import ShowdownCli.Proofs.LayerStackMisses
import ShowdownCli.Proofs.LayerStackOwnership
import ShowdownCli.Proofs.WsClientWrites
import ShowdownCli.Proofs.LoginRequest
import ShowdownCli.Proofs.LoginSafety
import ShowdownCli.Proofs.OpaquePayloads
import ShowdownCli.Proofs.PasswordLog
import ShowdownCli.Proofs.LoginCredentials
import ShowdownCli.Proofs.AppEvents
import ShowdownCli.Proofs.AppLayers
import ShowdownCli.Proofs.AppSubmissions
import ShowdownCli.Proofs.AppOrigins
import ShowdownCli.Proofs.AppOverlays
import ShowdownCli.Proofs.AppSteps
import ShowdownCli.Proofs.AppOwnership
import ShowdownCli.Proofs.AppDialogue
import ShowdownCli.Proofs.LoginAnswers
import ShowdownCli.Proofs.ProgramThreads
import ShowdownCli.Proofs.ProgramDelivery
import ShowdownCli.Proofs.DeliveryLatency
import ShowdownCli.Proofs.WriteProgress
import ShowdownCli.Proofs.AppEventLoss
import ShowdownCli.Proofs.AppTermination
import ShowdownCli.Proofs.AppExit
import ShowdownCli.Proofs.AppProgress
import ShowdownCli.Proofs.AppScreen
import ShowdownCli.Proofs.AppBattles
import ShowdownCli.Proofs.ProgramBattles
import ShowdownCli.Proofs.Words
import ShowdownCli.Proofs.PasswordSecrecy
import ShowdownCli.Proofs.AppSurvival
import ShowdownCli.Proofs.WireText
import ShowdownCli.Proofs.BattleReplay
