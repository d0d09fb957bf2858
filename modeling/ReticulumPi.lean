import ReticulumPi.Admin.ConfigRewrite
import ReticulumPi.Admin.Pruning
import ReticulumPi.Admin.Restorable
import ReticulumPi.Announces.Isolated
import ReticulumPi.Artifacts.TreeDigest
import ReticulumPi.Auth.Limiter
import ReticulumPi.Auth.Revoked
import ReticulumPi.Bridge.Breaker
import ReticulumPi.Bridge.Dedup
import ReticulumPi.Bridge.Loops
import ReticulumPi.Bridge.Resumes
import ReticulumPi.Control.Fit
import ReticulumPi.Dashboard.Admission
import ReticulumPi.Dashboard.Batching
import ReticulumPi.Dashboard.BoxTiles
import ReticulumPi.Dashboard.Convergence
import ReticulumPi.Emergency.Bounded
import ReticulumPi.Events.Registrations
import ReticulumPi.Executor.Shutdown
import ReticulumPi.FileTransfer.Published
import ReticulumPi.Gateway.Fenced
import ReticulumPi.Gateway.QueueRules
import ReticulumPi.Gateway.Unheard
import ReticulumPi.Gps.FixEvents
import ReticulumPi.Gps.InView
import ReticulumPi.Identity.Durable
import ReticulumPi.Internet.Connectivity
import ReticulumPi.Link.Outcomes
import ReticulumPi.Lora.Burst
import ReticulumPi.Lora.Crc
import ReticulumPi.Meshcore.Accounting
import ReticulumPi.Meshcore.Dedup
import ReticulumPi.Meshtastic.PacketDedup
import ReticulumPi.Meshtastic.PacketIdUnique
import ReticulumPi.Meshtastic.SendText
import ReticulumPi.Messaging.Drained
import ReticulumPi.Messaging.Order
import ReticulumPi.Messaging.Propagation
import ReticulumPi.Messaging.Prune
import ReticulumPi.Messaging.Reported
import ReticulumPi.Messaging.Times
import ReticulumPi.Migrations.Rollback
import ReticulumPi.Migrations.Twice
import ReticulumPi.Network.Counts
import ReticulumPi.Noaa.Captured
import ReticulumPi.Paths.Backoff
import ReticulumPi.Plugin.Cycles
import ReticulumPi.Plugin.Dead
import ReticulumPi.Plugin.ReadyLost
import ReticulumPi.Plugin.Undone
import ReticulumPi.Recovery.NeverShortened
import ReticulumPi.Recovery.Quotes
import ReticulumPi.Responder.Calc
import ReticulumPi.Responder.Reply
import ReticulumPi.Rns.PropertyEdits
import ReticulumPi.Rtlsdr.Exclusive
import ReticulumPi.Sdr.Expiry
import ReticulumPi.Sdr.Shutdown
import ReticulumPi.Sdr.StrictTurns
import ReticulumPi.Serial.Derived
import ReticulumPi.Signal.ComesBack
import ReticulumPi.Space.Groups
import ReticulumPi.Space.PassRuns
import ReticulumPi.Tcp.Listed
import ReticulumPi.Transport.Alarms
import ReticulumPi.Transport.HubRules
import ReticulumPi.Weather.ActiveAlert
import ReticulumPi.Weather.IssueTime
import ReticulumPi.Weather.SameHeader
