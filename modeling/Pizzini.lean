import Pizzini.Lib.Bytes
import Pizzini.Lib.Dict
import Pizzini.Lib.OsaDistance
import Pizzini.Lib.Trim
import Pizzini.Lib.ParseInteger
import Pizzini.Lib.EditScripts
import Pizzini.Lib.Totals
import Pizzini.Lib.MonotoneLog
import Pizzini.Relay.EncryptedFile
import Pizzini.Relay.ChainValidatorStore
import Pizzini.Relay.ChainValidatorDisk
import Pizzini.Lib.Rounding
import Pizzini.Lib.Runs
import Pizzini.Lib.Gaps
import Pizzini.Relay.ChainValidatorCrash
import Pizzini.Relay.ChainCalls
import Pizzini.Relay.PlainEnv
import Pizzini.Relay.PendingStore
import Pizzini.Relay.Routing
import Pizzini.Relay.RoutingSafety
import Pizzini.Group.ChatGroup
import Pizzini.Group.GroupOp
import Pizzini.Group.GroupApply
import Pizzini.Group.ApplySpec
import Pizzini.Group.WellFormed
import Pizzini.Group.SampleEnv
import Pizzini.Group.GroupBootstrap
import Pizzini.Group.DeliveryOrder
import Pizzini.Group.Outsiders
import Pizzini.Group.OutsiderRuns
import Pizzini.Group.ChatStoreGroups
import Pizzini.Group.BootstrapCheck
import Pizzini.Storage.CString
import Pizzini.Group.SQLiteStorage
import Pizzini.Group.Issue
import Pizzini.Group.Invite
import Pizzini.Delivery.HashChainToken
import Pizzini.Delivery.SampleChain
import Pizzini.Delivery.RelayGap
import Pizzini.Delivery.TokenOrder
import Pizzini.Delivery.ServeChain
import Pizzini.Delivery.ReceiveCrash
import Pizzini.Delivery.SendPaths
import Pizzini.Group.Equivocation
import Pizzini.Group.Splice
import Pizzini.Attachments.FileChunkEnvelope
import Pizzini.Attachments.FilenameSanitizer
import Pizzini.Attachments.SanitizedNames
import Pizzini.Attachments.AttachmentTier
import Pizzini.Attachments.AttachmentReassembler
import Pizzini.Attachments.Whole
import Pizzini.Attachments.Isolation
import Pizzini.Attachments.CompletedFiles
import Pizzini.Attachments.InFlight
import Pizzini.Attachments.DiskAccounts
import Pizzini.Group.SenderKeyHeader
import Pizzini.App.Device
import Pizzini.App.Bootstrap
import Pizzini.App.KeyRotation
import Pizzini.App.OrphanChecks
import Pizzini.Group.GroupSend
import Pizzini.Chat.Messages
import Pizzini.Chat.RowStatus
import Pizzini.Chat.AttachmentRollup
import Pizzini.Group.SideEffects
import Pizzini.Group.ClientCalls
import Pizzini.Group.KeyShipping
import Pizzini.Group.CallCases
import Pizzini.Group.KeySteps
import Pizzini.Group.RemovedPeers
import Pizzini.Lib.Thinned
import Pizzini.Relay.PendingDisk
import Pizzini.Relay.PendingRuns
import Pizzini.Relay.PendingBounds
import Pizzini.Relay.SeedFlood
import Pizzini.Relay.PendingOrder
import Pizzini.Relay.PlainPending
import Pizzini.Client.OnionHost
import Pizzini.Client.ContactCard
import Pizzini.Client.Reassembly
import Pizzini.Client.RelayFrames
import Pizzini.Relay.FrameParsers
import Pizzini.Client.FrameAgreement
import Pizzini.App.TransparencyLog
import Pizzini.Client.Socks5
import Pizzini.Client.RelayClient
import Pizzini.Client.TornDownDials
import Pizzini.Lib.Stateful
import Pizzini.Crypto.Libsignal
import Pizzini.Crypto.Padding
import Pizzini.Crypto.DeviceStore
import Pizzini.Crypto.SealedSize
import Pizzini.Crypto.Snapshot
import Pizzini.Crypto.SnapshotRoundTrip
import Pizzini.Crypto.SnapshotRuns
import Pizzini.Crypto.DamagedSessions
import Pizzini.Lib.SlidingWindow
import Pizzini.Relay.FrameRate
import Pizzini.Relay.SeedRate
import Pizzini.Lib.CutFrames
import Pizzini.Lib.Decimal
import Pizzini.Lib.Rows
import Pizzini.Lib.WriteBack
import Pizzini.Relay.DocFile
import Pizzini.Relay.HelloReplay
import Pizzini.Relay.PushTokenStore
import Pizzini.Relay.BundleReqRateStore
import Pizzini.Relay.DeferredPersistence
import Pizzini.Relay.BundleReqCap
import Pizzini.Delivery.SendDedupe
import Pizzini.Relay.ChainFaults
import Pizzini.Relay.ChainSoundness
import Pizzini.Delivery.ChainAgreement
import Pizzini.Relay.PushGate
import Pizzini.Relay.PeerIds
import Pizzini.Group.Codecs
import Pizzini.Group.MemberSetRoot
import Pizzini.Group.RejectedOps
import Pizzini.Group.KeyRecipients
import Pizzini.Group.LocalOps
import Pizzini.Group.Histories
import Pizzini.Group.Accusations
import Pizzini.Group.StoredDates
import Pizzini.Group.Traps
import Pizzini.Group.ReplayQueue
import Pizzini.Group.TrapRuns
import Pizzini.Delivery.Outbound
import Pizzini.Delivery.Moves
import Pizzini.Delivery.Resends
import Pizzini.Delivery.RelayedRows
import Pizzini.Delivery.IssuedTokens
import Pizzini.Delivery.ConsumedIndices
import Pizzini.Delivery.LateAcks
import Pizzini.App.AppPasscode
import Pizzini.App.PasscodeRuns
import Pizzini.App.DuressTypos
import Pizzini.App.LockManager
import Pizzini.App.PasscodeGuesses
import Pizzini.App.AutoLock
import Pizzini.Lib.KeyedTable
import Pizzini.Storage.Statement
import Pizzini.Storage.Records
import Pizzini.Storage.RowRoundTrips
import Pizzini.Storage.ChainReload
import Pizzini.Storage.ReadableTables
import Pizzini.Storage.AppState
import Pizzini.Storage.Reset
import Pizzini.Lib.Related
import Pizzini.Group.SnapshotSimulation
import Pizzini.Client.Hashcash
import Pizzini.Relay.RoutedFrames
import Pizzini.Relay.Server
import Pizzini.Relay.ServerSafety
import Pizzini.Relay.ForwardedOnce
import Pizzini.Delivery.HeldFrames
import Pizzini.Chat.ChatStore
import Pizzini.Chat.ClientRuns
import Pizzini.Chat.Network
