import Tim2Tox.LabelledRuns
import Tim2Tox.RendezvousCodec
import Tim2Tox.RendezvousGroups
import Tim2Tox.RendezvousEvents
import Tim2Tox.RendezvousOps
import Tim2Tox.RendezvousOwned
import Tim2Tox.RendezvousSession
import Tim2Tox.RendezvousPlanner
import Tim2Tox.RendezvousAttempts
import Tim2Tox.RendezvousRequests
import Tim2Tox.RendezvousStaleness
import Tim2Tox.RendezvousLines
import Tim2Tox.RendezvousLife
import Tim2Tox.RendezvousToxcore
import Tim2Tox.OfflineQueue
import Tim2Tox.SendControl
import Tim2Tox.SendHolds
import Tim2Tox.SendSteps
import Tim2Tox.SendCommits
import Tim2Tox.SendRuns
import Tim2Tox.SendSafety
import Tim2Tox.TextQueue
import Tim2Tox.TextQueueCounts
import Tim2Tox.TextQueueLives
import Tim2Tox.TextQueueSessions
import Tim2Tox.TextQueueLedger
import Tim2Tox.ChatHistory
import Tim2Tox.HistoryDedupe
import Tim2Tox.HistoryRows
import Tim2Tox.HistoryUnread
import Tim2Tox.HistoryStore
import Tim2Tox.HistoryTrail
import Tim2Tox.HistoryKept
import Tim2Tox.Signaling
import Tim2Tox.SignalingEnds
import Tim2Tox.SignalingFriends
import Tim2Tox.CallbackBridge
import Tim2Tox.CallbackDelivery
import Tim2Tox.IrcClient
import Tim2Tox.IrcFraming
import Tim2Tox.IrcRelay
import Tim2Tox.FaultyPrograms
import Tim2Tox.QueueFiles
import Tim2Tox.QueueSpecs
import Tim2Tox.QueueCrashes
import Tim2Tox.FencedTasks
import Tim2Tox.QueueFence
import Tim2Tox.RendezvousTransport
import Tim2Tox.RendezvousWire
import Tim2Tox.HistoryFiled
import Tim2Tox.MirroredTables
import Tim2Tox.ReplayFilters
import Tim2Tox.IdentityChallenges
import Tim2Tox.IdentityReplays
import Tim2Tox.IdentityReceipts
import Tim2Tox.IdentityNetwork
import Tim2Tox.IdentityAttribution
import Tim2Tox.IrcRegistration
import Tim2Tox.DeliveryReceipts
import Tim2Tox.ReadReceiptQueue
import Tim2Tox.MessageFragmenter
import Tim2Tox.PacketFraming
import Tim2Tox.TextQueueRefusals
import Tim2Tox.HistoryMerges
import Tim2Tox.HistoryProjection
import Tim2Tox.ContentReceipts
import Tim2Tox.RendezvousBudgets
import Tim2Tox.RendezvousRetries
import Tim2Tox.RendezvousWaits
import Tim2Tox.JsonText
import Tim2Tox.ReceiptScanner
import Tim2Tox.ReceiptText
import Tim2Tox.ReceiptStrings
import Tim2Tox.ReceiptObjects
import Tim2Tox.ReceiptGate
import Tim2Tox.GroupUnread
import Tim2Tox.GroupUnreadTable
import Tim2Tox.GroupUnreadRuns
import Tim2Tox.DartText
import Tim2Tox.MessageIds
import Tim2Tox.FailedMessages
import Tim2Tox.FailedMessagesKept
import Tim2Tox.ActionText
import Tim2Tox.ConversationIds
import Tim2Tox.StorageNames
import Tim2Tox.FileDisks
import Tim2Tox.FileReceives
import Tim2Tox.ReceivedChunks
import Tim2Tox.FinalizedFiles
import Tim2Tox.FinalizedFilesKept
import Tim2Tox.TextSearch
import Tim2Tox.MergerMessages
import Tim2Tox.MergerStrings
import Tim2Tox.MergerDecoded
import Tim2Tox.RepliesShown
import Tim2Tox.RepliesArrive
import Tim2Tox.FileCancels
import Tim2Tox.FileCancelsKept
import Tim2Tox.Base64
import Tim2Tox.HexDecoders
import Tim2Tox.IrcSasl
import Tim2Tox.IrcMessages
import Tim2Tox.IrcUsers
import Tim2Tox.CodeUnits
import Tim2Tox.TruncatedNames
import Tim2Tox.SignalingInvites
import Tim2Tox.SignalingCancels
import Tim2Tox.PathsRebuilt
import Tim2Tox.NumberTexts
import Tim2Tox.JsonFields
import Tim2Tox.EventLines
import Tim2Tox.EventLinesRead
import Tim2Tox.GroupReadiness
import Tim2Tox.IrcBase64
import Tim2Tox.Utf8Validators
import Tim2Tox.GroupReceiptSections
import Tim2Tox.CallViews
import Tim2Tox.CallTeardowns
import Tim2Tox.CallBusy
import Tim2Tox.SignalingNetwork
import Tim2Tox.NativeStarts
import Tim2Tox.Nat64
import Tim2Tox.Recalls
