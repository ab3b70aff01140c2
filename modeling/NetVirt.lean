import NetVirt.Runs
import NetVirt.Netbus
import NetVirt.ReceivePath
import NetVirt.Decimal
import NetVirt.Json
import NetVirt.Provisioning
import NetVirt.ReplyDelivery
import NetVirt.LinkedLists
import NetVirt.Tables
import NetVirt.Bitmaps
import NetVirt.Bitv
import NetVirt.BitPools
import NetVirt.Cert
import NetVirt.LinkStates
import NetVirt.SwitchState
import NetVirt.SwitchEvents
import NetVirt.SwitchSpecs
import NetVirt.SwitchInvariant
import NetVirt.SwitchEffects
import NetVirt.SwitchLists
import NetVirt.SwitchRuns
import NetVirt.SwitchSessions
import NetVirt.SessionList
import NetVirt.SessionIds
import NetVirt.NetworkListing
import NetVirt.Noninterference
import NetVirt.Authorisation
import NetVirt.Revocation
import NetVirt.Isolation
import NetVirt.Inet
import NetVirt.IpPool
import NetVirt.PoolLaw
import NetVirt.PoolSubnets
import NetVirt.RowTables
import NetVirt.Dao
import NetVirt.CtrlerRequests
import NetVirt.RequestSpecs
import NetVirt.RequestEffects
import NetVirt.TenantIsolation
import NetVirt.ApiKeys
import NetVirt.AddressBook
import NetVirt.FailedRequests
import NetVirt.LineStreams
import NetVirt.ControlChannel
import NetVirt.CtrlerChannel
import NetVirt.NetworkIndexes
import NetVirt.ConnectionTables
import NetVirt.FreedNetworks
import NetVirt.NetworkDeletion
import NetVirt.SessionRelease
import NetVirt.Mirrors
import NetVirt.AccessTables
import NetVirt.AccessListings
import NetVirt.AccessRuns
import NetVirt.StartupListing
import NetVirt.SwitchLink
import NetVirt.Agent
import NetVirt.FrameExchange
import NetVirt.PeerSessions
import NetVirt.Introductions
import NetVirt.LinkPairs
import NetVirt.LinkHistories
import NetVirt.PeerLinks
import NetVirt.PeerIntroductions
import NetVirt.LearnedAddresses
import NetVirt.SqlTexts
import NetVirt.ProvisioningCodes
import NetVirt.Tickets
import NetVirt.Accounts
import NetVirt.AccountReplies
import NetVirt.PasswordResets
import NetVirt.CertificateSerials
import NetVirt.PresenceLog
import NetVirt.SwitchStatuses
import NetVirt.NodePresence
import NetVirt.FrameDelivery
import NetVirt.SendPath
import NetVirt.QueueFlush
import NetVirt.RefusedSends
import NetVirt.EncryptedSends
import NetVirt.BufferSizes
import NetVirt.BufferEvents
import NetVirt.BufferConditions
import NetVirt.BufferCalls
import NetVirt.BufferReads
import NetVirt.BufferSends
import NetVirt.BufferBounds
import NetVirt.BufferReleases
import NetVirt.CStrings
import NetVirt.NodeNames
import NetVirt.NameFormats
import NetVirt.OctetStrings
import NetVirt.FieldReads
import NetVirt.LoopedLists
import NetVirt.MbufLists
import NetVirt.AddressSetters
import NetVirt.MbufCounts
import NetVirt.IpcalcWords
import NetVirt.MessageAccessors
import NetVirt.JsonCounts
import NetVirt.JsonSoundness
import NetVirt.JsonCustody
import NetVirt.JsonOwnership
import NetVirt.OnlineParsers
import NetVirt.BerTags
import NetVirt.BerLengths
import NetVirt.BerHeaders
import NetVirt.ResumableDecoders
import NetVirt.BerStructs
import NetVirt.BerIntegers
import NetVirt.BerStrings
import NetVirt.BerConstructed
import NetVirt.BinarySearches
import NetVirt.BerSequences
import NetVirt.BerChoices
import NetVirt.BerSequencesOf
import NetVirt.DndsTypes
import NetVirt.MessageStreams
import NetVirt.Buckets
import NetVirt.JswHash
import NetVirt.JswRuns
import NetVirt.ForwardingTables
import NetVirt.RedBlackTrees
import NetVirt.TreeEntries
import NetVirt.TreeInsertions
import NetVirt.TreeRemovals
import NetVirt.TreeRuns
import NetVirt.NetworkTrees
import NetVirt.AccountKeys
