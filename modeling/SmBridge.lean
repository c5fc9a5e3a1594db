import SmBridge.Lib.MerkleShape
import SmBridge.Lib.MerkleWalk
import SmBridge.Lib.MerkleTree
import SmBridge.Lib.MerkleConsistency
import SmBridge.Lib.MerkleBottom
import SmBridge.Lib.Sha256
import SmBridge.Lib.Base64
import SmBridge.Lib.OrderedLog
import SmBridge.Lib.Rounding
import SmBridge.Lib.Hierarchy
import SmBridge.Lib.Dict
import SmBridge.Lib.Replay
import SmBridge.Lib.Segments
import SmBridge.Lib.Runs
import SmBridge.Lib.PrefixCode
import SmBridge.Lib.KeyedTrees
import SmBridge.Lib.TreeText
import SmBridge.Lib.Workers
import SmBridge.Lib.Tickets
import SmBridge.Lib.Checks
import SmBridge.Lib.Regex
import SmBridge.Lib.RegexLanguages
import SmBridge.Lib.Radix
import SmBridge.Lib.Attempts
import SmBridge.Lib.Choices
import SmBridge.Lib.Pages
import SmBridge.Lib.Objects
import SmBridge.Python
import SmBridge.Text
import SmBridge.Hashing
import SmBridge.Tlog
import SmBridge.Rfc9162
import SmBridge.InclusionProofs
import SmBridge.ProofLengths
import SmBridge.ConsistencyProofs
import SmBridge.LogHistory
import SmBridge.Conformance
import SmBridge.Tampering
import SmBridge.Float
import SmBridge.Json
import SmBridge.ProofResult
import SmBridge.Store
import SmBridge.Federation
import SmBridge.FederationDelivery
import SmBridge.MutualFederation
import SmBridge.Cryptography
import SmBridge.AnsScitt
import SmBridge.ReceiptMalleability
import SmBridge.LoggedReceipts
import SmBridge.AnsTxt
import SmBridge.AnsVantages
import SmBridge.DnsAid
import SmBridge.HostNames
import SmBridge.AnswerOrder
import SmBridge.Jcs
import SmBridge.Es256
import SmBridge.Base58
import SmBridge.Delegation
import SmBridge.DelegationRules
import SmBridge.DelegationAuthority
import SmBridge.DelegationLifetime
import SmBridge.DelegationTypes
import SmBridge.DelegationChecks
import SmBridge.DelegationCrashes
import SmBridge.Converter
import SmBridge.EmittedSkills
import SmBridge.Provenance
import SmBridge.IndexPages
import SmBridge.Gateway
import SmBridge.StoreRuns
import SmBridge.PersistentStore
import SmBridge.FailedPersist
import SmBridge.FederationPages
import SmBridge.FederationProofs
import SmBridge.FederationRetries
import SmBridge.FederationNetwork
import SmBridge.PolledDeltas
import SmBridge.PollLoops
import SmBridge.Catalog
import SmBridge.CatalogRoutes
import SmBridge.FederatedCatalog
import SmBridge.Registration
import SmBridge.FailedRegistration
import SmBridge.AdvertisedTools
import SmBridge.Onboarding
import SmBridge.Admission
import SmBridge.Identifiers
import SmBridge.IdentifierScope
import SmBridge.HostedResolution
import SmBridge.Dumps
import SmBridge.Ed25519AgentCard
import SmBridge.KeyOrder
import SmBridge.CanonicalJson
import SmBridge.Rfc8785
import SmBridge.JwsCatalog
import SmBridge.AgentCardProfile
import SmBridge.BindingWrite
import SmBridge.SignedPayload
import SmBridge.BindingEntries
import SmBridge.BindingHandlers
import SmBridge.BindingRuns
import SmBridge.BindingReceipts
import SmBridge.BindingOrder
import SmBridge.BindingHistory
import SmBridge.BindingLinearization
import SmBridge.BindingAudit
import SmBridge.CheckpointNotes
