import Attestia.Lib.Sha256
import Attestia.Lib.HashTree
import Attestia.Lib.JsonPrefix
import Attestia.Proof.AttestationSoundness
import Attestia.EventStore.Lockfile
import Attestia.EventStore.TamperEvidence
import Attestia.EventStore.MultiInstance
import Attestia.EventStore.VerifiedOpen
import Attestia.Ledger.TrialBalance
import Attestia.Ledger.Snapshot
import Attestia.Registrum.Parity
import Attestia.Registrum.Predicate.Conformance
import Attestia.Registrum.Predicate.FailClosed
import Attestia.Registrum.ReplayReport
import Attestia.Registrum.RunInvariant
import Attestia.Registrum.TemporalStability
import Attestia.Verify.StateBundle
import Attestia.Verify.Consensus
import Attestia.Verify.Replay
import Attestia.Verify.CrossChainInvariants
import Attestia.Verify.ReplayCommitment
import Attestia.Verify.SequenceAudit
import Attestia.Verify.VerifierNode
import Attestia.Reconciler.Counterparts
import Attestia.Reconciler.Exact
import Attestia.Reconciler.MultiChain
import Attestia.Reconciler.Isolation
import Attestia.Reconciler.Scoping
import Attestia.Treasury.Imports
import Attestia.Treasury.Restore
import Attestia.Vault.Restoration
import Attestia.Witness.HistoricalQuorum
import Attestia.Witness.MultiSig
import Attestia.Witness.MultiSigSession
import Attestia.Witness.SigningPayload
import Attestia.EventStore.Catalog
import Attestia.EventStore.SnapshotRefinement
import Attestia.EventStore.TolerantLoad
import Attestia.Treasury.Validation
import Attestia.Witness.Submitter
import Attestia.Node.PublicVerify
import Attestia.Node.Idempotency
import Attestia.Node.Pagination
import Attestia.Node.ExecuteIntent
import Attestia.ChainObserver.EvmObserver
import Attestia.ChainObserver.DeliveredValue
import Attestia.Node.Attestation
import Attestia.Node.RateLimit
import Attestia.ChainObserver.ReorgDetector
import Attestia.Verify.ComplianceEvidence
import Attestia.Witness.CheckQuorum
import Attestia.Witness.Verifier
import Attestia.Registrum.Attestation
import Attestia.Registrum.AttestationMemos
import Attestia.Reconciler.ObservedUnits
import Attestia.Node.AttestationRestart
import Attestia.Node.AuditLog
import Attestia.Node.HonestMajority
import Attestia.Vault.Coherence
import Attestia.EventStore.DeliveryOrder
import Attestia.Sdk.ExactlyOnce
import Attestia.ChainObserver.LogParser
import Attestia.Node.TenantRegistry
