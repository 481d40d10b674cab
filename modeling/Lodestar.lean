import Lodestar.Chain.AttestationTargets
import Lodestar.Chain.BlockArchiveIndex
import Lodestar.Chain.BlsJobs
import Lodestar.Chain.FirstSeen
import Lodestar.Chain.GossipCommittees
import Lodestar.Chain.IsolatedRequests
import Lodestar.Chain.NonCheckpoint
import Lodestar.Chain.PartialImport
import Lodestar.Chain.PersistedOperations
import Lodestar.Chain.RegeneratedStates
import Lodestar.Chain.Reprocess
import Lodestar.Chain.RetainedSlots
import Lodestar.Chain.ServableUpdates
import Lodestar.Chain.StateRetention
import Lodestar.Db.AbstractRepository
import Lodestar.Eth1.AddedDeposits
import Lodestar.Eth1.DepositCounts
import Lodestar.Eth1.PickedVote
import Lodestar.Eth1.RequiredDeposits
import Lodestar.Eth1.TerminalPowBlock
import Lodestar.ForkChoice.VoteWeights
import Lodestar.LightClient.Chunkify
import Lodestar.LightClient.CommitteeChain
import Lodestar.LightClient.ConcurrentUpdates
import Lodestar.LightClient.MerkleProofs
import Lodestar.Network.GossipSubscriptionRuns
import Lodestar.Network.GossipTopicRoundTrip
import Lodestar.Network.ScoreRuns
import Lodestar.ReqResp.CanonicalBlocks
import Lodestar.ReqResp.RateTracker
import Lodestar.ReqResp.SequentialBlocks
import Lodestar.ReqResp.SnappyFrames
import Lodestar.SlashingProtection.Concurrent
import Lodestar.SlashingProtection.FailedImport
import Lodestar.SlashingProtection.KeyCoding
import Lodestar.SlashingProtection.RoundTrip
import Lodestar.StateTransition.AggregationBits
import Lodestar.StateTransition.CachedListRuns
import Lodestar.StateTransition.Committees
import Lodestar.StateTransition.EpochBalances
import Lodestar.StateTransition.Proposers
import Lodestar.StateTransition.RebuiltCache
import Lodestar.StateTransition.ZeroInactive
import Lodestar.Sync.Coverage
import Lodestar.Util.SettledJobs
import Lodestar.Validator.Clock
import Lodestar.Validator.HeldDuties
import Lodestar.Validator.HeldSyncDuties
