import Fedi.StabilityPool.Isolation
import Fedi.StabilityPool.TransferSafety
import Fedi.StabilityPool.VersionVotes
import Fedi.StabilityPool.CycleBounds
import Fedi.StabilityPool.TurnoverFaults
import Fedi.StabilityPool.Releases
import Fedi.StabilityPool.UnlockAccuracy
import Fedi.StabilityPool.SettlementFairness
import Fedi.StabilityPool.AuctionClearing
import Fedi.StabilityPool.LifetimeFees
import Fedi.StabilityPool.HistoryPanics
import Fedi.Multispend.GroupIntegrity
import Fedi.Multispend.LateJoiner
import Fedi.Multispend.Rescan
import Fedi.Multispend.WithdrawalService
import Fedi.Multispend.CompletionNotifications
import Fedi.Multispend.Voting
import Fedi.SpTransfer.Status
import Fedi.SpTransfer.Submitter
import Fedi.SpTransfer.Verification
import Fedi.FediFee.Ledger
import Fedi.FediFee.MaxSpend
import Fedi.FiFunding.Coverage
import Fedi.FiPayments.SeatPayments
import Fedi.FiPayments.RefundOrder
import Fedi.FiPayments.RefundPrices
import Fedi.FiPayments.FeeBound
import Fedi.LnurlReceive.Delivery
import Fedi.SocialRecovery.Upload
import Fedi.Communities.StaysLeft
import Fedi.Communities.FirstCommunity
import Fedi.Federations.Lifecycle
import Fedi.Federations.DatabaseHistory
import Fedi.Spv2Sweeper.Sweeps
import Fedi.MatrixPayments.Delivery
import Fedi.MatrixPayments.Attempts
import Fedi.FederationSlice.Freshness
import Fedi.FederationSlice.Agreement
import Fedi.TransactionHistory.Completeness
import Fedi.StabilityPoolOld.Refunds
import Fedi.FediFee.Migration
import Fedi.FediFee.RemittanceSplit
import Fedi.FediFee.GuardianDashboard
import Fedi.TransactionHistory.AwaitingDeposits
import Fedi.Cashu.AllProofs
import Fedi.LnGateways.RoundRobin
import Fedi.DeviceRegistration.RecentlyRenewed
import Fedi.DeviceRegistration.DeviceIdentifier
import Fedi.Onboarding.Registration
import Fedi.Storage.DirtyCheck
import Fedi.ChatLinks.RoundTrip
import Fedi.RpcStreams.Subscriptions
import Fedi.MiniApps.Store
import Fedi.Mentions.RoundTrip
import Fedi.FiClient.LiquidityRuns
import Fedi.ChatRows.Conversation
import Fedi.TransactionCsv.Export
import Fedi.FiClient.AutoJoin
