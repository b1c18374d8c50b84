import Dcrtxmatcher.Lib.PowerSums
import Dcrtxmatcher.Lib.Pads
import Dcrtxmatcher.Lib.GoMap
import Dcrtxmatcher.Lib.Hex
import Dcrtxmatcher.Go
import Dcrtxmatcher.Flint.SolverProofs
import Dcrtxmatcher.Coinjoin.Completeness
import Dcrtxmatcher.Coinjoin.Hiding
import Dcrtxmatcher.Coinjoin.RootList
import Dcrtxmatcher.Coinjoin.KeyList
import Dcrtxmatcher.Coinjoin.Mutex
import Dcrtxmatcher.Coinjoin.Culprit
import Dcrtxmatcher.Lib.Layout
import Dcrtxmatcher.Coinjoin.Isolation
import Dcrtxmatcher.Coinjoin.Joining
import Dcrtxmatcher.Coinjoin.Pending
import Dcrtxmatcher.Coinjoin.Timers
import Dcrtxmatcher.Coinjoin.Writers
import Dcrtxmatcher.Coinjoin.Afresh
import Dcrtxmatcher.Coinjoin.Restarting
import Dcrtxmatcher.Coinjoin.Laggards
import Dcrtxmatcher.Coinjoin.Bounds
import Dcrtxmatcher.Coinjoin.TxBounds
import Dcrtxmatcher.Coinjoin.Verdicts
import Dcrtxmatcher.Coinjoin.Handover
import Dcrtxmatcher.Coinjoin.Spending
import Dcrtxmatcher.Coinjoin.Integrity
import Dcrtxmatcher.Coinjoin.HonestRun
import Dcrtxmatcher.Coinjoin.Queue
import Dcrtxmatcher.Coinjoin.Teardown
import Dcrtxmatcher.Coinjoin.Broadcasts
import Dcrtxmatcher.Coinjoin.Apart
import Dcrtxmatcher.Coinjoin.Completion
import Dcrtxmatcher.Coinjoin.Orders
import Dcrtxmatcher.Matcher.Registry
import Dcrtxmatcher.Matcher.Matches
import Dcrtxmatcher.Matcher.Signing
import Dcrtxmatcher.Matcher.Modes
import Dcrtxmatcher.Matcher.Service
import Dcrtxmatcher.Matcher.Replies
import Dcrtxmatcher.Matcher.Merging
import Dcrtxmatcher.Matcher.Rejections
import Dcrtxmatcher.Matcher.Departures
import Dcrtxmatcher.Matcher.Publishing
import Dcrtxmatcher.Matcher.Purchase
import Dcrtxmatcher.Matcher.Agreement
import Dcrtxmatcher.Matcher.OwnEntries
import Dcrtxmatcher.Matcher.Signatures
