import Initia.Lib.UIntRange
import Initia.Lib.OrderedMap
import Initia.Lib.Fold
import Initia.Lib.Amounts
import Initia.Lib.FixedPoint
import Initia.Sdk.Coins
import Initia.Abcipp.Entry
import Initia.Abcipp.SenderState
import Initia.Abcipp.Pool
import Initia.Abcipp.Queued
import Initia.Abcipp.Remove
import Initia.Abcipp.Insert
import Initia.Abcipp.Promote
import Initia.Abcipp.Machine
import Initia.Abcipp.Query
import Initia.Abcipp.Proposals
import Initia.Abcipp.WellFormed
import Initia.Abcipp.Agreement
import Initia.Abcipp.BlockLimits
import Initia.NftTransfer.Trace
import Initia.Mstaking.Validator
import Initia.Distribution.Types
import Initia.Distribution.Allocation
import Initia.Distribution.Period
import Initia.Distribution.Delegation
import Initia.Distribution.Keeper
import Initia.Distribution.References
import Initia.Distribution.Machine
import Initia.DynamicFee.Keeper
import Initia.Abcipp.TierScore
import Initia.Abcipp.Budgets
import Initia.Abcipp.StaleRemoval
import Initia.NftTransfer.Packet
import Initia.Distribution.DecPool
import Initia.Mstaking.Slash
import Initia.Gov.Keeper
import Initia.Gov.EndBlocker
import Initia.Gov.Frame
import Initia.Gov.Stranded
import Initia.Gov.Schedule
import Initia.Gov.Tally
import Initia.Gov.Deductions
