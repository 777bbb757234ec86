import Initia.Abcipp.Promote

/-!
# Queries

`Select` snapshots the priority index from front to back together with each entry's
metadata; `Lookup` finds the transaction a sender has at a nonce, active or queued, and
reports its hash. The hash is CometBFT's `Tx.Hash`, code outside this repository, and
is a parameter.

Source: `abcipp/mempool_query.go`.
-/

namespace Initia.Abcipp

namespace PriorityMempool

variable {Tx : Type}

/-- `Select`: the active entries in priority-index order with their `TxInfo`. -/
def select (p : PriorityMempool Tx) : List (TxInfoEntry Tx) :=
  p.priorityIndex.toList.map fun (e, _) =>
    { tx := e.tx
      info :=
        { sender := e.key.sender, sequence := e.sequence, size := e.size,
          gasLimit := e.gas, txBytes := e.bytes, tier := tierName p.tiers e.tier } }

/-- Nonces 0 and 1 enter the fast tier; the replacement of nonce 0 at a higher priority
outside it gets a worse rank than nonce 1, which keeps its rank, so `Select` yields nonce 1
before nonce 0. -/
theorem select_yields_successor_first :
    (insertAll (fastPool 0) 0
        [(10, ⟨[1], 0, 10, [10], false, true⟩), (10, ⟨[1], 1, 10, [11], false, true⟩),
          (11, ⟨[1], 0, 10, [20], false, false⟩)]).map
      (fun p => p.select.map (·.info.sequence)) = some [1, 0] := by
  decide +kernel

/-- `Lookup`: the hash of the tx at `(sender, nonce)`, active first, then queued. -/
def lookup (txHash : Bytes → String) (p : PriorityMempool Tx) (sender : String)
    (nonce : UInt64) : Option String :=
  match p.entries[(⟨sender, nonce⟩ : TxKey)]? with
  | some entry => some (txHash entry.bytes)
  | none =>
    (p.senders[sender]?.bind fun ss => (p.senderState ss).queued[nonce]?).map
      fun entry => txHash entry.bytes

/-- `Contains`: the tx's key is active, or queued for its sender. -/
def contains (I : TxInterface Tx) (p : PriorityMempool Tx) (tx : Tx) : Bool :=
  match txKeyFromTx I tx with
  | .error _ => false
  | .ok key =>
    key ∈ p.entries ||
      (p.senders[key.sender]?.any fun ss => key.nonce ∈ (p.senderState ss).queued)

/-- `CountTx`. -/
def countTx (p : PriorityMempool Tx) : Int :=
  p.entries.size + p.queuedCount.toInt

/-- `NextExpectedSequence`. -/
def nextExpectedSequence (p : PriorityMempool Tx) (sender : String) : UInt64 × Bool :=
  match p.senders[sender]? with
  | some ss => ((p.senderState ss).nextExpectedNonce, true)
  | none => (0, false)

end PriorityMempool

end Initia.Abcipp
