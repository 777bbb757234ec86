import Initia.Abcipp.Queued
import Initia.Lib.Fold
import Initia.Lib.UIntRange

/-!
# Removal policy

`removeByReasonLocked` is the single entry point of every removal: a capacity eviction
demotes the evicted nonce and the sender's whole active suffix back to the queued pool;
an ante rejection removes the nonce and demotes the suffix after it; a commit removes the
nonce and then everything below the new on-chain sequence. Demoted entries go through
`insertQueuedLocked`, so the queued limits may drop some of them, and those are reported
as removed with any entry they displaced.

The demotion loop runs `for nonce := start; nonce <= activeMax; nonce++` on `uint64`; it
never exits when `activeMax = 2^64 − 1`, and the operations that reach it then return
`none`.

Source: `abcipp/mempool_remove.go`.
-/

namespace Initia.Abcipp

/-- `RemovalReason`. -/
inductive RemovalReason
  | capacityEvicted
  | committedInBlock
  | anteRejectedInPrepare
  deriving DecidableEq, Repr

/-- The errors `RemoveWithReason` returns. -/
inductive RemoveError
  /-- An error of `txKeyFromTx`. -/
  | txKey (err : String)
  /-- `sdkmempool.ErrTxNotFound`. -/
  | txNotFound
  deriving DecidableEq, Repr

namespace PriorityMempool

variable {Tx : Type}

/-! ### Stale and bulk removal -/

/-- `removeQueuedStaleLocked`: queued nonces below `onChainSeq`, scanned from `queuedMin`. -/
def removeQueuedStaleLocked (p : PriorityMempool Tx) (ss : Nat) (onChainSeq : UInt64) :
    List (TxEntry Tx) × PriorityMempool Tx :=
  let s := p.senderState ss
  if s.queued.size = 0 ∨ onChainSeq = 0 ∨ s.queuedMin ≥ onChainSeq then ([], p)
  else
    (UInt64.rangeIncl s.queuedMin (min (onChainSeq - 1) s.queuedMax)).foldl
      (fun (removed, p) nonce =>
        match (p.senderState ss).queued[nonce]? with
        | none => (removed, p)
        | some entry => (removed ++ [entry], p.dropQueuedLocked ss nonce))
      ([], p)

@[simp]
theorem entries_removeQueuedStaleLocked (p : PriorityMempool Tx) (ss : Nat) (onChainSeq : UInt64) :
    (p.removeQueuedStaleLocked ss onChainSeq).2.entries = p.entries := by
  unfold removeQueuedStaleLocked
  dsimp only
  split_ifs
  · rfl
  · refine List.foldl_snd_rec (fun q : PriorityMempool Tx => q.entries = p.entries) rfl
      (fun r n hr => ?_) _
    obtain ⟨removed, q⟩ := r
    dsimp only at hr ⊢
    split
    · exact hr
    · exact hr

/-- `removeAllQueuedLocked`; Go collects the entries in map order, the model in nonce order. -/
def removeAllQueuedLocked (p : PriorityMempool Tx) (ss : Nat) :
    List (TxEntry Tx) × PriorityMempool Tx :=
  let s := p.senderState ss
  if s.queued.size = 0 then ([], p)
  else
    let p := p.modifySenderState ss fun s => { s with queued := ∅ }.resetQueuedRangeLocked
    (s.queued.toList.map Prod.snd,
      { p with queuedCount := p.queuedCount - Int64.ofNat s.queued.size })

@[simp]
theorem entries_removeAllQueuedLocked (p : PriorityMempool Tx) (ss : Nat) :
    (p.removeAllQueuedLocked ss).2.entries = p.entries := by
  unfold removeAllQueuedLocked
  dsimp only
  split_ifs <;> rfl

/-- `removeNonceLocked`: the nonce from the active set first, else from the queued set. -/
def removeNonceLocked (p : PriorityMempool Tx) (ss : Nat) (nonce : UInt64) :
    Option (TxEntry Tx) × PriorityMempool Tx :=
  let s := p.senderState ss
  match s.active[nonce]? with
  | some entry => (some entry, p.removeEntryLocked entry)
  | none =>
    match s.queued[nonce]? with
    | some entry => (some entry, p.dropQueuedLocked ss nonce)
    | none => (none, p)

/-- `removeActiveStaleLocked`: active nonces below `onChainSeq`, scanned from `activeMin`. -/
def removeActiveStaleLocked (p : PriorityMempool Tx) (ss : Nat) (onChainSeq : UInt64) :
    List (TxEntry Tx) × PriorityMempool Tx :=
  let s := p.senderState ss
  if s.active.size = 0 ∨ onChainSeq = 0 ∨ s.activeMin ≥ onChainSeq then ([], p)
  else
    (UInt64.rangeIncl s.activeMin (min (onChainSeq - 1) s.activeMax)).foldl
      (fun (removed, p) nonce =>
        match (p.senderState ss).active[nonce]? with
        | none => (removed, p)
        | some entry => (removed ++ [entry], p.removeEntryLocked entry))
      ([], p)

/-- `removeStaleLocked`. -/
def removeStaleLocked (p : PriorityMempool Tx) (ss : Nat) (onChainSeq : UInt64) :
    List (TxEntry Tx) × PriorityMempool Tx :=
  let (active, p) := p.removeActiveStaleLocked ss onChainSeq
  let (queued, p) := p.removeQueuedStaleLocked ss onChainSeq
  (active ++ queued, p)

/-- `ss.setOnChainSeqLocked(seq)` then `removeStaleLocked(ss, seq)`: the reconciliation of
a sender with a newer on-chain sequence that `removeByReasonLocked`, `PromoteQueued` and
`cleanUpEntries` share. -/
def advanceSenderLocked (p : PriorityMempool Tx) (ss : Nat) (onChainSeq : UInt64) :
    List (TxEntry Tx) × PriorityMempool Tx :=
  (p.modifySenderState ss (·.setOnChainSeqLocked onChainSeq)).removeStaleLocked ss onChainSeq

/-! ### Demotion -/

/-- One round of the demotion loop at `nonce`: remove the active entry, then report it
(below the new on-chain sequence) or move it to the queued pool, reporting what the
queued limits displaced or refused. -/
def demoteNonceLocked (ss : Nat) (onChainSeq : UInt64) (hasOnChainSeq : Bool)
    (acc : List (TxEntry Tx) × PriorityMempool Tx) (nonce : UInt64) :
    List (TxEntry Tx) × PriorityMempool Tx :=
  let (removed, p) := acc
  match (p.senderState ss).active[nonce]? with
  | none => (removed, p)
  | some entry =>
    let p := p.removeEntryLocked entry
    if hasOnChainSeq ∧ nonce < onChainSeq then (removed ++ [entry], p)
    else
      let entry := { entry with tier := queuedTier }
      let ((inserted, evicted, _), p) := p.insertQueuedLocked ss entry.key entry
      (removed ++ evicted.toList ++ (if inserted then [] else [entry]), p)

/-- `demoteActiveRangeLocked`: move the active suffix from `startNonce` (or after it) back
to the queued pool; `none` when the loop would not exit. -/
def demoteActiveRangeLocked (p : PriorityMempool Tx) (ss : Nat) (startNonce : UInt64)
    (inclusive : Bool) (onChainSeq : UInt64) (hasOnChainSeq : Bool) :
    Option (List (TxEntry Tx) × PriorityMempool Tx) :=
  let s := p.senderState ss
  if s.active.size = 0 then some ([], p)
  else if !inclusive ∧ startNonce = ~~~0 then some ([], p)
  else
    let start := if inclusive then startNonce else startNonce + 1
    if start > s.activeMax then some ([], p)
    -- `nonce <= activeMax` holds for every word: Go loops for ever
    else if s.activeMax = ~~~0 then none
    else some ((UInt64.rangeIncl start s.activeMax).foldl
      (demoteNonceLocked ss onChainSeq hasOnChainSeq) ([], p))

/-! ### The removal entry points -/

/-- The `switch reason` of `removeByReasonLocked`: a capacity eviction demotes the suffix
from the nonce, an ante rejection removes the nonce and demotes the suffix after it, and a
commit removes the nonce. -/
def removeForReasonLocked (p : PriorityMempool Tx) (ss : Nat) (nonce : UInt64)
    (reason : RemovalReason) (onChainSeq : UInt64) (hasOnChainSeq : Bool) :
    Option (List (TxEntry Tx) × PriorityMempool Tx) :=
  match reason with
  | .capacityEvicted => p.demoteActiveRangeLocked ss nonce true onChainSeq hasOnChainSeq
  | .anteRejectedInPrepare =>
    let (entry, p) := p.removeNonceLocked ss nonce
    (p.demoteActiveRangeLocked ss nonce false onChainSeq hasOnChainSeq).map
      fun (demoted, p) => (entry.toList ++ demoted, p)
  | .committedInBlock =>
    let (entry, p) := p.removeNonceLocked ss nonce
    some (entry.toList, p)

/-- `removeByReasonLocked`. -/
def removeByReasonLocked (p : PriorityMempool Tx) (sender : String) (nonce : UInt64)
    (reason : RemovalReason) (onChainSeq : UInt64) (hasOnChainSeq : Bool) :
    Option (List (TxEntry Tx) × PriorityMempool Tx) :=
  match p.senders[sender]? with
  | none => some ([], p)
  | some ss =>
    (p.removeForReasonLocked ss nonce reason onChainSeq hasOnChainSeq).map fun (removed, p) =>
      let (removed, p) :=
        if hasOnChainSeq then
          let (stale, p) := p.advanceSenderLocked ss onChainSeq
          (removed ++ stale, p)
        else (removed, p)
      (removed, p.cleanupSenderLocked sender)

/-- `removeEntriesByReasonLocked`: entries no longer active are skipped. -/
def removeEntriesByReasonLocked (p : PriorityMempool Tx) (entries : List (TxEntry Tx))
    (reason : RemovalReason) : Option (List (TxEntry Tx) × PriorityMempool Tx) :=
  entries.foldlM
    (fun (removed, p) entry =>
      if entry.key ∉ p.entries then pure (removed, p)
      else do
        let (more, p) ← p.removeByReasonLocked entry.key.sender entry.key.nonce reason 0 false
        pure (removed ++ more, p))
    ([], p)

/-- `RemoveWithReason`: a commit also advances the on-chain sequence past the nonce. -/
def removeWithReason (I : TxInterface Tx) (p : PriorityMempool Tx) (tx : Tx)
    (reason : RemovalReason) : Option (Except RemoveError Unit × PriorityMempool Tx) :=
  match txKeyFromTx I tx with
  | .error err => some (.error (.txKey err), p)
  | .ok key => do
    let (onChainSeq, hasOnChainSeq) :=
      if reason = .committedInBlock then (key.nonce + 1, true) else (0, false)
    let (removed, p) ← p.removeByReasonLocked key.sender key.nonce reason onChainSeq
      hasOnChainSeq
    if removed.isEmpty then pure (.error .txNotFound, p)
    else pure (.ok (), p.enqueueRemovedEvents removed)

/-- `Remove`: removal of a committed tx. -/
def remove (I : TxInterface Tx) (p : PriorityMempool Tx) (tx : Tx) :
    Option (Except RemoveError Unit × PriorityMempool Tx) :=
  p.removeWithReason I tx .committedInBlock

end PriorityMempool

end Initia.Abcipp
