import Initia.Abcipp.Insert

/-!
# Background reconciliation: `PromoteQueued` and `cleanUpEntries`

Both walk the senders, fetch on-chain sequences outside the lock and then, per sender,
advance the cached sequence and drop what it made stale. `PromoteQueued` then promotes the
queued run the sender's cursor reaches; `cleanUpEntries` instead expires queued pools stuck
behind a missing head nonce for longer than the gap TTL, and finally re-runs the ante
handler on every sender's head tx and removes the rejected ones.

Go visits map keys in no fixed order. Where that order matters the model takes it as an
argument: `visit` is the order in which the per-sender loop meets the fetched sequences,
and `visitSenders` the order of the snapshot of `p.senders`. Times are nanoseconds.

Source: `abcipp/mempool.go`, `abcipp/mempool_cleanup.go`.
-/

namespace Initia.Abcipp

/-- An `sdk.AnteHandler` run on a cache of the chain state `σ`: the state to write back,
or the rejection. -/
abbrev AnteHandler (σ Tx : Type) := σ → Tx → Except String σ

namespace PriorityMempool

variable {Tx : Type}

/-! ### `PromoteQueued` -/

/-- The per-sender body of `PromoteQueued` for a fetched sequence: the stale entries and
the removals and promotions of the promotion loop. The final cleanup reads the state
behind the pointer taken before the loop. -/
def promoteSenderLocked (p : PriorityMempool Tx) (ctx : SdkContext) (sender : String)
    (onChainSeq : UInt64) :
    Option (List (TxEntry Tx) × List (TxEntry Tx) × PriorityMempool Tx) :=
  match p.senders[sender]? with
  | none => some ([], [], p)
  | some ss => do
    -- reconcile by dropping entries below the latest on-chain sequence
    let (stale, p) := p.advanceSenderLocked ss onChainSeq
    let (toPromote, p) := p.collectPromotableLocked ss
    let (removed, promoted, p) ← promoteLocked ctx ss p toPromote
    let s := p.senderState ss
    let p := if s.queued.size = 0 ∧ (onChainSeq ≥ s.nextExpectedNonce ∨ s.active.size = 0)
      then p.cleanupSenderLocked sender else p
    pure (stale ++ removed, promoted, p)

/-- `PromoteQueued`. Sequences are fetched for the senders with queued entries; `visit`
is the order in which the loop meets them. -/
def promoteQueued (ak : AccountKeeper) (p : PriorityMempool Tx) (ctx : SdkContext)
    (visit : List String) : Option (PriorityMempool Tx) :=
  let snapshot := p.senders.toList
  let queuedSenders := snapshot.filter fun (_, ss) => (p.senderState ss).queued.size > 0
  let activeOnlySenders := snapshot.filter fun (_, ss) => (p.senderState ss).queued.size = 0
  if snapshot.isEmpty then some p
  else
    let seqs : Std.TreeMap String UInt64 compare :=
      queuedSenders.foldl (fun seqs (sender, _) =>
        match fetchSequence ak sender with
        | (seq, true) => seqs.insert sender seq
        | (_, false) => seqs) ∅
    do
      let (removed, promoted, p) ← visit.foldlM (fun (removed, promoted, p) sender =>
          match seqs[sender]? with
          | none => pure (removed, promoted, p)
          | some seq => do
            let (removed', promoted', p) ← p.promoteSenderLocked ctx sender seq
            pure (removed ++ removed', promoted ++ promoted', p))
        ([], [], p)
      -- senders with only active entries are dropped once nothing remains
      let p := activeOnlySenders.foldl (fun p (sender, _) =>
          match p.senders[sender]? with
          | some ss => if (p.senderState ss).active.size = 0 then p.cleanupSenderLocked sender
            else p
          | none => p) p
      let p := p.enqueueRemovedEvents removed
      pure (promoted.foldl (fun p entry => p.enqueueEvent .txInserted entry.bytes) p)

/-- At the top of the nonce space `activeMax + 1` wraps to 0, so the cursor stays at
`2^64 − 2` while nonce `2^64 − 1` is active, and a second tx at nonce `2^64 − 1` is
queued. Once the chain reaches sequence `2^64 − 1`, `PromoteQueued` promotes it over the
active one: the active tx `[2]` leaves both sets with no removal event. -/
theorem promoteQueued_loses_active_tx :
    ((insertAll (fastPool 0) 18446744073709551614
        [(10, ⟨[1], 18446744073709551614, 10, [1], false, true⟩),
          (10, ⟨[1], 18446744073709551615, 10, [2], false, true⟩),
          (10, ⟨[1], 18446744073709551615, 10, [3], true, true⟩)]).bind fun p =>
      (p.promoteQueued (.single [1] 18446744073709551615) ⟨0, [], none⟩ ["init1alice"]).map
        fun p' =>
          ((p.senderState 0).active.values.map (·.bytes),
            (p'.senderState 0).active.values.map (·.bytes),
            (p'.senderState 0).queued.values.map (·.bytes),
            p'.cometQueue.drop p.cometQueue.length)) =
      some ([[1], [2]], [[3]], [], [⟨.txRemoved, [1]⟩, ⟨.txInserted, [3]⟩]) := by
  decide +kernel

/-! ### `cleanUpEntries` -/

/-- `expireQueuedGapLocked`: start the gap clock when the sender has no active tx and its
queued head is past the on-chain sequence; drop its whole queued pool once the clock has
run for `queuedGapTTL`; stop the clock otherwise. -/
def expireQueuedGapLocked (p : PriorityMempool Tx) (ss : Nat) (now : Int) :
    List (TxEntry Tx) × PriorityMempool Tx :=
  let s := p.senderState ss
  if s.active.size = 0 ∧ s.queued.size > 0 ∧ s.queuedMin > s.onChainSeq then
    match s.gapSince with
    | none => ([], p.modifySenderState ss fun s => { s with gapSince := some now })
    | some since =>
      if now - since ≥ p.queuedGapTTL then
        (p.modifySenderState ss fun s => { s with gapSince := none }).removeAllQueuedLocked ss
      else ([], p)
  else ([], p.modifySenderState ss fun s => { s with gapSince := none })

@[simp]
theorem entries_expireQueuedGapLocked (p : PriorityMempool Tx) (ss : Nat) (now : Int) :
    (p.expireQueuedGapLocked ss now).2.entries = p.entries := by
  unfold expireQueuedGapLocked
  dsimp only
  split_ifs
  · split
    · rfl
    · split_ifs
      · exact entries_removeAllQueuedLocked _ ss
      · rfl
  · rfl

/-- The locked per-sender phase of `cleanUpEntries` for a fetched sequence. -/
def cleanUpSenderLocked (p : PriorityMempool Tx) (sender : String) (onChainSeq : UInt64)
    (now : Int) : PriorityMempool Tx :=
  match p.senders[sender]? with
  | none => p
  | some ss =>
    let (staled, p) := p.advanceSenderLocked ss onChainSeq
    let p := p.enqueueRemovedEvents staled
    let (expired, p) := p.expireQueuedGapLocked ss now
    (p.enqueueRemovedEvents expired).cleanupSenderLocked sender

/-- The ante re-check of sender heads in `cleanUpEntries`: each head runs on a cache of the
state its predecessors wrote; the rejected ones are returned. -/
def recheckHeads {σ : Type} (ante : AnteHandler σ Tx) :
    σ → List (TxEntry Tx) → List (TxEntry Tx)
  | _, [] => []
  | chain, entry :: rest =>
    match ante chain entry.tx with
    | .error _ => entry :: recheckHeads ante chain rest
    | .ok chain => recheckHeads ante chain rest

/-- `cleanUpEntries`. `simulate` is the state of `GetContextForSimulate` (`none` when it
panics), `ak` the account keeper there, `ante` the configured ante handler. `visitSenders`
is the order of the snapshot of `p.senders`, `visit` the order of the fetched
sequences. -/
def cleanUpEntries {σ : Type} (I : TxInterface Tx) (ak : AccountKeeper)
    (ante : Option (AnteHandler σ Tx)) (p : PriorityMempool Tx) (simulate : Option σ)
    (now : Int) (visitSenders visit : List String) : Option (PriorityMempool Tx) :=
  match simulate with
  | none => some p
  | some chain =>
    -- drop empty senders and snapshot the others
    let (senders, p) := visitSenders.foldl (fun (senders, p) sender =>
        match p.senders[sender]? with
        | none => (senders, p)
        | some ss =>
          if (p.senderState ss).isEmpty then (senders, { p with senders := p.senders.erase sender })
          else (senders ++ [sender], p)) ([], p)
    let onChainSequences : Std.TreeMap String UInt64 compare :=
      senders.foldl (fun seqs sender =>
        match ak.accAddressFromBech32 sender with
        | .error _ => seqs
        | .ok addr =>
          match ak.getSequence addr with
          | .error _ => seqs
          | .ok seq => seqs.insert sender seq) ∅
    if onChainSequences.isEmpty then some p
    else
      let p := visit.foldl (fun p sender =>
          match onChainSequences[sender]? with
          | none => p
          | some seq => p.cleanUpSenderLocked sender seq now) p
      match ante with
      | none => some p
      | some ante =>
        let heads := senders.filterMap fun sender =>
          p.senders[sender]?.bind fun ss =>
            let s := p.senderState ss
            s.active[s.activeMin]?
        (recheckHeads ante chain heads).foldlM
          (fun p entry => (p.removeWithReason I entry.tx .anteRejectedInPrepare).map Prod.snd) p

end PriorityMempool

end Initia.Abcipp
