import Initia.Abcipp.SenderState

/-!
# The priority mempool state and its bookkeeping primitives

`PriorityMempool` with every field the modelled operations read or write. Three parts
of the Go state need care in a functional model:

* The priority index is a `huandu/skiplist` ordered by `compareEntries`; `Set` replaces
  the value of an equal key, `Remove` deletes it, and iteration runs from `Front` (best)
  to `Back` (worst). A `TreeMap` under the same comparator has that behaviour.
* `senders` maps an address to a *pointer* to a `senderState`, and the operations keep
  using a pointer after a nested call may have dropped it from the map
  (`cleanupSenderLocked`) and `getOrCreateSenderLocked` may have allocated a new one. The
  model keeps the objects in a heap `senderStates` addressed by allocation number, and
  `senders` maps an address to that number.
* The event queues are the two FIFO queues `enqueueEvent` fills; the dispatch
  goroutines that drain them are not part of the model.

Source: `abcipp/mempool.go`, `abcipp/mempool_event.go`, `abcipp/utils.go`.
-/

namespace Initia.Abcipp

/-! ### The transaction and account interfaces the mempool consumes -/

/-- A `signing.SignatureV2`, as far as `FirstSignature` reads it: the address of its
public key (`none` for a nil key) and its sequence. -/
structure SignatureV2 where
  pubKeyAddress : Option Bytes
  sequence : UInt64

/-- The SDK's view of a transaction, code outside this repository. -/
structure TxInterface (Tx : Type) where
  /-- `GetSignaturesV2`; `none` when the tx is not a `SigVerifiableTx`. -/
  signaturesV2 : Tx → Option (Except String (List SignatureV2))
  /-- `sdk.AccAddress.String`, the bech32 rendering of an address. -/
  accAddressString : Bytes → String
  /-- `FeeTx.GetGas`; `none` when the tx is not a `FeeTx`. -/
  feeGas : Tx → Option UInt64
  /-- `initiatx.HasQueuedTxExtension`. -/
  hasQueuedTxExtension : Tx → Bool
  /-- The configured `sdk.TxEncoder`. -/
  txEncoder : Tx → Except String Bytes

/-- The account keeper at the calling context: bech32 decoding and `GetSequence`. -/
structure AccountKeeper where
  accAddressFromBech32 : String → Except String Bytes
  getSequence : Bytes → Except String UInt64

section Interfaces

variable {Tx : Type}

/-- `FirstSignature`: the first signer's address and sequence. -/
def firstSignature (I : TxInterface Tx) (tx : Tx) : Except String (Bytes × UInt64) :=
  match I.signaturesV2 tx with
  | none => .error "transaction must implement SigVerifiableTx"
  | some (.error e) => .error e
  | some (.ok []) => .error "transaction must have at least one signer"
  | some (.ok (sig :: _)) =>
    match sig.pubKeyAddress with
    | none => .error "first signature pubkey is nil"
    | some addr => .ok (addr, sig.sequence)

/-- `txKeyFromTx`. -/
def txKeyFromTx (I : TxInterface Tx) (tx : Tx) : Except String TxKey :=
  (firstSignature I tx).map fun (addr, seq) => ⟨I.accAddressString addr, seq⟩

/-- `fetchSequence`: an undecodable address fails; a `GetSequence` error means the
account does not exist yet and reads as sequence `0`. -/
def fetchSequence (ak : AccountKeeper) (sender : String) : UInt64 × Bool :=
  match ak.accAddressFromBech32 sender with
  | .error _ => (0, false)
  | .ok addr =>
    match ak.getSequence addr with
    | .error _ => (0, true)
    | .ok seq => (seq, true)

end Interfaces

/-! ### A minimal transaction format

The scenarios below run the mempool on transactions with a single signer. -/

/-- A transaction with one signer: the signer's address, the signed sequence, the gas
limit, the encoded bytes, whether it carries the queued-tx extension option, and a flag a
tier matcher can select. -/
structure SimpleTx where
  signer : Bytes
  nonce : UInt64
  gas : UInt64
  bytes : Bytes
  queuedExt : Bool
  fast : Bool
  deriving DecidableEq, Repr

/-- The SDK view of a `SimpleTx`; `bech32` renders addresses. -/
def SimpleTx.interface (bech32 : Bytes → String) : TxInterface SimpleTx where
  signaturesV2 tx := some (.ok [⟨some tx.signer, tx.nonce⟩])
  accAddressString := bech32
  feeGas tx := some tx.gas
  hasQueuedTxExtension tx := tx.queuedExt
  txEncoder tx := .ok tx.bytes

/-- A tier that takes the transactions flagged `fast`. -/
def SimpleTx.fastTier : Tier SimpleTx :=
  { name := "fast", matcher := some fun _ tx => tx.fast }

/-- An account keeper with one account, at sequence `seq`. -/
def AccountKeeper.single (addr : Bytes) (seq : UInt64) : AccountKeeper where
  accAddressFromBech32 _ := .ok addr
  getSequence _ := .ok seq

/-! ### The state -/

/-- `PriorityMempool`. The limits are those `NewPriorityMempool` derived from the
configuration; `senders` points into the heap `senderStates`, whose next free slot is
`nextSenderState`. -/
structure PriorityMempool (Tx : Type) where
  maxTx : Int
  tiers : List (TierMatcher Tx)
  maxQueuedPerSender : Int
  maxQueuedTotal : Int
  queuedGapTTL : Int
  priorityIndex : Std.TreeMap (TxEntry Tx) (TxEntry Tx) compareEntries
  entries : Std.TreeMap TxKey (TxEntry Tx) compare
  senders : Std.TreeMap String Nat compare
  senderStates : Std.TreeMap Nat (SenderState Tx) compare
  nextSenderState : Nat
  orderSeq : Int64
  tierDistribution : Std.TreeMap String UInt64 compare
  queuedCount : Int64
  hasEventCh : Bool
  hasAppEventCh : Bool
  cometQueue : List AppMempoolEvent
  appQueue : List AppMempoolEvent

/-- `PriorityMempoolConfig` without its ante handler, which `cleanUpEntries` takes as an
argument. Durations are nanoseconds. -/
structure PriorityMempoolConfig (Tx : Type) where
  maxTx : Int
  maxQueuedPerSender : Int
  maxQueuedTotal : Int
  queuedGapTTL : Int
  tiers : List (Tier Tx)

/-- `DefaultMaxQueuedPerSender`. -/
def defaultMaxQueuedPerSender : Int := 64

/-- `DefaultMaxQueuedTotal`. -/
def defaultMaxQueuedTotal : Int := 1024

/-- `DefaultQueuedGapTTL`, 60 s. -/
def defaultQueuedGapTTL : Int := 60 * 1000000000

namespace PriorityMempool

variable {Tx : Type}

/-- `NewPriorityMempool`: non-positive queue limits fall back to their defaults. The event
channels are those wired later by `SetEventCh` and `SetAppEventCh`. -/
def new (cfg : PriorityMempoolConfig Tx) (hasEventCh hasAppEventCh : Bool) :
    PriorityMempool Tx :=
  let tiers := buildTierMatchers cfg.tiers
  { maxTx := cfg.maxTx
    tiers := tiers
    maxQueuedPerSender := if cfg.maxQueuedPerSender ≤ 0 then defaultMaxQueuedPerSender
      else cfg.maxQueuedPerSender
    maxQueuedTotal := if cfg.maxQueuedTotal ≤ 0 then defaultMaxQueuedTotal
      else cfg.maxQueuedTotal
    queuedGapTTL := if cfg.queuedGapTTL ≤ 0 then defaultQueuedGapTTL else cfg.queuedGapTTL
    priorityIndex := ∅
    entries := ∅
    senders := ∅
    senderStates := ∅
    nextSenderState := 0
    orderSeq := 0
    tierDistribution := initTierDistribution tiers
    queuedCount := 0
    hasEventCh := hasEventCh
    hasAppEventCh := hasAppEventCh
    cometQueue := []
    appQueue := [] }

/-! ### Sender-state pointers -/

/-- Dereference a sender-state pointer. Objects are never freed, so every pointer handed
out stays valid. -/
def senderState (p : PriorityMempool Tx) (ss : Nat) : SenderState Tx :=
  p.senderStates[ss]?.getD .empty

/-- Write through a sender-state pointer. -/
def modifySenderState (p : PriorityMempool Tx) (ss : Nat)
    (f : SenderState Tx → SenderState Tx) : PriorityMempool Tx :=
  { p with senderStates := p.senderStates.insert ss (f (p.senderState ss)) }

@[simp]
theorem entries_modifySenderState (p : PriorityMempool Tx) (ss : Nat)
    (f : SenderState Tx → SenderState Tx) : (p.modifySenderState ss f).entries = p.entries :=
  rfl

/-- `getOrCreateSenderLocked`. -/
def getOrCreateSenderLocked (p : PriorityMempool Tx) (sender : String) :
    Nat × PriorityMempool Tx :=
  match p.senders[sender]? with
  | some ss => (ss, p)
  | none =>
    let ss := p.nextSenderState
    (ss, { p with
      senders := p.senders.insert sender ss
      senderStates := p.senderStates.insert ss .empty
      nextSenderState := ss + 1 })

@[simp]
theorem entries_getOrCreateSenderLocked (p : PriorityMempool Tx) (sender : String) :
    (p.getOrCreateSenderLocked sender).2.entries = p.entries := by
  unfold getOrCreateSenderLocked
  split <;> rfl

/-- Every pointer in `senders` was handed out by an allocation, so the next allocation
cannot alias a live sender state. -/
def PointersAllocated (p : PriorityMempool Tx) : Prop :=
  ∀ (sender : String) (ss : Nat), p.senders[sender]? = some ss → ss < p.nextSenderState

/-- `cleanupSenderLocked`: drop the sender's pointer when its state is empty. -/
def cleanupSenderLocked (p : PriorityMempool Tx) (sender : String) : PriorityMempool Tx :=
  match p.senders[sender]? with
  | some ss => if (p.senderState ss).isEmpty then { p with senders := p.senders.erase sender }
    else p
  | none => p

@[simp]
theorem entries_cleanupSenderLocked (p : PriorityMempool Tx) (sender : String) :
    (p.cleanupSenderLocked sender).entries = p.entries := by
  unfold cleanupSenderLocked
  split
  · split_ifs <;> rfl
  · rfl

/-- `nextOrder`: `atomic.AddInt64(&p.orderSeq, 1)`. -/
def nextOrder (p : PriorityMempool Tx) : Int64 × PriorityMempool Tx :=
  (p.orderSeq + 1, { p with orderSeq := p.orderSeq + 1 })

@[simp]
theorem entries_nextOrder (p : PriorityMempool Tx) : p.nextOrder.2.entries = p.entries :=
  rfl

/-! ### Events -/

/-- `enqueueEvent`: nothing without a channel; `EventTxQueued` is kept off the comet
queue. -/
def enqueueEvent (p : PriorityMempool Tx) (eventType : AppMempoolEventType)
    (txBytes : Bytes) : PriorityMempool Tx :=
  if !p.hasEventCh && !p.hasAppEventCh then p
  else
    let ev : AppMempoolEvent := ⟨eventType, txBytes⟩
    { p with
      cometQueue := if p.hasEventCh && eventType != .txQueued then p.cometQueue ++ [ev]
        else p.cometQueue
      appQueue := if p.hasAppEventCh then p.appQueue ++ [ev] else p.appQueue }

@[simp]
theorem entries_enqueueEvent (p : PriorityMempool Tx) (eventType : AppMempoolEventType)
    (txBytes : Bytes) : (p.enqueueEvent eventType txBytes).entries = p.entries := by
  unfold enqueueEvent
  split_ifs <;> rfl

/-- `enqueueRemovedEvents`. -/
def enqueueRemovedEvents (p : PriorityMempool Tx) (entries : List (TxEntry Tx)) :
    PriorityMempool Tx :=
  entries.foldl (fun p entry => p.enqueueEvent .txRemoved entry.bytes) p

@[simp]
theorem entries_enqueueRemovedEvents (p : PriorityMempool Tx) (entries : List (TxEntry Tx)) :
    (p.enqueueRemovedEvents entries).entries = p.entries := by
  unfold enqueueRemovedEvents
  induction entries generalizing p with
  | nil => rfl
  | cons e l ih => rw [List.foldl_cons, ih, entries_enqueueEvent]

/-! ### The active set -/

/-- The tier counter of `addEntryLocked`: `tierDistribution[name]++` for a named tier. -/
def incrementTierLocked (p : PriorityMempool Tx) (tier : Int64) : PriorityMempool Tx :=
  let name := tierName p.tiers tier
  if name ≠ "" then
    { p with tierDistribution :=
        p.tierDistribution.insert name ((p.tierDistribution[name]?.getD 0) + 1) }
  else p

@[simp]
theorem entries_incrementTierLocked (p : PriorityMempool Tx) (tier : Int64) :
    (p.incrementTierLocked tier).entries = p.entries := by
  unfold incrementTierLocked
  dsimp only
  split_ifs <;> rfl

/-- The tier counter of `removeEntryLocked`, which never goes below zero. -/
def decrementTierLocked (p : PriorityMempool Tx) (tier : Int64) : PriorityMempool Tx :=
  let name := tierName p.tiers tier
  if name ≠ "" then
    match p.tierDistribution[name]? with
    | some count =>
      if count > 0 then { p with tierDistribution := p.tierDistribution.insert name (count - 1) }
      else p
    | none => p
  else p

@[simp]
theorem entries_decrementTierLocked (p : PriorityMempool Tx) (tier : Int64) :
    (p.decrementTierLocked tier).entries = p.entries := by
  unfold decrementTierLocked
  dsimp only
  split_ifs
  · split
    · split_ifs <;> rfl
    · rfl
  · rfl

/-- `addEntryLocked`: index the entry, record it globally and in its sender's active set,
and count it in its tier. -/
def addEntryLocked (p : PriorityMempool Tx) (entry : TxEntry Tx) : PriorityMempool Tx :=
  let p := { p with
    priorityIndex := p.priorityIndex.insert entry entry
    entries := p.entries.insert entry.key entry }
  let (ss, p) := p.getOrCreateSenderLocked entry.key.sender
  let p := p.modifySenderState ss fun s =>
    { s with active := s.active.insert entry.key.nonce entry }.setActiveRangeOnInsertLocked
      entry.key.nonce
  p.incrementTierLocked entry.tier

@[simp]
theorem entries_addEntryLocked (p : PriorityMempool Tx) (entry : TxEntry Tx) :
    (p.addEntryLocked entry).entries = p.entries.insert entry.key entry := by
  simp [addEntryLocked]

/-- The sender side of `removeEntryLocked`: the nonce leaves the sender's active set, if it
is there, and the cached bounds are repaired. -/
def removeActiveNonceLocked (p : PriorityMempool Tx) (key : TxKey) : PriorityMempool Tx :=
  match p.senders[key.sender]? with
  | some ss =>
    if key.nonce ∈ (p.senderState ss).active then
      p.modifySenderState ss fun s =>
        { s with active := s.active.erase key.nonce }.setActiveRangeOnRemoveLocked key.nonce
    else p
  | none => p

@[simp]
theorem entries_removeActiveNonceLocked (p : PriorityMempool Tx) (key : TxKey) :
    (p.removeActiveNonceLocked key).entries = p.entries := by
  unfold removeActiveNonceLocked
  split
  · split_ifs <;> rfl
  · rfl

/-- `removeEntryLocked`: the inverse bookkeeping. -/
def removeEntryLocked (p : PriorityMempool Tx) (entry : TxEntry Tx) : PriorityMempool Tx :=
  let p := { p with
    priorityIndex := p.priorityIndex.erase entry
    entries := p.entries.erase entry.key }
  (p.removeActiveNonceLocked entry.key).decrementTierLocked entry.tier

@[simp]
theorem entries_removeEntryLocked (p : PriorityMempool Tx) (entry : TxEntry Tx) :
    (p.removeEntryLocked entry).entries = p.entries.erase entry.key := by
  simp [removeEntryLocked]

/-! ### Admission -/

/-- The eviction walk of `canAcceptLocked` from `Back()` towards the front: `none` when
it must reject, else the entries to evict. `exclude` is skipped. -/
def planEvictions (exclude : Option TxKey) (clampedPriority clampedOrder : Int64)
    (targetLen : Int) : Int → List (TxEntry Tx) → Option (List (TxEntry Tx))
  | curLen, nodes =>
    if curLen ≤ targetLen then some []
    else match nodes with
      | [] => none
      | entry :: rest =>
        if exclude = some entry.key then
          planEvictions exclude clampedPriority clampedOrder targetLen curLen rest
        else if !isBetterThan entry clampedPriority clampedOrder then none
        else (planEvictions exclude clampedPriority clampedOrder targetLen (curLen - 1)
          rest).map (entry :: ·)

/-- `canAcceptLocked`: the per-tx block limits first (skipped when the context carries no
block params, and each skipped when non-positive), then capacity, planning evictions of
strictly worse entries from the back of the index. It does not change the pool. -/
def canAcceptLocked (p : PriorityMempool Tx) (ctx : SdkContext)
    (clampedPriority clampedOrder size : Int64) (gas : UInt64) (exclude : Option (TxEntry Tx)) :
    Bool × List (TxEntry Tx) :=
  let withinBlock := match ctx.consensusBlock with
    | some block =>
      !(block.maxBytes > 0 ∧ size > block.maxBytes) &&
        !(block.maxGas > 0 ∧ gas > block.maxGas.toUInt64)
    | none => true
  if !withinBlock then (false, [])
  else if p.maxTx > 0 then
    let curLen : Int := p.entries.size -
      (match exclude with | some e => if e.key ∈ p.entries then 1 else 0 | none => 0)
    match planEvictions (exclude.map TxEntry.key) clampedPriority clampedOrder (p.maxTx - 1)
        curLen (p.priorityIndex.toList.reverse.map Prod.snd) with
    | some evictList => (true, evictList)
    | none => (false, [])
  else (true, [])

end PriorityMempool

end Initia.Abcipp
