import Initia.Abcipp.Remove

/-!
# Insertion and promotion

`Insert` routes a transaction by its nonce against the sender's cursor
`nextExpectedNonce`: below it only as a same-nonce replacement, above it into the queued
pool (which requires the queued-tx extension), at it (or as a replacement) into the
active set. An active insertion first plans capacity with `canAcceptLocked`, and only
after that succeeds deletes a same-nonce queued tx, the replaced active tx and the
planned victims; it then promotes the queued run the new entry unblocks.

The promotion loop is the same code in `Insert` and `PromoteQueued`, so it is one
definition here, `promoteLocked`. Each promoted entry gets a fresh order, a fresh tier and
a rank clamped to its predecessor; the first one that cannot be admitted is requeued with
everything after it.

Source: `abcipp/mempool_insert.go`.
-/

namespace Initia.Abcipp

namespace PriorityMempool

variable {Tx : Type}

/-- The promotion loop `for idx, pe := range toPromote` of `Insert` and `PromoteQueued`:
the removals it caused, the entries it promoted, and the final pool. -/
def promoteLocked (ctx : SdkContext) (ss : Nat) :
    PriorityMempool Tx → List (TxEntry Tx) →
      Option (List (TxEntry Tx) × List (TxEntry Tx) × PriorityMempool Tx)
  | p, [] => some ([], [], p)
  | p, pe :: rest =>
    let (order, p) := p.nextOrder
    let peCtx := { ctx with txBytes := pe.bytes }
    let tier := selectTier p.tiers peCtx pe.tx
    let rank := (p.senderState ss).computeClampedRankLocked tier pe.priority order pe.key.nonce
    let pe :=
      { pe with
        order := order, tier := tier, clampedPriority := rank.1, clampedOrder := rank.2 }
    let (accepted, ev) := p.canAcceptLocked peCtx rank.1 rank.2 pe.size pe.gas none
    if accepted then do
      let (removed, p) ← p.removeEntriesByReasonLocked ev .capacityEvicted
      let (removed', promoted, p) ← promoteLocked ctx ss (p.addEntryLocked pe) rest
      pure (removed ++ removed', pe :: promoted, p)
    -- requeue the failed entry and all remaining ones to prevent nonce gaps
    else some ([], [], p.requeueEntriesLocked ss (pe :: rest))

/-- The queued branch of `Insert`, for a nonce past the sender's cursor. -/
def insertQueuedPath (I : TxInterface Tx) (p : PriorityMempool Tx) (ss : Nat) (tx : Tx)
    (key : TxKey) (priority size : Int64) (gas : UInt64) (bz : Bytes) :
    Except InsertError Unit × PriorityMempool Tx :=
  if !I.hasQueuedTxExtension tx then (.error .futureNonceWithoutExtension, p)
  else
    let entry : TxEntry Tx :=
      { tx := tx, priority := priority, size := size, key := key, sequence := key.nonce,
        order := 0, tier := queuedTier, gas := gas, bytes := bz, clampedPriority := 0,
        clampedOrder := 0 }
    let ((inserted, evicted, err), p) := p.insertQueuedLocked ss key entry
    if !inserted then (.error (err.getD .maxCapacity), p)
    else
      let p := match evicted with
        | some evicted => p.enqueueEvent .txRemoved evicted.bytes
        | none => p
      (.ok (), p.enqueueEvent .txQueued entry.bytes)

@[simp]
theorem entries_insertQueuedPath (I : TxInterface Tx) (p : PriorityMempool Tx) (ss : Nat) (tx : Tx)
    (key : TxKey) (priority size : Int64) (gas : UInt64) (bz : Bytes) :
    (p.insertQueuedPath I ss tx key priority size gas bz).2.entries = p.entries := by
  unfold insertQueuedPath
  dsimp only
  split_ifs
  · rfl
  · simp
  · split <;> simp

/-- The queued branch fails only before it changes anything. -/
theorem insertQueuedPath_error {I : TxInterface Tx} {p p' : PriorityMempool Tx} {ss : Nat}
    {tx : Tx} {key : TxKey} {priority size : Int64} {gas : UInt64} {bz : Bytes}
    {err : InsertError}
    (h : p.insertQueuedPath I ss tx key priority size gas bz = (.error err, p')) : p' = p := by
  unfold insertQueuedPath at h
  dsimp only at h
  split_ifs at h with hext hins
  · simp_all
  · rw [insertQueuedLocked_refused (by simpa using hins)] at h
    simp_all
  · simp at h

/-- The deletions the active branch of `Insert` defers until capacity is confirmed: the
same-nonce queued tx, then the replaced active tx. -/
def deleteReplacedLocked (p : PriorityMempool Tx) (ss : Nat) (nonce : UInt64)
    (existing queuedToRemove : Option (TxEntry Tx)) : List (TxEntry Tx) × PriorityMempool Tx :=
  let (removed, p) := match queuedToRemove with
    | some queued => ([queued], p.dropQueuedLocked ss nonce)
    | none => ([], p)
  match existing with
  | some ex => (removed ++ [ex], p.removeEntryLocked ex)
  | none => (removed, p)

/-- The admission step of the active branch of `Insert`: capacity planning, then the
deferred deletions, the insertion, the promotions and the events. -/
def acceptActiveLocked (p : PriorityMempool Tx) (ss : Nat) (ctx : SdkContext) (key : TxKey)
    (existing queuedToRemove : Option (TxEntry Tx)) (entry : TxEntry Tx) :
    Option (Except InsertError Unit × PriorityMempool Tx) :=
  let rank := (p.senderState ss).computeClampedRankLocked entry.tier entry.priority
    entry.order key.nonce
  let entry := { entry with clampedPriority := rank.1, clampedOrder := rank.2 }
  let (ok, ev) := p.canAcceptLocked ctx rank.1 rank.2 entry.size entry.gas existing
  if !ok then some (.error .maxCapacity, p)
  else do
    let (removed, p) := p.deleteReplacedLocked ss key.nonce existing queuedToRemove
    let (evicted, p) ← p.removeEntriesByReasonLocked ev .capacityEvicted
    let p := p.addEntryLocked entry
    -- promote the queued run the new entry unblocks
    let (toPromote, p) := p.collectPromotableLocked ss
    let (removed', promoted, p) ← promoteLocked ctx ss p toPromote
    let p := p.enqueueRemovedEvents (removed ++ evicted ++ removed')
    let p := p.enqueueEvent .txInserted entry.bytes
    pure (.ok (), promoted.foldl (fun p pe => p.enqueueEvent .txInserted pe.bytes) p)

/-- The only failure of the admission step is the capacity check, made before any
deletion. -/
theorem acceptActiveLocked_error {p p' : PriorityMempool Tx} {ss : Nat} {ctx : SdkContext}
    {key : TxKey} {existing queuedToRemove : Option (TxEntry Tx)} {entry : TxEntry Tx}
    {err : InsertError}
    (h : p.acceptActiveLocked ss ctx key existing queuedToRemove entry = some (.error err, p')) :
    p' = p := by
  simp only [acceptActiveLocked] at h
  split_ifs at h with hok
  · simp_all
  · -- past the check every path ends in `.ok`
    simp only [bind, Option.bind_eq_some_iff] at h
    obtain ⟨_, _, _, _, h⟩ := h
    simp at h

/-- The active branch of `Insert`: the replacement checks, then `acceptActiveLocked`. -/
def insertActivePath (p : PriorityMempool Tx) (ss : Nat) (ctx : SdkContext) (tx : Tx)
    (key : TxKey) (priority size : Int64) (gas : UInt64) (bz : Bytes) :
    Option (Except InsertError Unit × PriorityMempool Tx) :=
  let (order, p) := p.nextOrder
  let entry : TxEntry Tx :=
    { tx := tx, priority := priority, size := size, key := key, sequence := key.nonce,
      order := order, tier := selectTier p.tiers ctx tx, gas := gas, bytes := bz,
      clampedPriority := 0, clampedOrder := 0 }
  let existing := p.entries[key]?
  -- a queued tx of the same nonce is deleted only once capacity is confirmed
  let queuedToRemove := (p.senderState ss).queued[key.nonce]?
  match existing, queuedToRemove with
  | some ex, _ =>
    if entry.priority ≤ ex.priority then
      some (.error (.activeUnderpriced key.nonce key.sender ex.priority entry.priority), p)
    else p.acceptActiveLocked ss ctx key existing queuedToRemove entry
  | none, some queued =>
    if entry.priority ≤ queued.priority then
      some (.error (.queuedUnderpriced key.nonce key.sender queued.priority entry.priority), p)
    else p.acceptActiveLocked ss ctx key existing queuedToRemove entry
  | none, none => p.acceptActiveLocked ss ctx key existing queuedToRemove entry

/-- The active branch fails with only the order counter advanced. -/
theorem insertActivePath_error {p p' : PriorityMempool Tx} {ss : Nat} {ctx : SdkContext}
    {tx : Tx} {key : TxKey} {priority size : Int64} {gas : UInt64} {bz : Bytes}
    {err : InsertError}
    (h : p.insertActivePath ss ctx tx key priority size gas bz = some (.error err, p')) :
    p' = p.nextOrder.2 := by
  unfold insertActivePath at h
  dsimp only at h
  split at h
  · split_ifs at h
    · simp_all
    · exact acceptActiveLocked_error h
  · split_ifs at h
    · simp_all
    · exact acceptActiveLocked_error h
  · exact acceptActiveLocked_error h

/-- Everything `Insert` does once the sender's state is known. -/
def insertLocked (I : TxInterface Tx) (p : PriorityMempool Tx) (ss : Nat) (ctx : SdkContext)
    (tx : Tx) (key : TxKey) (size : Int64) (gas : UInt64) (bz : Bytes) :
    Option (Except InsertError Unit × PriorityMempool Tx) :=
  let s := p.senderState ss
  let nextExpected := s.nextExpectedNonce
  -- same-nonce replacement is allowed even if the cursor has moved forward
  if key.nonce < nextExpected ∧ key ∉ p.entries ∧ key.nonce ∉ s.queued then
    some (.error (.staleNonce key.nonce key.sender nextExpected), p)
  else if key.nonce > nextExpected then
    some (insertQueuedPath I p ss tx key ctx.priority size gas bz)
  else insertActivePath p ss ctx tx key ctx.priority size gas bz

theorem insertLocked_error {I : TxInterface Tx} {p p' : PriorityMempool Tx} {ss : Nat}
    {ctx : SdkContext} {tx : Tx} {key : TxKey} {size : Int64} {gas : UInt64} {bz : Bytes}
    {err : InsertError} (h : p.insertLocked I ss ctx tx key size gas bz = some (.error err, p')) :
    p' = p ∨ p' = p.nextOrder.2 := by
  unfold insertLocked at h
  dsimp only at h
  split_ifs at h
  · simp_all
  · exact .inl (insertQueuedPath_error (Option.some.inj h))
  · exact .inr (insertActivePath_error h)

/-- `Insert`. The account keeper is the one at `ctx`; a sender seen for the first time
starts from its on-chain sequence. `none` means the call does not return. -/
def insert (I : TxInterface Tx) (ak : AccountKeeper) (p : PriorityMempool Tx)
    (ctx : SdkContext) (tx : Tx) : Option (Except InsertError Unit × PriorityMempool Tx) :=
  match txKeyFromTx I tx with
  | .error err => some (.error (.txKey err), p)
  | .ok key =>
    let encoded := if ctx.txBytes.isEmpty then I.txEncoder tx else .ok ctx.txBytes
    match encoded with
    | .error err => some (.error (.txEncoder err), p)
    | .ok bz =>
      -- keep tier and capacity evaluation consistent with the encoded bytes
      let ctx := { ctx with txBytes := bz }
      match I.feeGas tx with
      | none => some (.error .notFeeTx, p)
      | some gas =>
        match p.senders[key.sender]? with
        | some ss => insertLocked I p ss ctx tx key (Int64.ofNat bz.length) gas bz
        | none =>
          let (seq, seqOk) := fetchSequence ak key.sender
          if !seqOk then some (.error (.fetchSequenceFailed key.sender), p)
          else
            let (ss, p) := p.getOrCreateSenderLocked key.sender
            let p := p.modifySenderState ss (·.setOnChainSeqLocked seq)
            insertLocked I p ss ctx tx key (Int64.ofNat bz.length) gas bz

/-! ### Scenarios -/

/-- A pool of capacity `maxTx` with default queue limits and the `fast` tier ahead of the
default one. -/
def fastPool (maxTx : Int) : PriorityMempool SimpleTx :=
  new
    { maxTx := maxTx, maxQueuedPerSender := 0, maxQueuedTotal := 0, queuedGapTTL := 0,
      tiers := [SimpleTx.fastTier] } true true

/-- Inserts by the sender `init1alice` (address `[1]`, on-chain sequence `seq`), each with
its checker priority and no block params. -/
def insertAll (p : PriorityMempool SimpleTx) (seq : UInt64) (txs : List (Int64 × SimpleTx)) :
    Option (PriorityMempool SimpleTx) :=
  txs.foldlM (fun p (priority, tx) =>
    (p.insert (SimpleTx.interface fun _ => "init1alice") (.single [1] seq)
      ⟨priority, tx.bytes, none⟩ tx).map Prod.snd) p

/-- Nonces 0 and 1 enter the fast tier; a replacement of nonce 0 at a higher priority but
outside the tier ranks below nonce 1, whose clamped rank is not recomputed; nonce 2 then
evicts the worst entry, the sender's own head, and the demotion of the head's suffix puts
nonces 0 and 1 back in the queued pool, below the cursor 3. -/
theorem insert_requeues_below_cursor :
    (insertAll (fastPool 2) 0
        [(10, ⟨[1], 0, 10, [10], false, true⟩), (10, ⟨[1], 1, 10, [11], false, true⟩),
          (11, ⟨[1], 0, 10, [20], false, false⟩), (10, ⟨[1], 2, 10, [12], false, true⟩)]).map
      (fun p => ((p.senderState 0).queued.keys, (p.senderState 0).nextExpectedNonce)) =
      some ([0, 1], 3) := by
  decide +kernel

/-! ### Rejected inserts -/

/-- `p'` holds what `p` holds: the same active entries, priority index, queued count, tier
counters and event queues; every sender of `p` still points to the same state, and a
sender new in `p'` has no entry. -/
structure SameContents (p p' : PriorityMempool Tx) : Prop where
  entries : p'.entries = p.entries
  priorityIndex : p'.priorityIndex = p.priorityIndex
  queuedCount : p'.queuedCount = p.queuedCount
  tierDistribution : p'.tierDistribution = p.tierDistribution
  cometQueue : p'.cometQueue = p.cometQueue
  appQueue : p'.appQueue = p.appQueue
  senders : ∀ (sender : String) (ss : Nat), p.senders[sender]? = some ss →
    p'.senders[sender]? = some ss ∧ p'.senderState ss = p.senderState ss
  newSenders : ∀ (sender : String) (ss : Nat), p.senders[sender]? = none →
    p'.senders[sender]? = some ss → (p'.senderState ss).isEmpty

theorem SameContents.refl (p : PriorityMempool Tx) : p.SameContents p :=
  ⟨rfl, rfl, rfl, rfl, rfl, rfl, fun _ _ h => ⟨h, rfl⟩, fun _ _ h h' => by simp [h] at h'⟩

theorem SameContents.nextOrder {p q : PriorityMempool Tx} (h : p.SameContents q) :
    p.SameContents q.nextOrder.2 :=
  ⟨h.1, h.2, h.3, h.4, h.5, h.6, h.7, h.8⟩

/-- Creating a sender state and setting its cursor keeps the contents, provided the new
allocation aliases no live state. -/
theorem sameContents_createSender {p : PriorityMempool Tx} {sender : String} (seq : UInt64)
    (hp : p.PointersAllocated) (hnew : p.senders[sender]? = none) :
    p.SameContents ((p.getOrCreateSenderLocked sender).2.modifySenderState
      (p.getOrCreateSenderLocked sender).1 (·.setOnChainSeqLocked seq)) := by
  simp only [getOrCreateSenderLocked, hnew, modifySenderState]
  refine ⟨rfl, rfl, rfl, rfl, rfl, rfl, fun sender' ss h => ?_, fun sender' ss h h' => ?_⟩
  · have hne : sender ≠ sender' := by rintro rfl; simp [hnew] at h
    have hlt := hp sender' ss h
    refine ⟨by simp [Std.TreeMap.getElem?_insert, hne, h], ?_⟩
    simp [senderState, Std.TreeMap.getElem?_insert, Nat.ne_of_gt hlt]
  · have heq : sender = sender' := by
      by_contra hne
      simp [Std.TreeMap.getElem?_insert, hne, h] at h'
    subst heq
    simp only [Std.TreeMap.getElem?_insert_self, Option.some.injEq] at h'
    subst h'
    simp [senderState, SenderState.isEmpty, SenderState.setOnChainSeqLocked, SenderState.empty]

/-- A failed `Insert` leaves the pool's contents as they were: every error is returned
before the first deletion or insertion, so at most a new, empty sender state and the order
counter differ. -/
theorem insert_error_keeps_contents {I : TxInterface Tx} {ak : AccountKeeper}
    {p p' : PriorityMempool Tx} {ctx : SdkContext} {tx : Tx} {err : InsertError}
    (hp : p.PointersAllocated) (h : p.insert I ak ctx tx = some (.error err, p')) :
    p.SameContents p' := by
  unfold insert at h
  cases hkey : txKeyFromTx I tx with
  | error e => simp only [hkey] at h; cases h; exact .refl p
  | ok key =>
  simp only [hkey] at h
  generalize (if ctx.txBytes.isEmpty then I.txEncoder tx else .ok ctx.txBytes) = encoded at h
  cases encoded with
  | error e => cases h; exact .refl p
  | ok bz =>
  cases hgas : I.feeGas tx with
  | none => simp only [hgas] at h; cases h; exact .refl p
  | some gas =>
  simp only [hgas] at h
  cases hnew : p.senders[key.sender]? with
  | some ss =>
    -- a known sender: the pool, or the pool with its order counter advanced
    simp only [hnew] at h
    rcases insertLocked_error h with rfl | rfl
    · exact .refl _
    · exact (SameContents.refl p).nextOrder
  | none =>
    -- a new sender: its state is created before any check can fail
    simp only [hnew] at h
    split_ifs at h
    · cases h; exact .refl p
    · rcases insertLocked_error h with rfl | rfl
      · exact sameContents_createSender _ hp hnew
      · exact (sameContents_createSender _ hp hnew).nextOrder

/-- A future nonce without the queued-tx extension is refused after the sender's state was
created. -/
theorem insert_error_keeps_contents_future_nonce :
    (fastPool 0).PointersAllocated ∧
      ∃ p', (fastPool 0).insert (SimpleTx.interface fun _ => "init1alice") (.single [1] 0)
          ⟨10, [7], none⟩ ⟨[1], 5, 10, [7], false, false⟩ =
          some (.error .futureNonceWithoutExtension, p') ∧ (fastPool 0).SameContents p' := by
  have hp : (fastPool 0).PointersAllocated := by
    intro sender ss h
    simp [fastPool, new] at h
  have h : (fastPool 0).insert (SimpleTx.interface fun _ => "init1alice") (.single [1] 0)
      ⟨10, [7], none⟩ ⟨[1], 5, 10, [7], false, false⟩ =
      some (.error .futureNonceWithoutExtension, _) := rfl
  exact ⟨hp, _, h, insert_error_keeps_contents hp h⟩

end PriorityMempool

end Initia.Abcipp
