import Initia.Abcipp.Pool

/-!
# The queued pool

Future-nonce transactions wait in their sender's queued map until their predecessors
are active. `insertQueuedLocked` admits one under the per-sender and global limits
(evicting the sender's highest nonce when the sender is full),
`collectPromotableLocked` takes out the contiguous run starting at the sender's cursor,
and `requeueEntriesLocked` puts back a run whose promotion failed. All three act through a
sender-state pointer.

Source: `abcipp/mempool_insert.go`.
-/

namespace Initia.Abcipp

/-- The errors `Insert` returns, with the data of their messages. -/
inductive InsertError
  /-- An error of `txKeyFromTx`. -/
  | txKey (err : String)
  /-- An error of the tx encoder. -/
  | txEncoder (err : String)
  /-- "tx does not implement FeeTx". -/
  | notFeeTx
  /-- "failed to fetch account sequence for sender %s". -/
  | fetchSequenceFailed (sender : String)
  /-- `ErrWrongSequence`: "tx nonce %d is stale for sender %s (expected >= %d)". -/
  | staleNonce (nonce : UInt64) (sender : String) (expected : UInt64)
  /-- `ErrWrongSequence`: "future nonce tx requires extension option %s". -/
  | futureNonceWithoutExtension
  /-- `ErrTxInMempoolCache`: "active tx with nonce %d for sender %s has priority %d >=
  replacement priority %d". -/
  | activeUnderpriced (nonce : UInt64) (sender : String) (existing replacement : Int64)
  /-- `ErrTxInMempoolCache`: "queued tx with nonce %d for sender %s has priority %d >=
  replacement priority %d". -/
  | queuedUnderpriced (nonce : UInt64) (sender : String) (existing replacement : Int64)
  /-- `sdkmempool.ErrMempoolTxMaxCapacity`. -/
  | maxCapacity
  deriving DecidableEq, Repr

namespace PriorityMempool

variable {Tx : Type}

/-- The body the queued-removal loops share: `delete(ss.queued, n)`,
`queuedCount.Add(-1)`, `setQueuedRangeOnRemoveLocked(n)`. -/
def dropQueuedLocked (p : PriorityMempool Tx) (ss : Nat) (nonce : UInt64) :
    PriorityMempool Tx :=
  let p := p.modifySenderState ss fun s =>
    { s with queued := s.queued.erase nonce }.setQueuedRangeOnRemoveLocked nonce
  { p with queuedCount := p.queuedCount - 1 }

@[simp]
theorem entries_dropQueuedLocked (p : PriorityMempool Tx) (ss : Nat) (nonce : UInt64) :
    (p.dropQueuedLocked ss nonce).entries = p.entries :=
  rfl

/-- The body the queued-insertion paths share: `ss.queued[n] = entry`,
`queuedCount.Add(1)`, `setQueuedRangeOnInsertLocked(n)`. -/
def putQueuedLocked (p : PriorityMempool Tx) (ss : Nat) (entry : TxEntry Tx) :
    PriorityMempool Tx :=
  let p := p.modifySenderState ss fun s =>
    { s with queued := s.queued.insert entry.key.nonce entry }.setQueuedRangeOnInsertLocked
      entry.key.nonce
  { p with queuedCount := p.queuedCount + 1 }

@[simp]
theorem entries_putQueuedLocked (p : PriorityMempool Tx) (ss : Nat) (entry : TxEntry Tx) :
    (p.putQueuedLocked ss entry).entries = p.entries :=
  rfl

/-- `insertQueuedLocked`: `(inserted, evicted, err)`. A same-nonce replacement needs a
strictly higher priority; a full sender swaps out its highest nonce for a lower one; the
global limit is checked only when the sender is not full. -/
def insertQueuedLocked (p : PriorityMempool Tx) (ss : Nat) (key : TxKey) (entry : TxEntry Tx) :
    (Bool × Option (TxEntry Tx) × Option InsertError) × PriorityMempool Tx :=
  let s := p.senderState ss
  match s.queued[key.nonce]? with
  | some existing =>
    if entry.priority ≤ existing.priority then
      ((false, none,
        some (.queuedUnderpriced key.nonce key.sender existing.priority entry.priority)), p)
    else
      ((true, some existing, none),
        p.modifySenderState ss fun s => { s with queued := s.queued.insert key.nonce entry })
  | none =>
    if p.maxQueuedPerSender > 0 ∧ (s.queued.size : Int) ≥ p.maxQueuedPerSender then
      let highestNonce := s.queued.keys.foldl (fun h n => if n > h then n else h) 0
      if key.nonce ≥ highestNonce then ((false, none, some .maxCapacity), p)
      else
        let evicted := s.queued[highestNonce]?
        let p := p.dropQueuedLocked ss highestNonce
        ((true, evicted, none), p.putQueuedLocked ss entry)
    else if p.maxQueuedTotal > 0 ∧ p.queuedCount.toInt ≥ p.maxQueuedTotal then
      ((false, none, some .maxCapacity), p)
    else ((true, none, none), p.putQueuedLocked ss entry)

/-- The four outcomes of `insertQueuedLocked`: a refusal that changes nothing, a
same-nonce replacement, a swap with the sender's highest nonce, and a plain insertion. -/
theorem insertQueuedLocked_cases (p : PriorityMempool Tx) (ss : Nat) (key : TxKey)
    (entry : TxEntry Tx) :
    (∃ err, p.insertQueuedLocked ss key entry = ((false, none, some err), p)) ∨
    (∃ existing, (p.senderState ss).queued[key.nonce]? = some existing ∧
      p.insertQueuedLocked ss key entry = ((true, some existing, none),
        p.modifySenderState ss fun s => { s with queued := s.queued.insert key.nonce entry })) ∨
    (∃ highest, p.insertQueuedLocked ss key entry =
      ((true, (p.senderState ss).queued[highest]?, none),
        (p.dropQueuedLocked ss highest).putQueuedLocked ss entry)) ∨
    p.insertQueuedLocked ss key entry = ((true, none, none), p.putQueuedLocked ss entry) := by
  unfold insertQueuedLocked
  dsimp only
  cases hq : (p.senderState ss).queued[key.nonce]? with
  | some existing =>
    simp only
    split_ifs
    · exact .inl ⟨_, rfl⟩
    · exact .inr (.inl ⟨existing, rfl, rfl⟩)
  | none =>
    simp only
    split_ifs
    · exact .inl ⟨_, rfl⟩
    · exact .inr (.inr (.inl ⟨_, rfl⟩))
    · exact .inl ⟨_, rfl⟩
    · exact .inr (.inr (.inr rfl))

theorem insertQueuedLocked_refused {p : PriorityMempool Tx} {ss : Nat} {key : TxKey}
    {entry : TxEntry Tx} (h : (p.insertQueuedLocked ss key entry).1.1 = false) :
    (p.insertQueuedLocked ss key entry).2 = p := by
  rcases insertQueuedLocked_cases p ss key entry with
    ⟨_, hr⟩ | ⟨_, _, hr⟩ | ⟨_, hr⟩ | hr <;>
    simp_all

@[simp]
theorem entries_insertQueuedLocked (p : PriorityMempool Tx) (ss : Nat) (key : TxKey)
    (entry : TxEntry Tx) : (p.insertQueuedLocked ss key entry).2.entries = p.entries := by
  -- each outcome only touches the sender's queued map
  rcases insertQueuedLocked_cases p ss key entry with
    ⟨_, hr⟩ | ⟨_, _, hr⟩ | ⟨_, hr⟩ | hr <;>
    rw [hr] <;> rfl

/-- The loop of `collectPromotableLocked` from cursor `next`. Each round removes an entry,
so the queued size bounds the rounds before a lookup misses. -/
def collectFrom (p : PriorityMempool Tx) (ss : Nat) :
    Nat → UInt64 → List (TxEntry Tx) × PriorityMempool Tx
  | 0, _ => ([], p)
  | fuel + 1, next =>
    match (p.senderState ss).queued[next]? with
    | none => ([], p)
    | some entry =>
      let r := collectFrom (p.dropQueuedLocked ss next) ss fuel (next + 1)
      (entry :: r.1, r.2)

@[simp]
theorem entries_collectFrom (p : PriorityMempool Tx) (ss fuel : Nat) (next : UInt64) :
    (p.collectFrom ss fuel next).2.entries = p.entries := by
  induction fuel generalizing p next with
  | zero => rfl
  | succ fuel ih =>
    unfold collectFrom
    split
    · rfl
    · rw [ih, entries_dropQueuedLocked]

/-- `collectPromotableLocked`: take out the queued run that starts at the sender's
`nextExpectedNonce`. -/
def collectPromotableLocked (p : PriorityMempool Tx) (ss : Nat) :
    List (TxEntry Tx) × PriorityMempool Tx :=
  let s := p.senderState ss
  if s.queued.size = 0 then ([], p) else collectFrom p ss s.queued.size s.nextExpectedNonce

@[simp]
theorem entries_collectPromotableLocked (p : PriorityMempool Tx) (ss : Nat) :
    (p.collectPromotableLocked ss).2.entries = p.entries := by
  unfold collectPromotableLocked
  dsimp only
  split_ifs
  · rfl
  · exact entries_collectFrom p ss _ _

/-- `requeueEntriesLocked`: put entries back without checking any limit. -/
def requeueEntriesLocked (p : PriorityMempool Tx) (ss : Nat) (entries : List (TxEntry Tx)) :
    PriorityMempool Tx :=
  entries.foldl (fun p entry => p.putQueuedLocked ss entry) p

@[simp]
theorem entries_requeueEntriesLocked (p : PriorityMempool Tx) (ss : Nat)
    (entries : List (TxEntry Tx)) : (p.requeueEntriesLocked ss entries).entries = p.entries := by
  unfold requeueEntriesLocked
  induction entries generalizing p with
  | nil => rfl
  | cons e l ih => rw [List.foldl_cons, ih, entries_putQueuedLocked]

end PriorityMempool

end Initia.Abcipp
