import Initia.Abcipp.Entry

/-!
# Per-sender state: nonce ranges and clamped ranks

`senderState` keeps a sender's active entries (in the priority index) and queued
entries (future nonces), the cached bounds of both nonce sets and the cached on-chain
sequence. The bounds are maintained incrementally: an insertion widens them, a removal
repairs them only when the removed nonce was a bound, by scanning towards the other
bound (`setActiveRangeOnRemoveLocked`). The active and queued variants of these
functions differ only in the fields they touch, so each pair is one definition on a
nonce map and its two bounds (`rangeOnInsert`, `rangeOnRemove`).

The scans run on `uint64` and wrap as Go's do. Each stops at the latest when the
cursor reaches the far bound, after at most `2^64` steps, so the model runs them on that
much fuel.

Source: `abcipp/mempool_sender_state.go`.
-/

namespace Initia.Abcipp

variable {Tx : Type}

/-- A Go `map[uint64]*txEntry`, keyed by nonce. -/
abbrev NonceMap (Tx : Type) := Std.TreeMap UInt64 (TxEntry Tx) compare

/-! ### Bound maintenance, shared by the active and queued sets -/

/-- The upward boundary scan `for n := from; ; n++ { if n ∈ m {…}; if n >= hi {…} }`:
the first nonce of `m` met, or `hi` once the cursor reaches it. -/
def scanUp (m : NonceMap Tx) (hi : UInt64) : Nat → UInt64 → UInt64
  | 0, _ => hi
  | fuel + 1, n => if n ∈ m then n else if n ≥ hi then hi else scanUp m hi fuel (n + 1)

/-- The downward boundary scan `for n := from; ; n-- { if n ∈ m {…}; if n <= lo {…} }`. -/
def scanDown (m : NonceMap Tx) (lo : UInt64) : Nat → UInt64 → UInt64
  | 0, _ => lo
  | fuel + 1, n => if n ∈ m then n else if n ≤ lo then lo else scanDown m lo fuel (n - 1)

/-- The bounds after inserting `nonce` into `m` (`m` already holds it). -/
def rangeOnInsert (m : NonceMap Tx) (lo hi nonce : UInt64) : UInt64 × UInt64 :=
  if m.size = 1 then (nonce, nonce) else (min lo nonce, max hi nonce)

/-- The bounds after deleting `removed` from `m` (`m` no longer holds it): reset when
empty, otherwise repaired only when `removed` was a bound. -/
def rangeOnRemove (m : NonceMap Tx) (lo hi removed : UInt64) : UInt64 × UInt64 :=
  if m.size = 0 then (0, 0)
  else if removed = lo then (scanUp m hi UInt64.size (lo + 1), hi)
  else if removed = hi then (lo, scanDown m lo UInt64.size (hi - 1))
  else (lo, hi)

/-! ### The sender state -/

/-- `senderState`. A zero `gapSince` (Go's zero `time.Time`) is `none`; times are
nanoseconds. -/
structure SenderState (Tx : Type) where
  onChainSeq : UInt64
  gapSince : Option Int
  activeMin : UInt64
  activeMax : UInt64
  active : NonceMap Tx
  queuedMin : UInt64
  queuedMax : UInt64
  queued : NonceMap Tx

namespace SenderState

/-- The state `getOrCreateSenderLocked` allocates. -/
def empty : SenderState Tx :=
  ⟨0, none, 0, 0, ∅, 0, 0, ∅⟩

/-- `isEmpty`. -/
def isEmpty (s : SenderState Tx) : Bool :=
  s.active.size = 0 && s.queued.size = 0

/-- `nextExpectedNonce`: past the active tail, or the on-chain sequence when no tx is
active. -/
def nextExpectedNonce (s : SenderState Tx) : UInt64 :=
  if s.active.size = 0 then s.onChainSeq else max s.onChainSeq (s.activeMax + 1)

/-- `setOnChainSeqLocked`: the cached sequence never moves back. -/
def setOnChainSeqLocked (s : SenderState Tx) (seq : UInt64) : SenderState Tx :=
  { s with onChainSeq := max s.onChainSeq seq }

/-- `resetActiveRangeLocked`. -/
def resetActiveRangeLocked (s : SenderState Tx) : SenderState Tx :=
  { s with activeMin := 0, activeMax := 0 }

/-- `setActiveRangeOnInsertLocked`. -/
def setActiveRangeOnInsertLocked (s : SenderState Tx) (nonce : UInt64) : SenderState Tx :=
  let r := rangeOnInsert s.active s.activeMin s.activeMax nonce
  { s with activeMin := r.1, activeMax := r.2 }

/-- `setActiveRangeOnRemoveLocked`. -/
def setActiveRangeOnRemoveLocked (s : SenderState Tx) (removedNonce : UInt64) :
    SenderState Tx :=
  let r := rangeOnRemove s.active s.activeMin s.activeMax removedNonce
  { s with activeMin := r.1, activeMax := r.2 }

/-- `resetQueuedRangeLocked`. -/
def resetQueuedRangeLocked (s : SenderState Tx) : SenderState Tx :=
  { s with queuedMin := 0, queuedMax := 0 }

/-- `setQueuedRangeOnInsertLocked`. -/
def setQueuedRangeOnInsertLocked (s : SenderState Tx) (nonce : UInt64) : SenderState Tx :=
  let r := rangeOnInsert s.queued s.queuedMin s.queuedMax nonce
  { s with queuedMin := r.1, queuedMax := r.2 }

/-- `setQueuedRangeOnRemoveLocked`. -/
def setQueuedRangeOnRemoveLocked (s : SenderState Tx) (removedNonce : UInt64) :
    SenderState Tx :=
  let r := rangeOnRemove s.queued s.queuedMin s.queuedMax removedNonce
  { s with queuedMin := r.1, queuedMax := r.2 }

/-! ### Clamped ranks -/

/-- One clamp of `computeClampedRankLocked`: a rank better than `prev`'s is replaced by
`prev`'s. -/
def clampTo (prev : TxEntry Tx) (clampedPriority clampedOrder : Int64) : Int64 × Int64 :=
  if clampedPriority > prev.clampedPriority ∨
      (clampedPriority = prev.clampedPriority ∧ clampedOrder < prev.clampedOrder) then
    (prev.clampedPriority, prev.clampedOrder)
  else (clampedPriority, clampedOrder)

/-- `computeClampedRankLocked`: the rank of a tx entering the active set, clamped to its
direct predecessor when that is active, else to the active tail when it extends past it. -/
def computeClampedRankLocked (s : SenderState Tx) (tier priority order : Int64)
    (nonce : UInt64) : Int64 × Int64 :=
  let clampedPriority := scoreByTierPriority tier priority
  let clampedOrder := order
  match (if nonce > 0 then s.active[nonce - 1]? else none) with
  | some prev => clampTo prev clampedPriority clampedOrder
  | none =>
    if s.active.size > 0 ∧ nonce > s.activeMax then
      match s.active[s.activeMax]? with
      | some tail => clampTo tail clampedPriority clampedOrder
      | none => (clampedPriority, clampedOrder)
    else (clampedPriority, clampedOrder)

end SenderState

end Initia.Abcipp
