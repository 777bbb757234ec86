import Initia.Abcipp.Machine
import Initia.Lib.Fold

/-!
# Well-formed entries, over every run

`Insert` builds each entry the mempool ever holds from the transaction itself: the size
is the length of the encoded bytes, the gas is `GetGas`, the key is `txKeyFromTx` and the
sequence is the key's nonce. Promotion and demotion later rewrite only an entry's rank
fields (order, tier, clamped rank), so these facts hold of every entry anywhere in the
pool: the priority index, the global `entries` map, and the active and queued maps of
every sender state on the heap. Together with the heap discipline (every sender pointer
was allocated) they form `PriorityMempool.WellFormed`, which every call keeps.

Each operation gets one preservation lemma, proved from the lemmas of the operations it
calls; entries in flight (collected for promotion, then promoted or requeued) are carried
as lists of well-formed entries.
-/

namespace Initia.Abcipp

open Std.TreeMap

variable {Tx : Type} (I : TxInterface Tx)

/-- What `Insert` establishes of an entry from its transaction. -/
structure TxEntry.WellFormed (e : TxEntry Tx) : Prop where
  size_eq : e.size = Int64.ofNat e.bytes.length
  feeGas_eq : I.feeGas e.tx = some e.gas
  key_eq : txKeyFromTx I e.tx = .ok e.key
  sequence_eq : e.sequence = e.key.nonce

/-- Every entry of a sender's active and queued maps is well formed. -/
def SenderState.WellFormed (s : SenderState Tx) : Prop :=
  s.active.AllBindings (fun _ e => e.WellFormed I) ∧
    s.queued.AllBindings (fun _ e => e.WellFormed I)

/-- The pool invariant: sender pointers are allocated and every stored entry is well
formed. -/
structure PriorityMempool.WellFormed (p : PriorityMempool Tx) : Prop where
  pointers : p.PointersAllocated
  index : p.priorityIndex.AllBindings fun e v => e.WellFormed I ∧ v.WellFormed I
  entries : p.entries.AllBindings fun _ e => e.WellFormed I
  senderStates : p.senderStates.AllBindings fun _ s => s.WellFormed I

variable {I}

/-! ### Entries and sender states -/

namespace TxEntry

/-- The rank fields are not part of well-formedness. -/
theorem WellFormed.withRank {e : TxEntry Tx} (h : e.WellFormed I) {order tier cp co : Int64} :
    ({ e with order := order, tier := tier, clampedPriority := cp, clampedOrder := co } :
      TxEntry Tx).WellFormed I :=
  ⟨h.1, h.2, h.3, h.4⟩

end TxEntry

namespace SenderState

theorem wellFormed_empty : (SenderState.empty : SenderState Tx).WellFormed I :=
  ⟨allBindings_emptyc, allBindings_emptyc⟩

end SenderState

namespace PriorityMempool

variable {p : PriorityMempool Tx}

/-! ### The primitives -/

theorem WellFormed.senderState (h : p.WellFormed I) (ss : Nat) :
    (p.senderState ss).WellFormed I :=
  h.senderStates.getD SenderState.wellFormed_empty

theorem WellFormed.modifySenderState (h : p.WellFormed I) (ss : Nat)
    (f : SenderState Tx → SenderState Tx) (hf : ∀ s, s.WellFormed I → (f s).WellFormed I) :
    (p.modifySenderState ss f).WellFormed I :=
  ⟨h.pointers, h.index, h.entries, h.senderStates.insert (hf _ (h.senderState ss))⟩

theorem WellFormed.nextOrder (h : p.WellFormed I) : p.nextOrder.2.WellFormed I :=
  ⟨h.1, h.2, h.3, h.4⟩

theorem WellFormed.enqueueEvent (h : p.WellFormed I) {t : AppMempoolEventType} {b : Bytes} :
    (p.enqueueEvent t b).WellFormed I := by
  unfold PriorityMempool.enqueueEvent
  split_ifs <;> exact ⟨h.1, h.2, h.3, h.4⟩

theorem WellFormed.enqueueRemovedEvents (h : p.WellFormed I) {l : List (TxEntry Tx)} :
    (p.enqueueRemovedEvents l).WellFormed I :=
  List.foldlRecOn l _ h fun _ hq _ _ => hq.enqueueEvent

/-- The `EventTxInserted` loop that ends `Insert` and `PromoteQueued`. -/
theorem WellFormed.enqueueInserted (h : p.WellFormed I) (l : List (TxEntry Tx)) :
    (l.foldl (fun p e => p.enqueueEvent .txInserted e.bytes) p).WellFormed I :=
  List.foldlRecOn l _ h fun _ hq _ _ => hq.enqueueEvent

theorem WellFormed.getOrCreateSenderLocked (h : p.WellFormed I) (sender : String) :
    (p.getOrCreateSenderLocked sender).2.WellFormed I := by
  unfold PriorityMempool.getOrCreateSenderLocked
  split
  · exact h
  · refine ⟨fun s ss hs => ?_, h.index, h.entries,
      h.senderStates.insert SenderState.wellFormed_empty⟩
    simp only [Std.TreeMap.getElem?_insert] at hs
    split_ifs at hs
    · cases hs
      exact Nat.lt_succ_self _
    · exact Nat.lt_succ_of_lt (h.pointers s ss hs)

/-- Dropping a sender's pointer keeps the heap discipline. -/
theorem WellFormed.eraseSender (h : p.WellFormed I) (sender : String) :
    ({ p with senders := p.senders.erase sender } : PriorityMempool Tx).WellFormed I := by
  refine ⟨fun s ss hs => ?_, h.index, h.entries, h.senderStates⟩
  simp only [Std.TreeMap.getElem?_erase] at hs
  split_ifs at hs
  exact h.pointers s ss hs

theorem WellFormed.cleanupSenderLocked (h : p.WellFormed I) (sender : String) :
    (p.cleanupSenderLocked sender).WellFormed I := by
  unfold PriorityMempool.cleanupSenderLocked
  split
  · split_ifs
    · exact h.eraseSender sender
    · exact h
  · exact h

/-! ### The active set and the queued pool -/

theorem WellFormed.incrementTierLocked (h : p.WellFormed I) (tier : Int64) :
    (p.incrementTierLocked tier).WellFormed I := by
  unfold PriorityMempool.incrementTierLocked
  dsimp only
  split_ifs <;> exact ⟨h.1, h.2, h.3, h.4⟩

theorem WellFormed.decrementTierLocked (h : p.WellFormed I) (tier : Int64) :
    (p.decrementTierLocked tier).WellFormed I := by
  unfold PriorityMempool.decrementTierLocked
  dsimp only
  split_ifs
  · split
    · split_ifs <;> exact ⟨h.1, h.2, h.3, h.4⟩
    · exact h
  · exact h

theorem WellFormed.addEntryLocked (h : p.WellFormed I) {e : TxEntry Tx} (he : e.WellFormed I) :
    (p.addEntryLocked e).WellFormed I := by
  unfold PriorityMempool.addEntryLocked
  have h1 : ({ p with
      priorityIndex := p.priorityIndex.insert e e
      entries := p.entries.insert e.key e } : PriorityMempool Tx).WellFormed I :=
    ⟨h.pointers, h.index.insert ⟨he, he⟩, h.entries.insert he, h.senderStates⟩
  dsimp only
  generalize hg : PriorityMempool.getOrCreateSenderLocked _ e.key.sender = g
  obtain ⟨ss, q⟩ := g
  have h2 : q.WellFormed I := by
    have := h1.getOrCreateSenderLocked e.key.sender
    rwa [hg] at this
  have h3 := h2.modifySenderState ss
    (fun s => ({ s with active := s.active.insert e.key.nonce e } : SenderState Tx)
      |>.setActiveRangeOnInsertLocked e.key.nonce) fun s hs => ⟨hs.1.insert he, hs.2⟩
  exact h3.incrementTierLocked e.tier

theorem WellFormed.removeActiveNonceLocked (h : p.WellFormed I) (key : TxKey) :
    (p.removeActiveNonceLocked key).WellFormed I := by
  unfold PriorityMempool.removeActiveNonceLocked
  split
  · split_ifs
    · exact h.modifySenderState _ _ fun s hs => ⟨hs.1.erase, hs.2⟩
    · exact h
  · exact h

theorem WellFormed.removeEntryLocked (h : p.WellFormed I) (e : TxEntry Tx) :
    (p.removeEntryLocked e).WellFormed I := by
  have h1 : ({ p with
      priorityIndex := p.priorityIndex.erase e
      entries := p.entries.erase e.key } : PriorityMempool Tx).WellFormed I :=
    ⟨h.pointers, h.index.erase, h.entries.erase, h.senderStates⟩
  exact (h1.removeActiveNonceLocked e.key).decrementTierLocked e.tier

theorem WellFormed.dropQueuedLocked (h : p.WellFormed I) (ss : Nat) (nonce : UInt64) :
    (p.dropQueuedLocked ss nonce).WellFormed I :=
  have h1 := h.modifySenderState ss
    (fun s => ({ s with queued := s.queued.erase nonce } : SenderState Tx)
      |>.setQueuedRangeOnRemoveLocked nonce) fun _ hs => ⟨hs.1, hs.2.erase⟩
  ⟨h1.1, h1.2, h1.3, h1.4⟩

theorem WellFormed.putQueuedLocked (h : p.WellFormed I) (ss : Nat) {e : TxEntry Tx}
    (he : e.WellFormed I) : (p.putQueuedLocked ss e).WellFormed I :=
  have h1 := h.modifySenderState ss
    (fun s => ({ s with queued := s.queued.insert e.key.nonce e } : SenderState Tx)
      |>.setQueuedRangeOnInsertLocked e.key.nonce) fun _ hs => ⟨hs.1, hs.2.insert he⟩
  ⟨h1.1, h1.2, h1.3, h1.4⟩

theorem WellFormed.insertQueuedLocked (h : p.WellFormed I) (ss : Nat) (key : TxKey)
    {e : TxEntry Tx} (he : e.WellFormed I) : (p.insertQueuedLocked ss key e).2.WellFormed I := by
  rcases insertQueuedLocked_cases p ss key e with
    ⟨_, hr⟩ | ⟨_, _, hr⟩ | ⟨_, hr⟩ | hr <;>
    simp only [hr]
  · exact h
  · exact h.modifySenderState _ _ fun _ hs => ⟨hs.1, hs.2.insert he⟩
  · exact (h.dropQueuedLocked _ _).putQueuedLocked _ he
  · exact h.putQueuedLocked _ he

/-- The collected run comes out of the sender's queued map, so it is well formed. -/
theorem WellFormed.collectFrom (h : p.WellFormed I) (ss fuel : Nat) (next : UInt64) :
    (∀ e ∈ (p.collectFrom ss fuel next).1, e.WellFormed I) ∧
      (p.collectFrom ss fuel next).2.WellFormed I := by
  induction fuel generalizing p next with
  | zero => exact ⟨by simp [PriorityMempool.collectFrom], h⟩
  | succ fuel ih =>
    cases hq : (p.senderState ss).queued[next]? with
    | none => simp only [PriorityMempool.collectFrom, hq]; exact ⟨by simp, h⟩
    | some entry =>
      simp only [PriorityMempool.collectFrom, hq]
      obtain ⟨hl, hp⟩ := ih (h.dropQueuedLocked ss next) (next + 1)
      refine ⟨fun e he => ?_, hp⟩
      rcases List.mem_cons.mp he with rfl | he
      · exact (h.senderState ss).2.of_getElem? hq
      · exact hl e he

theorem WellFormed.collectPromotableLocked (h : p.WellFormed I) (ss : Nat) :
    (∀ e ∈ (p.collectPromotableLocked ss).1, e.WellFormed I) ∧
      (p.collectPromotableLocked ss).2.WellFormed I := by
  unfold PriorityMempool.collectPromotableLocked
  dsimp only
  split_ifs
  · exact ⟨by simp, h⟩
  · exact h.collectFrom _ _ _

theorem WellFormed.requeueEntriesLocked (h : p.WellFormed I) (ss : Nat) {l : List (TxEntry Tx)}
    (hl : ∀ e ∈ l, e.WellFormed I) : (p.requeueEntriesLocked ss l).WellFormed I :=
  List.foldlRecOn l _ h fun _ hq e he => hq.putQueuedLocked ss (hl e he)

/-! ### Removal and demotion -/

theorem WellFormed.removeQueuedStaleLocked (h : p.WellFormed I) (ss : Nat) (seq : UInt64) :
    (p.removeQueuedStaleLocked ss seq).2.WellFormed I := by
  unfold PriorityMempool.removeQueuedStaleLocked
  dsimp only
  split_ifs
  · exact h
  · refine List.foldl_snd_rec (fun q : PriorityMempool Tx => q.WellFormed I) h
      (fun r n hr => ?_) _
    obtain ⟨removed, q⟩ := r
    dsimp only at hr ⊢
    split
    · exact hr
    · exact hr.dropQueuedLocked ss n

theorem WellFormed.removeActiveStaleLocked (h : p.WellFormed I) (ss : Nat) (seq : UInt64) :
    (p.removeActiveStaleLocked ss seq).2.WellFormed I := by
  unfold PriorityMempool.removeActiveStaleLocked
  dsimp only
  split_ifs
  · exact h
  · refine List.foldl_snd_rec (fun q : PriorityMempool Tx => q.WellFormed I) h
      (fun r n hr => ?_) _
    obtain ⟨removed, q⟩ := r
    dsimp only at hr ⊢
    split
    · exact hr
    · exact hr.removeEntryLocked _

theorem WellFormed.removeStaleLocked (h : p.WellFormed I) (ss : Nat) (seq : UInt64) :
    (p.removeStaleLocked ss seq).2.WellFormed I :=
  (h.removeActiveStaleLocked ss seq).removeQueuedStaleLocked ss seq

theorem WellFormed.removeAllQueuedLocked (h : p.WellFormed I) (ss : Nat) :
    (p.removeAllQueuedLocked ss).2.WellFormed I := by
  unfold PriorityMempool.removeAllQueuedLocked
  dsimp only
  split_ifs
  · exact h
  · have h1 := h.modifySenderState ss
      (fun s => ({ s with queued := ∅ } : SenderState Tx).resetQueuedRangeLocked)
      fun _ hs => ⟨hs.1, allBindings_emptyc⟩
    exact ⟨h1.1, h1.2, h1.3, h1.4⟩

theorem WellFormed.removeNonceLocked (h : p.WellFormed I) (ss : Nat) (nonce : UInt64) :
    (p.removeNonceLocked ss nonce).2.WellFormed I := by
  unfold PriorityMempool.removeNonceLocked
  dsimp only
  split
  · exact h.removeEntryLocked _
  · split
    · exact h.dropQueuedLocked ss nonce
    · exact h

/-- One round of the demotion loop: the entry it moves comes from the active map, and only
its tier changes. -/
theorem WellFormed.demoteNonceLocked {ss : Nat} {seq : UInt64} {hasSeq : Bool}
    {acc : List (TxEntry Tx) × PriorityMempool Tx} (h : acc.2.WellFormed I) (nonce : UInt64) :
    (demoteNonceLocked ss seq hasSeq acc nonce).2.WellFormed I := by
  obtain ⟨removed, q⟩ := acc
  unfold PriorityMempool.demoteNonceLocked
  dsimp only at h ⊢
  cases he : (q.senderState ss).active[nonce]? with
  | none => exact h
  | some entry =>
    have hwf : entry.WellFormed I := (h.senderState ss).1.of_getElem? he
    dsimp only
    by_cases hc : hasSeq = true ∧ nonce < seq
    · rw [if_pos hc]
      exact h.removeEntryLocked entry
    · rw [if_neg hc]
      exact (h.removeEntryLocked entry).insertQueuedLocked ss entry.key hwf.withRank

theorem WellFormed.demoteActiveRangeLocked (h : p.WellFormed I) {ss : Nat} {start seq : UInt64}
    {inclusive hasSeq : Bool} {r : List (TxEntry Tx) × PriorityMempool Tx}
    (hr : p.demoteActiveRangeLocked ss start inclusive seq hasSeq = some r) :
    r.2.WellFormed I := by
  unfold PriorityMempool.demoteActiveRangeLocked at hr
  dsimp only at hr
  split_ifs at hr <;> cases hr
  -- every early exit returns the pool unchanged
  all_goals first
    | exact h
    | exact List.foldl_snd_rec (fun q : PriorityMempool Tx => q.WellFormed I) h
        (fun _ n hq => WellFormed.demoteNonceLocked hq n) _

theorem WellFormed.advanceSenderLocked (h : p.WellFormed I) (ss : Nat) (seq : UInt64) :
    (p.advanceSenderLocked ss seq).2.WellFormed I :=
  (h.modifySenderState ss (·.setOnChainSeqLocked seq) fun _ hs => hs).removeStaleLocked ss seq

theorem WellFormed.removeForReasonLocked (h : p.WellFormed I) {ss : Nat} {nonce : UInt64}
    {reason : RemovalReason} {seq : UInt64} {hasSeq : Bool}
    {r : List (TxEntry Tx) × PriorityMempool Tx}
    (hr : p.removeForReasonLocked ss nonce reason seq hasSeq = some r) : r.2.WellFormed I := by
  unfold PriorityMempool.removeForReasonLocked at hr
  cases reason with
  | capacityEvicted => exact h.demoteActiveRangeLocked hr
  | anteRejectedInPrepare =>
    simp only [Option.map_eq_some_iff] at hr
    obtain ⟨⟨demoted, q⟩, hq, rfl⟩ := hr
    have hq' := (h.removeNonceLocked ss nonce).demoteActiveRangeLocked hq
    exact hq'
  | committedInBlock =>
    cases hr
    exact h.removeNonceLocked ss nonce

theorem WellFormed.removeByReasonLocked (h : p.WellFormed I) {sender : String} {nonce : UInt64}
    {reason : RemovalReason} {seq : UInt64} {hasSeq : Bool}
    {r : List (TxEntry Tx) × PriorityMempool Tx}
    (hr : p.removeByReasonLocked sender nonce reason seq hasSeq = some r) :
    r.2.WellFormed I := by
  unfold PriorityMempool.removeByReasonLocked at hr
  cases hs : p.senders[sender]? with
  | none =>
    simp only [hs, Option.some.injEq] at hr
    subst hr
    exact h
  | some ss =>
    simp only [hs, Option.map_eq_some_iff] at hr
    obtain ⟨⟨removed, q⟩, hq, rfl⟩ := hr
    have hq' := h.removeForReasonLocked hq
    dsimp only
    split_ifs
    · exact (hq'.advanceSenderLocked ss seq).cleanupSenderLocked sender
    · exact hq'.cleanupSenderLocked sender

theorem WellFormed.removeEntriesByReasonLocked (h : p.WellFormed I) {l : List (TxEntry Tx)}
    {reason : RemovalReason} {r : List (TxEntry Tx) × PriorityMempool Tx}
    (hr : p.removeEntriesByReasonLocked l reason = some r) : r.2.WellFormed I := by
  unfold PriorityMempool.removeEntriesByReasonLocked at hr
  refine List.foldlM_option_rec (fun r => r.2.WellFormed I) h (fun b hb e _ b' hb' => ?_) hr
  obtain ⟨removed, q⟩ := b
  dsimp only at hb hb'
  split_ifs at hb'
  · -- an active key: removed by reason
    simp only [bind, Option.bind_eq_some_iff] at hb'
    obtain ⟨a, hq', hb'⟩ := hb'
    cases hb'
    have ha := hb.removeByReasonLocked hq'
    exact ha
  · -- a key no longer active is skipped
    cases hb'
    exact hb

theorem WellFormed.removeWithReason (h : p.WellFormed I) {tx : Tx} {reason : RemovalReason}
    {r : Except RemoveError Unit × PriorityMempool Tx}
    (hr : p.removeWithReason I tx reason = some r) : r.2.WellFormed I := by
  unfold PriorityMempool.removeWithReason at hr
  split at hr
  · cases hr
    exact h
  · simp only [bind, Option.bind_eq_some_iff] at hr
    obtain ⟨⟨removed, q⟩, hq, hr⟩ := hr
    have hq' := h.removeByReasonLocked hq
    split_ifs at hr <;> cases hr
    · exact hq'
    · exact hq'.enqueueRemovedEvents

/-! ### Promotion and insertion -/

/-- The promotion loop keeps the pool well formed when the run it promotes is: an accepted
entry enters the active set with a new rank, a refused one goes back to the queued pool
with the rest of the run. -/
theorem WellFormed.promoteLocked {ctx : SdkContext} {ss : Nat} :
    ∀ {p : PriorityMempool Tx} {l : List (TxEntry Tx)}
      {r : List (TxEntry Tx) × List (TxEntry Tx) × PriorityMempool Tx},
      p.WellFormed I → (∀ e ∈ l, e.WellFormed I) → promoteLocked ctx ss p l = some r →
      r.2.2.WellFormed I
  | p, [], r, h, _, hr => by
    simp only [PriorityMempool.promoteLocked, Option.some.injEq] at hr
    subst hr
    exact h
  | p, pe :: rest, r, h, hl, hr => by
    simp only [PriorityMempool.promoteLocked] at hr
    have hpe := hl pe List.mem_cons_self
    have hrest : ∀ e ∈ rest, e.WellFormed I := fun e he => hl e (List.mem_cons_of_mem pe he)
    split_ifs at hr
    · -- accepted: evict, add, and promote the rest
      simp only [bind, Option.bind_eq_some_iff] at hr
      obtain ⟨⟨removed, q⟩, hq, r', hr', hr⟩ := hr
      cases hr
      have hq' := h.nextOrder.removeEntriesByReasonLocked hq
      have hr'' := WellFormed.promoteLocked (hq'.addEntryLocked hpe.withRank) hrest hr'
      exact hr''
    · -- refused: the entry and the rest are requeued
      cases hr
      exact h.nextOrder.requeueEntriesLocked ss fun e he => by
        rcases List.mem_cons.mp he with rfl | he
        · exact hpe.withRank
        · exact hrest e he

theorem WellFormed.insertQueuedPath (h : p.WellFormed I) {ss : Nat} {tx : Tx} {key : TxKey}
    {priority size : Int64} {gas : UInt64} {bz : Bytes} (hsize : size = Int64.ofNat bz.length)
    (hgas : I.feeGas tx = some gas) (hkey : txKeyFromTx I tx = .ok key) :
    (p.insertQueuedPath I ss tx key priority size gas bz).2.WellFormed I := by
  unfold PriorityMempool.insertQueuedPath
  dsimp only
  split_ifs
  · exact h
  · exact h.insertQueuedLocked ss key ⟨hsize, hgas, hkey, rfl⟩
  · -- inserted: the events change nothing stored
    refine WellFormed.enqueueEvent ?_
    split
    · exact WellFormed.enqueueEvent (h.insertQueuedLocked ss key ⟨hsize, hgas, hkey, rfl⟩)
    · exact h.insertQueuedLocked ss key ⟨hsize, hgas, hkey, rfl⟩

theorem WellFormed.deleteReplacedLocked (h : p.WellFormed I) (ss : Nat) (nonce : UInt64)
    (existing queuedToRemove : Option (TxEntry Tx)) :
    (p.deleteReplacedLocked ss nonce existing queuedToRemove).2.WellFormed I := by
  unfold PriorityMempool.deleteReplacedLocked
  -- the queued entry is dropped first, then the replaced active one
  cases queuedToRemove with
  | some queued =>
    have hq := h.dropQueuedLocked ss nonce
    cases existing with
    | some ex => exact hq.removeEntryLocked _
    | none => exact hq
  | none =>
    cases existing with
    | some ex => exact h.removeEntryLocked _
    | none => exact h

theorem WellFormed.acceptActiveLocked (h : p.WellFormed I) {ss : Nat} {ctx : SdkContext}
    {key : TxKey} {existing queuedToRemove : Option (TxEntry Tx)} {entry : TxEntry Tx}
    (he : entry.WellFormed I) {r : Except InsertError Unit × PriorityMempool Tx}
    (hr : p.acceptActiveLocked ss ctx key existing queuedToRemove entry = some r) :
    r.2.WellFormed I := by
  simp only [PriorityMempool.acceptActiveLocked] at hr
  split_ifs at hr
  · cases hr
    exact h
  · simp only [bind, Option.bind_eq_some_iff] at hr
    obtain ⟨⟨evicted, q⟩, hq, ⟨removed', promoted, q'⟩, hq', hr⟩ := hr
    cases hr
    have h1 := (h.deleteReplacedLocked ss key.nonce existing queuedToRemove)
      |>.removeEntriesByReasonLocked hq
    have h3 : q'.WellFormed I := by
      refine WellFormed.promoteLocked ?_ ?_ hq'
      · exact ((h1.addEntryLocked he.withRank).collectPromotableLocked ss).2
      · exact ((h1.addEntryLocked he.withRank).collectPromotableLocked ss).1
    exact h3.enqueueRemovedEvents.enqueueEvent.enqueueInserted promoted

theorem WellFormed.insertActivePath (h : p.WellFormed I) {ss : Nat} {ctx : SdkContext} {tx : Tx}
    {key : TxKey} {priority size : Int64} {gas : UInt64} {bz : Bytes}
    (hsize : size = Int64.ofNat bz.length) (hgas : I.feeGas tx = some gas)
    (hkey : txKeyFromTx I tx = .ok key) {r : Except InsertError Unit × PriorityMempool Tx}
    (hr : p.insertActivePath ss ctx tx key priority size gas bz = some r) : r.2.WellFormed I := by
  unfold PriorityMempool.insertActivePath at hr
  dsimp only at hr
  split at hr
  · split_ifs at hr
    · cases hr
      exact h.nextOrder
    · exact h.nextOrder.acceptActiveLocked ⟨hsize, hgas, hkey, rfl⟩ hr
  · split_ifs at hr
    · cases hr
      exact h.nextOrder
    · exact h.nextOrder.acceptActiveLocked ⟨hsize, hgas, hkey, rfl⟩ hr
  · exact h.nextOrder.acceptActiveLocked ⟨hsize, hgas, hkey, rfl⟩ hr

theorem WellFormed.insertLocked (h : p.WellFormed I) {ss : Nat} {ctx : SdkContext} {tx : Tx}
    {key : TxKey} {size : Int64} {gas : UInt64} {bz : Bytes}
    (hsize : size = Int64.ofNat bz.length) (hgas : I.feeGas tx = some gas)
    (hkey : txKeyFromTx I tx = .ok key) {r : Except InsertError Unit × PriorityMempool Tx}
    (hr : p.insertLocked I ss ctx tx key size gas bz = some r) : r.2.WellFormed I := by
  unfold PriorityMempool.insertLocked at hr
  dsimp only at hr
  split_ifs at hr
  · cases hr
    exact h
  · cases hr
    exact h.insertQueuedPath hsize hgas hkey
  · exact h.insertActivePath hsize hgas hkey hr

/-- `Insert` keeps the pool well formed: the entry it builds is well formed by
construction, and a new sender's state is allocated at a fresh address. -/
theorem WellFormed.insert (h : p.WellFormed I) {ak : AccountKeeper} {ctx : SdkContext} {tx : Tx}
    {r : Except InsertError Unit × PriorityMempool Tx} (hr : p.insert I ak ctx tx = some r) :
    r.2.WellFormed I := by
  unfold PriorityMempool.insert at hr
  cases hkey : txKeyFromTx I tx with
  | error e => simp only [hkey] at hr; cases hr; exact h
  | ok key =>
  simp only [hkey] at hr
  generalize hbz : (if ctx.txBytes.isEmpty then I.txEncoder tx else .ok ctx.txBytes) = encoded at hr
  cases encoded with
  | error e => cases hr; exact h
  | ok bz =>
  cases hgas : I.feeGas tx with
  | none => simp only [hgas] at hr; cases hr; exact h
  | some gas =>
  simp only [hgas] at hr
  cases hs : p.senders[key.sender]? with
  | some ss =>
    simp only [hs] at hr
    exact h.insertLocked rfl hgas hkey hr
  | none =>
    simp only [hs] at hr
    split_ifs at hr
    · cases hr
      exact h
    · have hnew := (h.getOrCreateSenderLocked key.sender).modifySenderState
        (p.getOrCreateSenderLocked key.sender).1
        (·.setOnChainSeqLocked (fetchSequence ak key.sender).1) fun _ hs => hs
      exact hnew.insertLocked rfl hgas hkey hr

/-! ### Background reconciliation -/

theorem WellFormed.promoteSenderLocked (h : p.WellFormed I) {ctx : SdkContext}
    {sender : String} {seq : UInt64}
    {r : List (TxEntry Tx) × List (TxEntry Tx) × PriorityMempool Tx}
    (hr : p.promoteSenderLocked ctx sender seq = some r) : r.2.2.WellFormed I := by
  unfold PriorityMempool.promoteSenderLocked at hr
  split at hr
  · cases hr
    exact h
  · rename_i ss _
    simp only [bind, Option.bind_eq_some_iff] at hr
    obtain ⟨⟨removed, promoted, q⟩, hq, hr⟩ := hr
    cases hr
    have h1 := (h.advanceSenderLocked ss seq).collectPromotableLocked ss
    have hq' : q.WellFormed I := by
      refine WellFormed.promoteLocked ?_ ?_ hq
      · exact h1.2
      · exact h1.1
    dsimp only
    split_ifs
    · exact hq'.cleanupSenderLocked sender
    · exact hq'

theorem WellFormed.promoteQueued (h : p.WellFormed I) {ak : AccountKeeper} {ctx : SdkContext}
    {visit : List String} {p' : PriorityMempool Tx} (hr : p.promoteQueued ak ctx visit = some p') :
    p'.WellFormed I := by
  unfold PriorityMempool.promoteQueued at hr
  dsimp only at hr
  split_ifs at hr
  · cases hr
    exact h
  · simp only [bind, Option.bind_eq_some_iff] at hr
    obtain ⟨⟨removed, promoted, q⟩, hq, hr⟩ := hr
    cases hr
    -- the per-sender loop
    have hq' : q.WellFormed I := by
      refine List.foldlM_option_rec (fun r => r.2.2.WellFormed I) h
        (fun b hb sender _ b' hb' => ?_) hq
      obtain ⟨removed, promoted, q⟩ := b
      dsimp only at hb hb'
      split at hb'
      · cases hb'
        exact hb
      · simp only [Option.bind_eq_some_iff] at hb'
        obtain ⟨a, ha, hb'⟩ := hb'
        cases hb'
        exact (hb.promoteSenderLocked ha :)
    -- the cleanup of active-only senders, then the events
    refine WellFormed.enqueueInserted (WellFormed.enqueueRemovedEvents ?_) _
    refine List.foldlRecOn _ _ hq' fun b hb x _ => ?_
    split
    · split_ifs
      · exact hb.cleanupSenderLocked x.1
      · exact hb
    · exact hb

theorem WellFormed.expireQueuedGapLocked (h : p.WellFormed I) (ss : Nat) (now : Int) :
    (p.expireQueuedGapLocked ss now).2.WellFormed I := by
  -- the clock lives beside the maps, so moving it changes nothing stored
  have hclock : ∀ g, (p.modifySenderState ss fun s => { s with gapSince := g }).WellFormed I :=
    fun _ => h.modifySenderState ss _ fun _ hs => hs
  unfold PriorityMempool.expireQueuedGapLocked
  dsimp only
  split_ifs
  · split
    · exact hclock _
    · split_ifs
      · exact (hclock none).removeAllQueuedLocked ss
      · exact h
  · exact hclock none

theorem WellFormed.cleanUpSenderLocked (h : p.WellFormed I) (sender : String) (seq : UInt64)
    (now : Int) : (p.cleanUpSenderLocked sender seq now).WellFormed I := by
  unfold PriorityMempool.cleanUpSenderLocked
  split
  · exact h
  · rename_i ss _
    dsimp only
    exact ((((h.advanceSenderLocked ss seq).enqueueRemovedEvents).expireQueuedGapLocked ss
      now).enqueueRemovedEvents).cleanupSenderLocked sender

/-- `cleanUpEntries` keeps the pool well formed: it drops empty senders, reconciles the
others with their on-chain sequences and removes the heads the ante handler rejects. -/
theorem WellFormed.cleanUpEntries {σ : Type} (h : p.WellFormed I) {ak : AccountKeeper}
    {ante : Option (AnteHandler σ Tx)} {simulate : Option σ} {now : Int}
    {visitSenders visit : List String} {p' : PriorityMempool Tx}
    (hr : p.cleanUpEntries I ak ante simulate now visitSenders visit = some p') :
    p'.WellFormed I := by
  unfold PriorityMempool.cleanUpEntries at hr
  split at hr
  · cases hr
    exact h
  dsimp only at hr
  -- phase 1: empty senders lose their pointer
  generalize hf1 : List.foldl _ (([] : List String), p) visitSenders = r1 at hr
  have h1 : r1.2.WellFormed I := by
    rw [← hf1]
    refine List.foldl_snd_rec (fun q : PriorityMempool Tx => q.WellFormed I) h
      (fun r sender hq => ?_) visitSenders
    obtain ⟨senders, q⟩ := r
    dsimp only at hq ⊢
    split
    · exact hq
    · split_ifs
      · exact hq.eraseSender sender
      · exact hq
  generalize List.foldl _ (∅ : Std.TreeMap String UInt64 compare) r1.1 = seqs at hr
  split_ifs at hr
  · cases hr
    exact h1
  -- phase 3: each sender with a fetched sequence is reconciled
  generalize hf2 : List.foldl _ r1.2 visit = q at hr
  have h2 : q.WellFormed I := by
    rw [← hf2]
    refine List.foldlRecOn _ _ h1 fun b hb sender _ => ?_
    split
    · exact hb
    · exact hb.cleanUpSenderLocked _ _ _
  -- phase 4: the rejected heads are removed
  cases ante with
  | none =>
    cases hr
    exact h2
  | some ante =>
    refine List.foldlM_option_rec (fun q => q.WellFormed I) h2 (fun b hb e _ b' hb' => ?_) hr
    simp only [Option.map_eq_some_iff] at hb'
    obtain ⟨r, hr', rfl⟩ := hb'
    exact hb.removeWithReason hr'

/-! ### Every run -/

theorem wellFormed_new (cfg : PriorityMempoolConfig Tx) (hasEventCh hasAppEventCh : Bool) :
    (new cfg hasEventCh hasAppEventCh).WellFormed I := by
  refine ⟨fun sender ss h => ?_, allBindings_emptyc, allBindings_emptyc, allBindings_emptyc⟩
  simp [PriorityMempool.new] at h

/-- Every call keeps the pool well formed. -/
theorem WellFormed.step {σ : Type} (h : p.WellFormed I) {call : MempoolCall Tx σ}
    {p' : PriorityMempool Tx} (hs : p.step I call = some p') : p'.WellFormed I := by
  cases call with
  | insert ak ctx tx =>
    simp only [PriorityMempool.step, Option.map_eq_some_iff] at hs
    obtain ⟨r, hr, rfl⟩ := hs
    exact h.insert hr
  | removeWithReason tx reason =>
    simp only [PriorityMempool.step, Option.map_eq_some_iff] at hs
    obtain ⟨r, hr, rfl⟩ := hs
    exact h.removeWithReason hr
  | promoteQueued ak ctx visit => exact h.promoteQueued hs
  | cleanUpEntries ak ante simulate now visitSenders visit => exact h.cleanUpEntries hs

/-- Every reachable state is well formed: sender pointers are allocated, and every entry
anywhere in the pool has the size, gas, key and sequence of its transaction. -/
theorem Reachable.wellFormed {σ : Type} {cfg : PriorityMempoolConfig Tx}
    {hasEventCh hasAppEventCh : Bool} (hp : Reachable I cfg hasEventCh hasAppEventCh σ p) :
    p.WellFormed I :=
  hp.rec_invariant _ (wellFormed_new cfg hasEventCh hasAppEventCh) fun _ _ _ h hs => h.step hs

end PriorityMempool

end Initia.Abcipp
