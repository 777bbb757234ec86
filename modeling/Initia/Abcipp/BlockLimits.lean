import Initia.Abcipp.Machine
import Initia.Lib.Fold

/-!
# Block limits at admission

`canAcceptLocked` refuses a tx that could never fit in a block: when the context carries
consensus block params, a positive `MaxBytes` bounds the tx's size and a positive `MaxGas`
its gas. Non-positive limits, and contexts without block params (the `PrepareCheckState`
paths), are not checked. Every path that makes an entry active asks `canAcceptLocked`
first, with the entry's own size and gas: the active branch of `Insert`, and the promotion
loop of `Insert` and `PromoteQueued`. Every other change to the global `entries` map
removes a binding. So a call adds to `entries` only entries the block params of its own
context admit, and an entry does not change while it is active.

The proofs follow the call graph: one lemma per function, saying that a property of every
binding of `entries` survives the call whenever the call can only add bindings that have
it. Functions that never touch `entries` have `@[simp]` lemmas beside their definitions.

The capacity limits of the configuration (`MaxTx`, `MaxQueuedTotal`, `MaxQueuedPerSender`)
are not invariants of the code; the scenarios at the end exceed each of them.
-/

namespace Initia.Abcipp

variable {Tx : Type}

/-- The per-tx limits of `canAcceptLocked` for the block params `block`: each positive limit
holds of the entry. -/
def BlockParams.Admits (block : BlockParams) (e : TxEntry Tx) : Prop :=
  (0 < block.maxBytes → e.size ≤ block.maxBytes) ∧
    (0 < block.maxGas → e.gas ≤ block.maxGas.toUInt64)

instance (block : BlockParams) (e : TxEntry Tx) : Decidable (block.Admits e) :=
  inferInstanceAs (Decidable (_ ∧ _))

/-- The block limits of a context admit the entry: the context carries no block params,
or their positive limits hold of it. Only the block params matter, so a context with
other tx bytes admits the same entries. -/
def SdkContext.Admits (ctx : SdkContext) (e : TxEntry Tx) : Prop :=
  ∀ block ∈ ctx.consensusBlock, block.Admits e

instance (ctx : SdkContext) (e : TxEntry Tx) : Decidable (ctx.Admits e) :=
  inferInstanceAs (Decidable (∀ block ∈ ctx.consensusBlock, block.Admits e))

/-- The context a call admits entries under: `Insert` and `PromoteQueued` carry one,
`RemoveWithReason` and `cleanUpEntries` admit nothing. -/
def MempoolCall.context {σ : Type} : MempoolCall Tx σ → Option SdkContext
  | .insert _ ctx _ => some ctx
  | .promoteQueued _ ctx _ => some ctx
  | .removeWithReason _ _ => none
  | .cleanUpEntries _ _ _ _ _ _ => none

namespace PriorityMempool

/-- `canAcceptLocked` accepts only within the block limits of its context. -/
theorem canAcceptLocked_admits {p : PriorityMempool Tx} {ctx : SdkContext}
    {clampedPriority clampedOrder : Int64} {e : TxEntry Tx} {exclude : Option (TxEntry Tx)}
    (h : (p.canAcceptLocked ctx clampedPriority clampedOrder e.size e.gas exclude).1 = true) :
    ctx.Admits e := by
  intro block hblock
  rw [Option.mem_def] at hblock
  unfold canAcceptLocked at h
  simp only [hblock] at h
  -- a refusal at the hard-limit check contradicts `h`; past it, neither limit is exceeded
  split_ifs at h with hwithin
  all_goals simpa [BlockParams.Admits] using hwithin

/-! ### Bindings of `entries` across a call -/

/-- Every binding of the global `entries` map satisfies `R`. -/
def EntriesSatisfy (R : TxKey → TxEntry Tx → Prop) (p : PriorityMempool Tx) : Prop :=
  p.entries.AllBindings R

variable {R : TxKey → TxEntry Tx → Prop} {p : PriorityMempool Tx}

theorem EntriesSatisfy.of_entries_eq (h : p.EntriesSatisfy R) {q : PriorityMempool Tx}
    (he : q.entries = p.entries) : q.EntriesSatisfy R := by
  unfold EntriesSatisfy
  rw [he]
  exact h

theorem EntriesSatisfy.enqueueEvent (h : p.EntriesSatisfy R) (eventType : AppMempoolEventType)
    (txBytes : Bytes) : (p.enqueueEvent eventType txBytes).EntriesSatisfy R :=
  h.of_entries_eq (entries_enqueueEvent p eventType txBytes)

theorem EntriesSatisfy.enqueueRemovedEvents (h : p.EntriesSatisfy R) (l : List (TxEntry Tx)) :
    (p.enqueueRemovedEvents l).EntriesSatisfy R :=
  h.of_entries_eq (entries_enqueueRemovedEvents p l)

/-- Events are not stored in `entries`. -/
theorem EntriesSatisfy.enqueueInserted (h : p.EntriesSatisfy R) (l : List (TxEntry Tx)) :
    (l.foldl (fun p e => p.enqueueEvent .txInserted e.bytes) p).EntriesSatisfy R :=
  List.foldlRecOn l _ h fun _ hq _ _ => hq.enqueueEvent _ _

theorem EntriesSatisfy.cleanupSenderLocked (h : p.EntriesSatisfy R) (sender : String) :
    (p.cleanupSenderLocked sender).EntriesSatisfy R :=
  h.of_entries_eq (entries_cleanupSenderLocked p sender)

theorem EntriesSatisfy.expireQueuedGapLocked (h : p.EntriesSatisfy R) (ss : Nat) (now : Int) :
    (p.expireQueuedGapLocked ss now).2.EntriesSatisfy R :=
  h.of_entries_eq (entries_expireQueuedGapLocked p ss now)

theorem EntriesSatisfy.addEntryLocked (h : p.EntriesSatisfy R) {e : TxEntry Tx}
    (he : R e.key e) : (p.addEntryLocked e).EntriesSatisfy R := by
  unfold EntriesSatisfy
  rw [entries_addEntryLocked]
  exact Std.TreeMap.AllBindings.insert h he

theorem EntriesSatisfy.removeEntryLocked (h : p.EntriesSatisfy R) (e : TxEntry Tx) :
    (p.removeEntryLocked e).EntriesSatisfy R := by
  unfold EntriesSatisfy
  rw [entries_removeEntryLocked]
  exact Std.TreeMap.AllBindings.erase h

/-! ### Removal and demotion only erase -/

theorem EntriesSatisfy.removeNonceLocked (h : p.EntriesSatisfy R) (ss : Nat) (nonce : UInt64) :
    (p.removeNonceLocked ss nonce).2.EntriesSatisfy R := by
  unfold PriorityMempool.removeNonceLocked
  dsimp only
  split
  · exact h.removeEntryLocked _
  · split
    · exact h.of_entries_eq (entries_dropQueuedLocked p ss nonce)
    · exact h

theorem EntriesSatisfy.removeActiveStaleLocked (h : p.EntriesSatisfy R) (ss : Nat)
    (seq : UInt64) : (p.removeActiveStaleLocked ss seq).2.EntriesSatisfy R := by
  unfold PriorityMempool.removeActiveStaleLocked
  dsimp only
  split_ifs
  · exact h
  · refine List.foldl_snd_rec (fun q : PriorityMempool Tx => q.EntriesSatisfy R) h
      (fun r n hr => ?_) _
    obtain ⟨removed, q⟩ := r
    dsimp only at hr ⊢
    split
    · exact hr
    · exact hr.removeEntryLocked _

theorem EntriesSatisfy.removeStaleLocked (h : p.EntriesSatisfy R) (ss : Nat) (seq : UInt64) :
    (p.removeStaleLocked ss seq).2.EntriesSatisfy R :=
  (h.removeActiveStaleLocked ss seq).of_entries_eq (entries_removeQueuedStaleLocked _ ss seq)

theorem EntriesSatisfy.advanceSenderLocked (h : p.EntriesSatisfy R) (ss : Nat) (seq : UInt64) :
    (p.advanceSenderLocked ss seq).2.EntriesSatisfy R :=
  EntriesSatisfy.removeStaleLocked (p := p.modifySenderState ss (·.setOnChainSeqLocked seq)) h
    ss seq

/-- One round of the demotion loop removes an active entry and touches only the queued
pool otherwise. -/
theorem EntriesSatisfy.demoteNonceLocked {ss : Nat} {seq : UInt64} {hasSeq : Bool}
    {acc : List (TxEntry Tx) × PriorityMempool Tx} (h : acc.2.EntriesSatisfy R) (nonce : UInt64) :
    (demoteNonceLocked ss seq hasSeq acc nonce).2.EntriesSatisfy R := by
  obtain ⟨removed, q⟩ := acc
  unfold PriorityMempool.demoteNonceLocked
  dsimp only at h ⊢
  split
  · exact h
  · -- below the sequence the entry is dropped; otherwise it goes to the queued pool, and
    -- the split on whether it was inserted there is a split of the removed list only
    split_ifs
    · exact h.removeEntryLocked _
    all_goals exact (h.removeEntryLocked _).of_entries_eq (entries_insertQueuedLocked _ ss _ _)

theorem EntriesSatisfy.demoteActiveRangeLocked (h : p.EntriesSatisfy R) {ss : Nat}
    {start seq : UInt64} {inclusive hasSeq : Bool} {r : List (TxEntry Tx) × PriorityMempool Tx}
    (hr : p.demoteActiveRangeLocked ss start inclusive seq hasSeq = some r) :
    r.2.EntriesSatisfy R := by
  unfold PriorityMempool.demoteActiveRangeLocked at hr
  dsimp only at hr
  split_ifs at hr <;> cases hr
  -- every early exit returns the pool unchanged
  all_goals first
    | exact h
    | exact List.foldl_snd_rec (fun q : PriorityMempool Tx => q.EntriesSatisfy R) h
        (fun _ n hq => EntriesSatisfy.demoteNonceLocked hq n) _

theorem EntriesSatisfy.removeForReasonLocked (h : p.EntriesSatisfy R) {ss : Nat}
    {nonce : UInt64} {reason : RemovalReason} {seq : UInt64} {hasSeq : Bool}
    {r : List (TxEntry Tx) × PriorityMempool Tx}
    (hr : p.removeForReasonLocked ss nonce reason seq hasSeq = some r) :
    r.2.EntriesSatisfy R := by
  unfold PriorityMempool.removeForReasonLocked at hr
  cases reason with
  | capacityEvicted => exact h.demoteActiveRangeLocked hr
  | anteRejectedInPrepare =>
    simp only [Option.map_eq_some_iff] at hr
    obtain ⟨⟨demoted, q⟩, hq, rfl⟩ := hr
    have hq' := (h.removeNonceLocked ss nonce).demoteActiveRangeLocked hq
    exact hq'
  | committedInBlock =>
    cases hr
    exact h.removeNonceLocked ss nonce

theorem EntriesSatisfy.removeByReasonLocked (h : p.EntriesSatisfy R) {sender : String}
    {nonce : UInt64} {reason : RemovalReason} {seq : UInt64} {hasSeq : Bool}
    {r : List (TxEntry Tx) × PriorityMempool Tx}
    (hr : p.removeByReasonLocked sender nonce reason seq hasSeq = some r) :
    r.2.EntriesSatisfy R := by
  unfold PriorityMempool.removeByReasonLocked at hr
  cases hs : p.senders[sender]? with
  | none =>
    simp only [hs, Option.some.injEq] at hr
    subst hr
    exact h
  | some ss =>
    simp only [hs, Option.map_eq_some_iff] at hr
    obtain ⟨⟨removed, q⟩, hq, rfl⟩ := hr
    have hq' := h.removeForReasonLocked hq
    dsimp only
    split_ifs
    · exact (hq'.advanceSenderLocked ss seq).cleanupSenderLocked sender
    · exact hq'.cleanupSenderLocked sender

theorem EntriesSatisfy.removeEntriesByReasonLocked (h : p.EntriesSatisfy R)
    {l : List (TxEntry Tx)} {reason : RemovalReason}
    {r : List (TxEntry Tx) × PriorityMempool Tx}
    (hr : p.removeEntriesByReasonLocked l reason = some r) : r.2.EntriesSatisfy R := by
  unfold PriorityMempool.removeEntriesByReasonLocked at hr
  refine List.foldlM_option_rec (fun r => r.2.EntriesSatisfy R) h
    (fun b hb e _ b' hb' => ?_) hr
  obtain ⟨removed, q⟩ := b
  dsimp only at hb hb'
  split_ifs at hb'
  · simp only [bind, Option.bind_eq_some_iff] at hb'
    obtain ⟨a, hq', hb'⟩ := hb'
    cases hb'
    have ha := hb.removeByReasonLocked hq'
    exact ha
  · cases hb'
    exact hb

theorem EntriesSatisfy.removeWithReason (h : p.EntriesSatisfy R) {I : TxInterface Tx} {tx : Tx}
    {reason : RemovalReason} {r : Except RemoveError Unit × PriorityMempool Tx}
    (hr : p.removeWithReason I tx reason = some r) : r.2.EntriesSatisfy R := by
  unfold PriorityMempool.removeWithReason at hr
  split at hr
  · cases hr
    exact h
  · simp only [bind, Option.bind_eq_some_iff] at hr
    obtain ⟨⟨removed, q⟩, hq, hr⟩ := hr
    have hq' := h.removeByReasonLocked hq
    split_ifs at hr <;> cases hr
    · exact hq'
    · exact hq'.enqueueRemovedEvents _

theorem EntriesSatisfy.cleanUpSenderLocked (h : p.EntriesSatisfy R) (sender : String)
    (seq : UInt64) (now : Int) : (p.cleanUpSenderLocked sender seq now).EntriesSatisfy R := by
  unfold PriorityMempool.cleanUpSenderLocked
  split
  · exact h
  · rename_i ss _
    dsimp only
    exact ((((h.advanceSenderLocked ss seq).enqueueRemovedEvents _).expireQueuedGapLocked ss
      now).enqueueRemovedEvents _).cleanupSenderLocked sender

/-- `cleanUpEntries` only removes: empty senders lose their pointer, stale and expired
entries go, and the heads the ante handler rejects are removed by reason. -/
theorem EntriesSatisfy.cleanUpEntries {σ : Type} (h : p.EntriesSatisfy R) {I : TxInterface Tx}
    {ak : AccountKeeper} {ante : Option (AnteHandler σ Tx)} {simulate : Option σ} {now : Int}
    {visitSenders visit : List String} {p' : PriorityMempool Tx}
    (hr : p.cleanUpEntries I ak ante simulate now visitSenders visit = some p') :
    p'.EntriesSatisfy R := by
  unfold PriorityMempool.cleanUpEntries at hr
  split at hr
  · cases hr
    exact h
  dsimp only at hr
  generalize hf1 : List.foldl _ (([] : List String), p) visitSenders = r1 at hr
  have h1 : r1.2.EntriesSatisfy R := by
    rw [← hf1]
    refine List.foldl_snd_rec (fun q : PriorityMempool Tx => q.EntriesSatisfy R) h
      (fun r sender hq => ?_) visitSenders
    obtain ⟨senders, q⟩ := r
    dsimp only at hq ⊢
    split
    · exact hq
    · split_ifs
      · exact hq
      · exact hq
  generalize List.foldl _ (∅ : Std.TreeMap String UInt64 compare) r1.1 = seqs at hr
  split_ifs at hr
  · cases hr
    exact h1
  generalize hf2 : List.foldl _ r1.2 visit = q at hr
  have h2 : q.EntriesSatisfy R := by
    rw [← hf2]
    refine List.foldlRecOn _ _ h1 fun b hb sender _ => ?_
    split
    · exact hb
    · exact hb.cleanUpSenderLocked _ _ _
  cases ante with
  | none =>
    cases hr
    exact h2
  | some ante =>
    refine List.foldlM_option_rec (fun q => q.EntriesSatisfy R) h2 (fun b hb e _ b' hb' => ?_) hr
    simp only [Option.map_eq_some_iff] at hb'
    obtain ⟨r, hr', rfl⟩ := hb'
    exact hb.removeWithReason hr'

theorem EntriesSatisfy.deleteReplacedLocked (h : p.EntriesSatisfy R) (ss : Nat) (nonce : UInt64)
    (existing queuedToRemove : Option (TxEntry Tx)) :
    (p.deleteReplacedLocked ss nonce existing queuedToRemove).2.EntriesSatisfy R := by
  unfold PriorityMempool.deleteReplacedLocked
  -- the queued entry is dropped first, then the replaced active one
  cases queuedToRemove with
  | some queued =>
    have hq := h.of_entries_eq (entries_dropQueuedLocked p ss nonce)
    cases existing with
    | some ex => exact hq.removeEntryLocked _
    | none => exact hq
  | none =>
    cases existing with
    | some ex => exact h.removeEntryLocked _
    | none => exact h

/-! ### Admission: the paths that make entries active -/

section Admission

-- the calls below run under the context `ctx`, and `R` holds of every entry its block
-- limits admit
variable {ctx : SdkContext} (hR : ∀ e : TxEntry Tx, ctx.Admits e → R e.key e)
include hR

/-- The promotion loop adds an entry only after `canAcceptLocked` accepted it under the
loop's context, which carries `ctx`'s block params. -/
theorem EntriesSatisfy.promoteLocked {ss : Nat} :
    ∀ {p : PriorityMempool Tx} {l : List (TxEntry Tx)}
      {r : List (TxEntry Tx) × List (TxEntry Tx) × PriorityMempool Tx},
      p.EntriesSatisfy R → promoteLocked ctx ss p l = some r → r.2.2.EntriesSatisfy R
  | p, [], r, h, hr => by
    simp only [PriorityMempool.promoteLocked, Option.some.injEq] at hr
    subst hr
    exact h
  | p, pe :: rest, r, h, hr => by
    simp only [PriorityMempool.promoteLocked] at hr
    have h0 := h.of_entries_eq (entries_nextOrder p)
    split_ifs at hr with hacc
    · -- accepted: evict, add the entry with its new rank, and promote the rest
      simp only [bind, Option.bind_eq_some_iff] at hr
      obtain ⟨⟨removed, q⟩, hq, r', hr', hr⟩ := hr
      cases hr
      have hq' := h0.removeEntriesByReasonLocked hq
      have hrest := EntriesSatisfy.promoteLocked (hq'.addEntryLocked (hR _ ?_)) hr'
      · exact hrest
      · exact canAcceptLocked_admits hacc
    · -- refused: the run goes back to the queued pool
      cases hr
      exact h0.of_entries_eq (entries_requeueEntriesLocked _ ss _)

/-- The active branch of `Insert` adds its entry only after `canAcceptLocked` accepted it
under the call's context, then runs the promotion loop under the same context. -/
theorem EntriesSatisfy.acceptActiveLocked (h : p.EntriesSatisfy R) {ss : Nat} {key : TxKey}
    {existing queuedToRemove : Option (TxEntry Tx)} {entry : TxEntry Tx}
    {r : Except InsertError Unit × PriorityMempool Tx}
    (hr : p.acceptActiveLocked ss ctx key existing queuedToRemove entry = some r) :
    r.2.EntriesSatisfy R := by
  simp only [PriorityMempool.acceptActiveLocked] at hr
  split_ifs at hr with hok
  · cases hr
    exact h
  · simp only [bind, Option.bind_eq_some_iff] at hr
    obtain ⟨⟨evicted, q⟩, hq, ⟨removed', promoted, q'⟩, hq', hr⟩ := hr
    cases hr
    have h1 := (h.deleteReplacedLocked ss key.nonce existing queuedToRemove)
      |>.removeEntriesByReasonLocked hq
    have h2 := EntriesSatisfy.promoteLocked hR
      ((h1.addEntryLocked (hR _ ?_)).of_entries_eq (entries_collectPromotableLocked _ ss)) hq'
    · exact ((h2.enqueueRemovedEvents _).enqueueEvent _ _).enqueueInserted promoted
    · exact canAcceptLocked_admits (by simpa using hok)

theorem EntriesSatisfy.insertActivePath (h : p.EntriesSatisfy R) {ss : Nat} {tx : Tx}
    {key : TxKey} {priority size : Int64} {gas : UInt64} {bz : Bytes}
    {r : Except InsertError Unit × PriorityMempool Tx}
    (hr : p.insertActivePath ss ctx tx key priority size gas bz = some r) :
    r.2.EntriesSatisfy R := by
  unfold PriorityMempool.insertActivePath at hr
  dsimp only at hr
  have h0 := h.of_entries_eq (entries_nextOrder p)
  -- the underpriced replacements fail before any change
  split at hr
  · split_ifs at hr
    · cases hr
      exact h0
    · exact h0.acceptActiveLocked hR hr
  · split_ifs at hr
    · cases hr
      exact h0
    · exact h0.acceptActiveLocked hR hr
  · exact h0.acceptActiveLocked hR hr

theorem EntriesSatisfy.insertLocked (h : p.EntriesSatisfy R) {I : TxInterface Tx} {ss : Nat}
    {tx : Tx} {key : TxKey} {size : Int64} {gas : UInt64} {bz : Bytes}
    {r : Except InsertError Unit × PriorityMempool Tx}
    (hr : p.insertLocked I ss ctx tx key size gas bz = some r) : r.2.EntriesSatisfy R := by
  unfold PriorityMempool.insertLocked at hr
  dsimp only at hr
  split_ifs at hr
  · cases hr
    exact h
  · cases hr
    exact h.of_entries_eq (entries_insertQueuedPath I p ss tx key _ size gas bz)
  · exact h.insertActivePath hR hr

/-- `Insert` runs its admission under its own context with the encoded bytes in place of
the given ones, which leaves the block params as they are. -/
theorem EntriesSatisfy.insert (h : p.EntriesSatisfy R) {I : TxInterface Tx} {ak : AccountKeeper}
    {tx : Tx} {r : Except InsertError Unit × PriorityMempool Tx}
    (hr : p.insert I ak ctx tx = some r) : r.2.EntriesSatisfy R := by
  unfold PriorityMempool.insert at hr
  cases hkey : txKeyFromTx I tx with
  | error e => simp only [hkey] at hr; cases hr; exact h
  | ok key =>
  simp only [hkey] at hr
  generalize (if ctx.txBytes.isEmpty then I.txEncoder tx else .ok ctx.txBytes) = encoded at hr
  cases encoded with
  | error e => cases hr; exact h
  | ok bz =>
  have hR' : ∀ e : TxEntry Tx, ({ ctx with txBytes := bz } : SdkContext).Admits e → R e.key e :=
    hR
  cases hgas : I.feeGas tx with
  | none => simp only [hgas] at hr; cases hr; exact h
  | some gas =>
  simp only [hgas] at hr
  cases hs : p.senders[key.sender]? with
  | some ss =>
    simp only [hs] at hr
    exact h.insertLocked hR' hr
  | none =>
    simp only [hs] at hr
    split_ifs at hr
    · cases hr
      exact h
    · -- a new sender's state is created first, which leaves `entries` alone
      have hnew := (h.of_entries_eq (entries_getOrCreateSenderLocked p key.sender)).of_entries_eq
        (entries_modifySenderState _ (p.getOrCreateSenderLocked key.sender).1
          (·.setOnChainSeqLocked (fetchSequence ak key.sender).1))
      exact hnew.insertLocked hR' hr

theorem EntriesSatisfy.promoteSenderLocked (h : p.EntriesSatisfy R) {sender : String}
    {seq : UInt64} {r : List (TxEntry Tx) × List (TxEntry Tx) × PriorityMempool Tx}
    (hr : p.promoteSenderLocked ctx sender seq = some r) : r.2.2.EntriesSatisfy R := by
  unfold PriorityMempool.promoteSenderLocked at hr
  split at hr
  · cases hr
    exact h
  · rename_i ss _
    simp only [bind, Option.bind_eq_some_iff] at hr
    obtain ⟨⟨removed, promoted, q⟩, hq, hr⟩ := hr
    cases hr
    have h1 := (h.advanceSenderLocked ss seq).of_entries_eq (entries_collectPromotableLocked _ ss)
    have hq' := EntriesSatisfy.promoteLocked hR h1 hq
    dsimp only
    split_ifs
    · exact hq'.cleanupSenderLocked sender
    · exact hq'

theorem EntriesSatisfy.promoteQueued (h : p.EntriesSatisfy R) {ak : AccountKeeper}
    {visit : List String} {p' : PriorityMempool Tx}
    (hr : p.promoteQueued ak ctx visit = some p') : p'.EntriesSatisfy R := by
  unfold PriorityMempool.promoteQueued at hr
  dsimp only at hr
  split_ifs at hr
  · cases hr
    exact h
  · simp only [bind, Option.bind_eq_some_iff] at hr
    obtain ⟨⟨removed, promoted, q⟩, hq, hr⟩ := hr
    cases hr
    -- the per-sender loop promotes under `ctx`
    have hq' : q.EntriesSatisfy R := by
      refine List.foldlM_option_rec (fun r => r.2.2.EntriesSatisfy R) h
        (fun b hb sender _ b' hb' => ?_) hq
      obtain ⟨removed, promoted, q⟩ := b
      dsimp only at hb hb'
      split at hb'
      · cases hb'
        exact hb
      · simp only [Option.bind_eq_some_iff] at hb'
        obtain ⟨a, ha, hb'⟩ := hb'
        cases hb'
        exact (hb.promoteSenderLocked hR ha :)
    -- the cleanup of active-only senders and the events leave `entries` alone
    refine EntriesSatisfy.enqueueInserted (EntriesSatisfy.enqueueRemovedEvents ?_ _) _
    refine List.foldlRecOn _ _ hq' fun b hb x _ => ?_
    split
    · split_ifs
      · exact hb.cleanupSenderLocked _
      · exact hb
    · exact hb

end Admission

/-! ### Every call, every run -/

/-- Every call keeps a property of the bindings of `entries` that holds of whatever the
block limits of the call's context admit. -/
theorem EntriesSatisfy.step {σ : Type} {I : TxInterface Tx} (h : p.EntriesSatisfy R)
    {call : MempoolCall Tx σ}
    (hR : ∀ ctx, call.context = some ctx → ∀ e, ctx.Admits e → R e.key e)
    {p' : PriorityMempool Tx} (hs : p.step I call = some p') : p'.EntriesSatisfy R := by
  cases call with
  | insert ak ctx tx =>
    simp only [PriorityMempool.step, Option.map_eq_some_iff] at hs
    obtain ⟨r, hr, rfl⟩ := hs
    exact h.insert (hR ctx rfl) hr
  | removeWithReason tx reason =>
    simp only [PriorityMempool.step, Option.map_eq_some_iff] at hs
    obtain ⟨r, hr, rfl⟩ := hs
    exact h.removeWithReason hr
  | promoteQueued ak ctx visit => exact h.promoteQueued (hR ctx rfl) hs
  | cleanUpEntries ak ante simulate now visitSenders visit => exact h.cleanUpEntries hs

/-- A call adds to the active set only entries within the block limits of its own
context: each binding of `entries` after the call was there before, or the call carries a
context whose block params, when it has any, admit the entry. `RemoveWithReason` and
`cleanUpEntries` carry none, so they add nothing. -/
theorem step_adds_only_admitted {σ : Type} {I : TxInterface Tx} {call : MempoolCall Tx σ}
    {p p' : PriorityMempool Tx} (hs : p.step I call = some p') {key : TxKey} {e : TxEntry Tx}
    (he : p'.entries[key]? = some e) :
    p.entries[key]? = some e ∨ ∃ ctx, call.context = some ctx ∧ ctx.Admits e := by
  have h0 : p.EntriesSatisfy fun key e =>
      p.entries[key]? = some e ∨ ∃ ctx, call.context = some ctx ∧ ctx.Admits e :=
    Std.TreeMap.allBindings_getElem?.mono fun _ _ hkey => .inl hkey
  exact (h0.step (fun ctx hctx _ hadm => .inr ⟨ctx, hctx, hadm⟩) hs).of_getElem? he

/-- An insert under block params with positive limits, into a fresh pool, adds an entry
they admit. -/
theorem step_adds_only_admitted_insert :
    ∃ (p' : PriorityMempool SimpleTx) (e : TxEntry SimpleTx),
      (fastPool 0).step (SimpleTx.interface fun _ => "init1alice")
          (.insert (σ := Unit) (.single [1] 0) ⟨10, [5], some ⟨1000, 1000⟩⟩
            (⟨[1], 0, 10, [5], false, true⟩ : SimpleTx)) = some p' ∧
        p'.entries[(⟨"init1alice", 0⟩ : TxKey)]? = some e ∧
        ((fastPool 0).entries[(⟨"init1alice", 0⟩ : TxKey)]? = some e ∨
          ∃ ctx, (MempoolCall.insert (σ := Unit) (.single [1] 0)
            ⟨10, [5], some ⟨1000, 1000⟩⟩ (⟨[1], 0, 10, [5], false, true⟩ : SimpleTx)).context =
              some ctx ∧ ctx.Admits e) := by
  have hs := (by decide +kernel : ((fastPool 0).step (SimpleTx.interface fun _ => "init1alice")
    (.insert (σ := Unit) (.single [1] 0) ⟨10, [5], some ⟨1000, 1000⟩⟩
      (⟨[1], 0, 10, [5], false, true⟩ : SimpleTx))).isSome)
  have he : ((Option.get _ hs).entries[(⟨"init1alice", 0⟩ : TxKey)]?).isSome := by
    decide +kernel +revert
  exact ⟨_, _, (Option.some_get hs).symm, (Option.some_get he).symm,
    step_adds_only_admitted (Option.some_get hs).symm (Option.some_get he).symm⟩

/-- Over a run whose calls all admit under the block params `block`, every entry of
`entries` fits them at the end when every one did at the start. -/
theorem EntriesSatisfy.run {σ : Type} {I : TxInterface Tx} {block : BlockParams}
    (h : p.EntriesSatisfy fun _ e => block.Admits e) {calls : List (MempoolCall Tx σ)}
    (hcalls : ∀ call ∈ calls, ∀ ctx, call.context = some ctx →
      ctx.consensusBlock = some block)
    {p' : PriorityMempool Tx} (hrun : p.run I calls = some p') :
    p'.EntriesSatisfy fun _ e => block.Admits e :=
  List.foldlM_option_rec (fun q => q.EntriesSatisfy fun _ e => block.Admits e) h
    (fun _ hq call hcall _ hs => hq.step (fun ctx hctx _ hadm => hadm block
      (hcalls call hcall ctx hctx)) hs) hrun

/-- When every call runs under the block params `block`, no active entry of any state a
fresh pool reaches exceeds a positive limit of `block`. -/
theorem run_new_entries_admitted {σ : Type} {I : TxInterface Tx} {block : BlockParams}
    (cfg : PriorityMempoolConfig Tx) (hasEventCh hasAppEventCh : Bool)
    {calls : List (MempoolCall Tx σ)}
    (hcalls : ∀ call ∈ calls, ∀ ctx, call.context = some ctx →
      ctx.consensusBlock = some block)
    {p' : PriorityMempool Tx} (hrun : (new cfg hasEventCh hasAppEventCh).run I calls = some p')
    {key : TxKey} {e : TxEntry Tx} (he : p'.entries[key]? = some e) : block.Admits e := by
  have h0 : (new cfg hasEventCh hasAppEventCh).EntriesSatisfy fun _ e => block.Admits e :=
    Std.TreeMap.allBindings_emptyc
  exact (h0.run hcalls hrun).of_getElem? he

/-- Two inserts of alice under the block params `MaxBytes` 1000 and `MaxGas` 50, into a fresh
pool: every entry they leave fits those params. -/
theorem run_new_entries_admitted_twoInserts :
    ∃ p' : PriorityMempool SimpleTx,
      (fastPool 0).run (SimpleTx.interface fun _ => "init1alice")
          [.insert (σ := Unit) (.single [1] 0) ⟨10, [5], some ⟨1000, 50⟩⟩ ⟨[1], 0, 10, [5], false, true⟩,
            .insert (.single [1] 0) ⟨10, [6], some ⟨1000, 50⟩⟩ ⟨[1], 1, 10, [6], false, true⟩] =
        some p' ∧
      ∀ (key : TxKey) (e : TxEntry SimpleTx), p'.entries[key]? = some e →
        (⟨1000, 50⟩ : BlockParams).Admits e := by
  obtain ⟨p', hrun⟩ := Option.isSome_iff_exists.mp (by decide +kernel :
    ((fastPool 0).run (SimpleTx.interface fun _ => "init1alice")
      [.insert (σ := Unit) (.single [1] 0) ⟨10, [5], some ⟨1000, 50⟩⟩ ⟨[1], 0, 10, [5], false, true⟩,
        .insert (.single [1] 0) ⟨10, [6], some ⟨1000, 50⟩⟩ ⟨[1], 1, 10, [6], false, true⟩]).isSome)
  refine ⟨p', hrun, fun key e he => run_new_entries_admitted _ true true ?_ hrun he⟩
  -- both calls carry the same block params
  intro call hcall ctx hctx
  simp only [List.mem_cons, List.not_mem_nil, or_false] at hcall
  rcases hcall with rfl | rfl <;> cases hctx <;> rfl

/-! ### The limits the code does not keep -/

/-- The bech32 names of the scenarios' signers \[1\], \[2\] and \[3\]. -/
def senderNames (addr : Bytes) : String :=
  if addr = [1] then "init1alice" else if addr = [2] then "init1bob" else "init1carol"

/-- An `Insert` at checker priority `priority`, with every account at on-chain sequence
`seq` and the block params `block` in the context. -/
def insertCall (seq : UInt64) (block : Option BlockParams) (priority : Int64) (tx : SimpleTx) :
    MempoolCall SimpleTx Unit :=
  .insert (.single [1] seq) ⟨priority, tx.bytes, block⟩ tx

/-- A configuration with the given capacity limits and the `fast` tier. -/
def fastConfig (maxTx maxQueuedPerSender maxQueuedTotal : Int) :
    PriorityMempoolConfig SimpleTx :=
  { maxTx := maxTx, maxQueuedPerSender := maxQueuedPerSender, maxQueuedTotal := maxQueuedTotal,
    queuedGapTTL := 0, tiers := [SimpleTx.fastTier] }

/-- Two runs from fresh pools whose capacity limits are all positive, and each ends over one
of them. With `MaxTx` 4 and both queue limits at 2, replacing alice's head outside the fast
tier ranks it last (the defect of the clamped ranks); promoting nonce 4 then evicts the head,
which demotes nonces 0 to 3 into the queued pool, and nonce 5, over the block gas, is requeued
by `requeueEntriesLocked` without a limit check: three queued entries, over `MaxQueuedTotal`
and `MaxQueuedPerSender`. With `MaxTx` 2, the nonce wrap at `2^64 − 1` leaves a stale node in
the priority index; after its entry is committed, evicting the stale node frees no slot, and a
third entry becomes active. -/
theorem run_exceeds_capacity :
    ((new (fastConfig 4 2 2) false false).run (SimpleTx.interface senderNames)
        [insertCall 0 (some ⟨1000, 50⟩) 10 ⟨[1], 0, 10, [10], false, true⟩,
          insertCall 0 (some ⟨1000, 50⟩) 10 ⟨[1], 1, 10, [11], false, true⟩,
          insertCall 0 (some ⟨1000, 50⟩) 10 ⟨[1], 2, 10, [12], false, true⟩,
          insertCall 0 (some ⟨1000, 50⟩) 11 ⟨[1], 0, 10, [13], false, false⟩,
          insertCall 0 (some ⟨1000, 50⟩) 10 ⟨[1], 4, 10, [14], true, true⟩,
          insertCall 0 (some ⟨1000, 50⟩) 10 ⟨[1], 5, 100, [15], true, true⟩,
          insertCall 0 (some ⟨1000, 50⟩) 10 ⟨[1], 3, 10, [16], false, true⟩]).map
      (fun p => (p.queuedCount, p.senderStates.toList.map fun (_, s) => s.queued.size)) =
      some (3, [3]) ∧
    ((new (fastConfig 2 64 1024) false false).run (SimpleTx.interface senderNames)
        [insertCall (~~~0 - 1) none 5 ⟨[1], ~~~0 - 1, 10, [1], false, true⟩,
          insertCall (~~~0 - 1) none 5 ⟨[1], ~~~0, 10, [2], false, true⟩,
          insertCall (~~~0 - 1) none 5 ⟨[1], ~~~0, 10, [3], true, true⟩,
          (.promoteQueued (.single [1] (~~~0)) ⟨0, [], none⟩ ["init1alice"] :
            MempoolCall SimpleTx Unit),
          .removeWithReason (⟨[1], ~~~0, 10, [3], true, true⟩ : SimpleTx) .committedInBlock,
          insertCall 0 none 10 ⟨[2], 0, 10, [20], false, true⟩,
          insertCall 0 none 10 ⟨[2], 1, 10, [21], false, true⟩,
          insertCall 0 none 20 ⟨[3], 0, 10, [30], false, true⟩]).map
      (fun p => p.entries.size) = some 3 := by
  decide +kernel

end PriorityMempool

end Initia.Abcipp
