import Mathlib
import Initia.Abcipp.Remove

/-!
# Stale removal keeps the cached nonce bounds exact

A sender state caches the least and greatest nonce of its active and of its queued map,
`(0, 0)` for an empty map (`BoundsExact`). A removal repairs the cache only when the removed
nonce was a bound, by scanning from it towards the other bound; the scan stops at the first
nonce present, so the repaired bound is exact whatever gaps the map has
(`rangeOnRemove_exact`).

`removeStaleLocked` drops everything below the on-chain sequence: it walks the nonces from
the cached least one up to `min(onChainSeq − 1, max)`, first through the active map, with
`removeEntryLocked` taking each entry out of the priority index, the global entries and the
sender's active map, then through the queued map. With exact bounds the walk covers every
stale nonce, so it removes exactly the stale entries, returns them in nonce order, and keeps
the bounds exact.

Source: `abcipp/mempool_remove.go`, `abcipp/mempool_sender_state.go`.
-/

namespace Initia.Abcipp

open Std.TreeMap

variable {Tx : Type}

/-! ### Exact bounds -/

/-- The cached bounds `lo` and `hi` of a nonce map are its least and greatest nonce, and
both zero when it is empty. -/
def BoundsExact (m : NonceMap Tx) (lo hi : UInt64) : Prop :=
  (m.size = 0 → lo = 0 ∧ hi = 0) ∧ (m.size ≠ 0 → lo ∈ m ∧ hi ∈ m) ∧
    ∀ n ∈ m.keys, lo ≤ n ∧ n ≤ hi

instance (m : NonceMap Tx) (lo hi : UInt64) : Decidable (BoundsExact m lo hi) :=
  inferInstanceAs (Decidable (_ ∧ _ ∧ _))

namespace BoundsExact

variable {m : NonceMap Tx} {lo hi : UInt64}

theorem bounds (h : BoundsExact m lo hi) {n : UInt64} (hn : n ∈ m) : lo ≤ n ∧ n ≤ hi :=
  h.2.2 n (mem_keys.mpr hn)

theorem lo_mem (h : BoundsExact m lo hi) {n : UInt64} (hn : n ∈ m) : lo ∈ m :=
  (h.2.1 fun h0 => (size_eq_zero_iff_forall_not_mem.mp h0) n hn).1

theorem hi_mem (h : BoundsExact m lo hi) {n : UInt64} (hn : n ∈ m) : hi ∈ m :=
  (h.2.1 fun h0 => (size_eq_zero_iff_forall_not_mem.mp h0) n hn).2

/-- Bounds that contain every nonce, with both of them present, are exact. -/
theorem of_mem (hlo : lo ∈ m) (hhi : hi ∈ m) (hb : ∀ n ∈ m, lo ≤ n ∧ n ≤ hi) :
    BoundsExact m lo hi :=
  ⟨fun h0 => absurd hlo ((size_eq_zero_iff_forall_not_mem.mp h0) lo), fun _ => ⟨hlo, hhi⟩,
    fun n hn => hb n (mem_keys.mp hn)⟩

end BoundsExact

theorem getElem?_erase_nonce {m : NonceMap Tx} {n k : UInt64} :
    (m.erase n)[k]? = if k = n then none else m[k]? := by
  rw [getElem?_erase]
  by_cases h : k = n
  · subst h
    simp
  · rw [if_neg (fun hc => h (Std.LawfulEqCmp.eq_of_compare hc).symm), if_neg h]

theorem mem_erase_nonce {m : NonceMap Tx} {k a : UInt64} : a ∈ m.erase k ↔ a ≠ k ∧ a ∈ m := by
  rw [mem_erase, ne_eq, Std.LawfulEqCmp.compare_eq_iff_eq, eq_comm]

/-! ### The boundary scans -/

/-- From a cursor at most `hi`, with `hi` in the map and fuel for every step up to it, the
upward scan finds the least nonce of the map at or above the cursor. -/
theorem scanUp_least {m : NonceMap Tx} {hi : UInt64} (hhi : hi ∈ m) :
    ∀ (fuel : ℕ) (n : UInt64), n ≤ hi → hi.toNat - n.toNat < fuel →
      scanUp m hi fuel n ∈ m ∧ n ≤ scanUp m hi fuel n ∧
        ∀ k ∈ m, n ≤ k → scanUp m hi fuel n ≤ k := by
  intro fuel
  induction fuel with
  | zero => exact fun _ _ h => absurd h (Nat.not_lt_zero _)
  | succ fuel ih =>
    intro n hn hfuel
    unfold scanUp
    split_ifs with hmem hge
    · exact ⟨hmem, UInt64.le_refl n, fun _ _ hk => hk⟩
    · -- the cursor reached `hi`, which is in the map
      exact absurd (UInt64.le_antisymm hn hge ▸ hhi) hmem
    · have hlt : n < hi := UInt64.not_le.mp hge
      have hsucc := UInt64.toNat_add_one_of_lt hlt
      rw [UInt64.lt_iff_toNat_lt] at hlt
      obtain ⟨hr, hnr, hleast⟩ := ih (n + 1)
        (by rw [UInt64.le_iff_toNat_le, hsucc]; omega) (by rw [hsucc]; omega)
      refine ⟨hr, ?_, fun k hk hnk => hleast k hk ?_⟩
      · rw [UInt64.le_iff_toNat_le, hsucc] at hnr
        rw [UInt64.le_iff_toNat_le]
        omega
      · -- `n` itself is not in the map, so `k` lies above it
        have hkn : k ≠ n := fun h => hmem (h ▸ hk)
        rw [UInt64.le_iff_toNat_le] at hnk ⊢
        rw [hsucc]
        have hne : k.toNat ≠ n.toNat := fun h => hkn (UInt64.toNat_inj.mp h)
        omega

/-- From a cursor at least `lo`, with `lo` in the map and fuel for every step down to it, the
downward scan finds the greatest nonce of the map at or below the cursor. -/
theorem scanDown_greatest {m : NonceMap Tx} {lo : UInt64} (hlo : lo ∈ m) :
    ∀ (fuel : ℕ) (n : UInt64), lo ≤ n → n.toNat - lo.toNat < fuel →
      scanDown m lo fuel n ∈ m ∧ scanDown m lo fuel n ≤ n ∧
        ∀ k ∈ m, k ≤ n → k ≤ scanDown m lo fuel n := by
  intro fuel
  induction fuel with
  | zero => exact fun _ _ h => absurd h (Nat.not_lt_zero _)
  | succ fuel ih =>
    intro n hn hfuel
    unfold scanDown
    split_ifs with hmem hle
    · exact ⟨hmem, UInt64.le_refl n, fun _ _ hk => hk⟩
    · exact absurd ((UInt64.le_antisymm hn hle).symm ▸ hlo) hmem
    · have hlt : lo < n := UInt64.not_le.mp hle
      rw [UInt64.lt_iff_toNat_lt] at hlt
      have hpred : (n - 1).toNat = n.toNat - 1 := by
        rw [UInt64.toNat_sub_of_le _ _ (by rw [UInt64.le_iff_toNat_le, UInt64.toNat_one]; omega),
          UInt64.toNat_one]
      obtain ⟨hr, hrn, hgreatest⟩ := ih (n - 1)
        (by rw [UInt64.le_iff_toNat_le, hpred]; omega) (by rw [hpred]; omega)
      refine ⟨hr, ?_, fun k hk hkn => hgreatest k hk ?_⟩
      · rw [UInt64.le_iff_toNat_le, hpred] at hrn
        rw [UInt64.le_iff_toNat_le]
        omega
      · have hkn' : k ≠ n := fun h => hmem (h ▸ hk)
        rw [UInt64.le_iff_toNat_le] at hkn ⊢
        rw [hpred]
        have hne : k.toNat ≠ n.toNat := fun h => hkn' (UInt64.toNat_inj.mp h)
        omega

/-! ### Repairing the bounds after a removal -/

theorem exists_mem_of_size_ne_zero {m : NonceMap Tx} (h : m.size ≠ 0) : ∃ k, k ∈ m := by
  by_contra hno
  exact h (size_eq_zero_iff_forall_not_mem.mpr fun k hk => hno ⟨k, hk⟩)

/-- Deleting a nonce from a map with exact bounds and repairing them as `rangeOnRemove` does
leaves exact bounds, however the remaining nonces are spread. -/
theorem rangeOnRemove_exact {m : NonceMap Tx} {lo hi removed : UInt64} (h : BoundsExact m lo hi)
    (hr : removed ∈ m) :
    BoundsExact (m.erase removed) (rangeOnRemove (m.erase removed) lo hi removed).1
      (rangeOnRemove (m.erase removed) lo hi removed).2 := by
  have hlo := h.lo_mem hr
  have hhi := h.hi_mem hr
  have hhit := hi.toNat_lt
  unfold rangeOnRemove
  split_ifs with hempty hrlo hrhi
  · -- the map is empty now: the cache is reset
    refine ⟨fun _ => ⟨rfl, rfl⟩, fun h0 => absurd hempty h0, fun n hn => ?_⟩
    exact absurd (mem_keys.mp hn) ((size_eq_zero_iff_forall_not_mem.mp hempty) n)
  · -- the least nonce went: scan up from the one after it, up to the greatest
    subst hrlo
    obtain ⟨k, hk⟩ := exists_mem_of_size_ne_zero hempty
    obtain ⟨hkr, hkm⟩ := mem_erase_nonce.mp hk
    have hkb := h.bounds hkm
    have hkr' : k.toNat ≠ removed.toNat := fun he => hkr (UInt64.toNat_inj.mp he)
    simp only [UInt64.le_iff_toNat_le] at hkb
    have hlt : removed < hi := by rw [UInt64.lt_iff_toNat_lt]; omega
    have hsucc := UInt64.toNat_add_one_of_lt hlt
    have hhi' : hi ∈ m.erase removed :=
      mem_erase_nonce.mpr ⟨fun he => UInt64.ne_of_lt hlt he.symm, hhi⟩
    rw [UInt64.lt_iff_toNat_lt] at hlt
    obtain ⟨hmem, -, hleast⟩ := scanUp_least hhi' UInt64.size (removed + 1)
      (by rw [UInt64.le_iff_toNat_le, hsucc]; omega) (by rw [hsucc, UInt64.size]; omega)
    refine BoundsExact.of_mem hmem hhi' fun n hn => ?_
    obtain ⟨hnr, hnm⟩ := mem_erase_nonce.mp hn
    have hnb := h.bounds hnm
    refine ⟨hleast n hn ?_, hnb.2⟩
    -- every other nonce lies above the removed least one
    have hnr' : n.toNat ≠ removed.toNat := fun he => hnr (UInt64.toNat_inj.mp he)
    simp only [UInt64.le_iff_toNat_le, hsucc] at hnb ⊢
    omega
  · -- the greatest nonce went: scan down from the one before it, down to the least
    subst hrhi
    obtain ⟨k, hk⟩ := exists_mem_of_size_ne_zero hempty
    obtain ⟨hkr, hkm⟩ := mem_erase_nonce.mp hk
    have hkb := h.bounds hkm
    have hkr' : k.toNat ≠ removed.toNat := fun he => hkr (UInt64.toNat_inj.mp he)
    have hlor : lo.toNat ≠ removed.toNat := fun he => hrlo (UInt64.toNat_inj.mp he).symm
    simp only [UInt64.le_iff_toNat_le] at hkb
    have hpred : (removed - 1).toNat = removed.toNat - 1 := by
      rw [UInt64.toNat_sub_of_le _ _ (by rw [UInt64.le_iff_toNat_le, UInt64.toNat_one]; omega),
        UInt64.toNat_one]
    have hlo' : lo ∈ m.erase removed := mem_erase_nonce.mpr ⟨fun he => hrlo he.symm, hlo⟩
    obtain ⟨hmem, -, hgreatest⟩ := scanDown_greatest hlo' UInt64.size (removed - 1)
      (by rw [UInt64.le_iff_toNat_le, hpred]; omega) (by rw [hpred, UInt64.size]; omega)
    refine BoundsExact.of_mem hlo' hmem fun n hn => ?_
    obtain ⟨hnr, hnm⟩ := mem_erase_nonce.mp hn
    have hnb := h.bounds hnm
    refine ⟨hnb.1, hgreatest n hn ?_⟩
    -- every other nonce lies below the removed greatest one
    have hnr' : n.toNat ≠ removed.toNat := fun he => hnr (UInt64.toNat_inj.mp he)
    simp only [UInt64.le_iff_toNat_le, hpred] at hnb ⊢
    omega
  · -- an inner nonce went: both bounds stay
    exact BoundsExact.of_mem (mem_erase_nonce.mpr ⟨fun he => hrlo he.symm, hlo⟩)
      (mem_erase_nonce.mpr ⟨fun he => hrhi he.symm, hhi⟩)
      fun n hn => h.bounds (mem_erase_nonce.mp hn).2

namespace SenderState

/-- Deleting any active nonce and repairing the bounds keeps them exact. -/
theorem setActiveRangeOnRemoveLocked_exact {s : SenderState Tx} {n : UInt64}
    (h : BoundsExact s.active s.activeMin s.activeMax) (hn : n ∈ s.active) :
    BoundsExact (s.active.erase n)
      ({ s with active := s.active.erase n }.setActiveRangeOnRemoveLocked n).activeMin
      ({ s with active := s.active.erase n }.setActiveRangeOnRemoveLocked n).activeMax :=
  rangeOnRemove_exact h hn

/-- Deleting any queued nonce and repairing the bounds keeps them exact. -/
theorem setQueuedRangeOnRemoveLocked_exact {s : SenderState Tx} {n : UInt64}
    (h : BoundsExact s.queued s.queuedMin s.queuedMax) (hn : n ∈ s.queued) :
    BoundsExact (s.queued.erase n)
      ({ s with queued := s.queued.erase n }.setQueuedRangeOnRemoveLocked n).queuedMin
      ({ s with queued := s.queued.erase n }.setQueuedRangeOnRemoveLocked n).queuedMax :=
  rangeOnRemove_exact h hn

end SenderState

/-! ### Reading a map along the stale nonces -/

/-- The entries of a map below `seq`, in nonce order. -/
def staleEntries (m : NonceMap Tx) (seq : UInt64) : List (TxEntry Tx) :=
  (m.filter fun n _ => n < seq).toList.map Prod.snd

/-- Visiting, in increasing order, nonces that include exactly the stale nonces of a map
reads its stale entries in nonce order. -/
theorem filterMap_getElem?_eq_staleEntries {m : NonceMap Tx} {L : List UInt64} {seq : UInt64}
    (hL : L.Pairwise (· < ·)) (hcover : ∀ k ∈ m, k ∈ L ↔ k < seq) :
    L.filterMap (m[·]?) = staleEntries m seq := by
  have hsorted : (L.filterMap fun n => m[n]?.map (n, ·)).Pairwise
      fun a b : UInt64 × TxEntry Tx => compare a.1 b.1 = .lt := by
    refine hL.filterMap _ fun a a' hlt b hb b' hb' => ?_
    obtain ⟨_, -, rfl⟩ := Option.map_eq_some_iff.mp hb
    obtain ⟨_, -, rfl⟩ := Option.map_eq_some_iff.mp hb'
    simp [UInt64.compare_eq_ite, hlt]
  have hlist : (m.filter fun n _ => n < seq).toList = L.filterMap fun n => m[n]?.map (n, ·) := by
    refine toList_eq_of_mem_iff hsorted fun k v => ?_
    rw [List.mem_filterMap, getElem?_filter', Option.filter_eq_some_iff]
    constructor
    · rintro ⟨n, hn, hkv⟩
      obtain ⟨v', hv', hkv'⟩ := Option.map_eq_some_iff.mp hkv
      cases hkv'
      exact ⟨hv', by simpa using (hcover k (mem_iff_isSome_getElem?.mpr (by simp [hv']))).mp hn⟩
    · rintro ⟨hv, hk⟩
      exact ⟨k, (hcover k (mem_iff_isSome_getElem?.mpr (by simp [hv]))).mpr (by simpa using hk),
        by simp [hv]⟩
  rw [staleEntries, hlist, List.map_filterMap]
  simp

/-- What is left after deleting the visited nonces is what lies at or above `seq`. -/
theorem getElem?_of_cover {m : NonceMap Tx} {L : List UInt64} {seq : UInt64}
    (hcover : ∀ k ∈ m, k ∈ L ↔ k < seq) (k : UInt64) :
    (if k ∈ L then none else m[k]?) = if k < seq then none else m[k]? := by
  by_cases hk : k ∈ m
  · simp only [hcover k hk]
  · rw [getElem?_eq_none hk]
    split_ifs <;> rfl

/-- With exact bounds and a positive `seq`, the walk from the least nonce to
`min (seq − 1) max` visits exactly the stale nonces. -/
theorem mem_rangeIncl_iff_of_bounds {m : NonceMap Tx} {lo hi seq : UInt64}
    (h : BoundsExact m lo hi) (hseq : seq ≠ 0) :
    ∀ k ∈ m, k ∈ UInt64.rangeIncl lo (min (seq - 1) hi) ↔ k < seq := by
  intro k hk
  have hkb := h.bounds hk
  have hseq' : seq.toNat ≠ 0 := fun h0 => hseq (UInt64.toNat_inj.mp (by simpa using h0))
  have hpred : (seq - 1).toNat = seq.toNat - 1 := by
    rw [UInt64.toNat_sub_of_le _ _ (by rw [UInt64.le_iff_toNat_le, UInt64.toNat_one]; omega),
      UInt64.toNat_one]
  simp only [UInt64.mem_rangeIncl, UInt64.le_iff_toNat_le, UInt64.lt_iff_toNat_lt,
    UInt64.toNat_min, hpred] at hkb ⊢
  omega

/-- Without a positive `seq` below the least nonce's successor, no nonce is stale. -/
theorem not_stale_of_bounds {m : NonceMap Tx} {lo hi seq : UInt64} (h : BoundsExact m lo hi)
    (hskip : m.size = 0 ∨ seq = 0 ∨ lo ≥ seq) : ∀ k ∈ m, k ∈ ([] : List UInt64) ↔ k < seq := by
  intro k hk
  have hkb := h.bounds hk
  simp only [List.not_mem_nil, false_iff]
  rcases hskip with h0 | h0 | hlo
  · exact absurd hk ((size_eq_zero_iff_forall_not_mem.mp h0) k)
  · subst h0
    exact UInt64.not_lt_zero
  · simp only [ge_iff_le, UInt64.le_iff_toNat_le, UInt64.lt_iff_toNat_lt] at hlo hkb ⊢
    omega

/-! ### One removal on the pool -/

namespace PriorityMempool

@[simp]
theorem senderState_modifySenderState_self (p : PriorityMempool Tx) (ss : Nat)
    (f : SenderState Tx → SenderState Tx) :
    (p.modifySenderState ss f).senderState ss = f (p.senderState ss) := by
  simp [modifySenderState, senderState]

/-- `decrementTierLocked` only moves a tier counter. -/
theorem decrementTierLocked_eq (p : PriorityMempool Tx) (tier : Int64) :
    ∃ td, p.decrementTierLocked tier = { p with tierDistribution := td } := by
  unfold decrementTierLocked
  dsimp only
  split_ifs
  · split
    · split_ifs
      · exact ⟨_, rfl⟩
      · exact ⟨p.tierDistribution, rfl⟩
    · exact ⟨p.tierDistribution, rfl⟩
  · exact ⟨p.tierDistribution, rfl⟩

/-- `ss` is `sender`'s state and files each of its active entries under the entry's own key. -/
def ActiveFiled (p : PriorityMempool Tx) (sender : String) (ss : Nat) : Prop :=
  p.senders[sender]? = some ss ∧
    ∀ x ∈ (p.senderState ss).active.toList, x.2.key = ⟨sender, x.1⟩

instance (p : PriorityMempool Tx) (sender : String) (ss : Nat) :
    Decidable (p.ActiveFiled sender ss) :=
  inferInstanceAs (Decidable (_ ∧ _))

theorem ActiveFiled.key_eq {p : PriorityMempool Tx} {sender : String} {ss : Nat}
    (h : p.ActiveFiled sender ss) {n : UInt64} {e : TxEntry Tx}
    (he : (p.senderState ss).active[n]? = some e) : e.key = ⟨sender, n⟩ :=
  h.2 (n, e) (mem_toList_iff_getElem?_eq_some.mpr he)

/-- `removeEntryLocked` on an entry filed in the active map of its sender's state `ss`: the
entry leaves the priority index, the global entries and that active map, whose bounds are
repaired; the pointers, the queued pool and its count stay. -/
theorem removeEntryLocked_of_filed {p : PriorityMempool Tx} {ss : Nat} {e : TxEntry Tx}
    (hss : p.senders[e.key.sender]? = some ss) (hmem : e.key.nonce ∈ (p.senderState ss).active) :
    (p.removeEntryLocked e).senders = p.senders ∧
      (p.removeEntryLocked e).priorityIndex = p.priorityIndex.erase e ∧
      (p.removeEntryLocked e).queuedCount = p.queuedCount ∧
      (p.removeEntryLocked e).senderState ss =
        { p.senderState ss with active := (p.senderState ss).active.erase e.key.nonce
          }.setActiveRangeOnRemoveLocked e.key.nonce := by
  unfold removeEntryLocked
  obtain ⟨td, htd⟩ := decrementTierLocked_eq
    (({ p with priorityIndex := p.priorityIndex.erase e, entries := p.entries.erase e.key }
      : PriorityMempool Tx).removeActiveNonceLocked e.key) e.tier
  rw [htd]
  unfold removeActiveNonceLocked
  simp only [hss]
  split_ifs with hin
  · exact ⟨rfl, rfl, rfl, by simp [senderState, modifySenderState]⟩
  · exact absurd hmem hin

/-- `dropQueuedLocked`: the nonce leaves the queued map, whose bounds are repaired, and the
count drops by one; the pointers, the index and the active map stay. -/
theorem dropQueuedLocked_eq (p : PriorityMempool Tx) (ss : Nat) (n : UInt64) :
    (p.dropQueuedLocked ss n).senders = p.senders ∧
      (p.dropQueuedLocked ss n).priorityIndex = p.priorityIndex ∧
      (p.dropQueuedLocked ss n).queuedCount = p.queuedCount - 1 ∧
      (p.dropQueuedLocked ss n).senderState ss =
        { p.senderState ss with queued := (p.senderState ss).queued.erase n
          }.setQueuedRangeOnRemoveLocked n :=
  ⟨rfl, rfl, rfl, by simp [dropQueuedLocked, senderState, modifySenderState]⟩

end PriorityMempool

/-! ### The stale loops -/

/-- Lowering a count by one per element lowers it by the length. -/
theorem foldl_sub_one {α : Type} (c : Int64) (l : List α) :
    l.foldl (fun c _ => c - 1) c = c - Int64.ofNat l.length := by
  induction l generalizing c with
  | nil => simp
  | cons a l ih =>
    rw [List.foldl_cons, ih, List.length_cons, Int64.ofNat_add]
    grind

namespace PriorityMempool

/-- The active map of the sender state `ss`, as the active stale loop reads it. -/
def activeAt (ss : Nat) (q : PriorityMempool Tx) (n : UInt64) : Option (TxEntry Tx) :=
  (q.senderState ss).active[n]?

/-- The queued map of the sender state `ss`, as the queued stale loop reads it. -/
def queuedAt (ss : Nat) (q : PriorityMempool Tx) (n : UInt64) : Option (TxEntry Tx) :=
  (q.senderState ss).queued[n]?

/-- What the active stale loop keeps: the sender's state files its active entries under
their keys and caches exact active bounds. -/
def ActiveStaleInv (sender : String) (ss : Nat) (q : PriorityMempool Tx) : Prop :=
  q.ActiveFiled sender ss ∧
    BoundsExact (q.senderState ss).active (q.senderState ss).activeMin (q.senderState ss).activeMax

/-- What the queued stale loop keeps: exact queued bounds. -/
def QueuedStaleInv (ss : Nat) (q : PriorityMempool Tx) : Prop :=
  BoundsExact (q.senderState ss).queued (q.senderState ss).queuedMin (q.senderState ss).queuedMax

/-- A round of the active loop deletes the visited nonce from the sender's active map. -/
theorem deletesKey_removeEntryLocked (sender : String) (ss : Nat) :
    DeletesKey (activeAt ss) (fun (q : PriorityMempool Tx) _ e => q.removeEntryLocked e)
      (ActiveStaleInv sender ss) := by
  intro q n e ⟨hfiled, hbounds⟩ he
  have hkey := hfiled.key_eq he
  have hn : n ∈ (q.senderState ss).active := mem_iff_isSome_getElem?.mpr (by
    rw [show (q.senderState ss).active[n]? = some e from he]
    rfl)
  obtain ⟨hsenders, -, -, hstate⟩ := removeEntryLocked_of_filed (e := e)
    (by rw [hkey]; exact hfiled.1) (by rw [hkey]; exact hn)
  rw [hkey] at hstate
  have hget : ∀ k, activeAt ss (q.removeEntryLocked e) k =
      if k = n then none else activeAt ss q k := by
    intro k
    simp only [activeAt, hstate, SenderState.setActiveRangeOnRemoveLocked, getElem?_erase_nonce]
  refine ⟨⟨⟨hsenders ▸ hfiled.1, fun x hx => ?_⟩, ?_⟩, hget⟩
  · -- what is left of the active map was filed before
    have hx' := hget x.1
    simp only [activeAt] at hx'
    rw [mem_toList_iff_getElem?_eq_some.mp hx] at hx'
    split_ifs at hx'
    exact hfiled.key_eq hx'.symm
  · rw [hstate]
    exact SenderState.setActiveRangeOnRemoveLocked_exact hbounds hn

/-- A round of the queued loop deletes the visited nonce from the sender's queued map. -/
theorem deletesKey_dropQueuedLocked (ss : Nat) :
    DeletesKey (queuedAt ss) (fun (q : PriorityMempool Tx) n _ => q.dropQueuedLocked ss n)
      (QueuedStaleInv ss) := by
  intro q n e hbounds he
  have hn : n ∈ (q.senderState ss).queued := mem_iff_isSome_getElem?.mpr (by
    rw [show (q.senderState ss).queued[n]? = some e from he]
    rfl)
  obtain ⟨-, -, -, hstate⟩ := dropQueuedLocked_eq q ss n
  refine ⟨?_, fun k => ?_⟩
  · unfold QueuedStaleInv
    rw [hstate]
    exact SenderState.setQueuedRangeOnRemoveLocked_exact hbounds hn
  · simp only [queuedAt, hstate, SenderState.setQueuedRangeOnRemoveLocked, getElem?_erase_nonce]

/-- `removeActiveStaleLocked` as the loop over the nonces it visits, none when it returns
early. -/
theorem removeActiveStaleLocked_eq (p : PriorityMempool Tx) (ss : Nat) (seq : UInt64) :
    p.removeActiveStaleLocked ss seq =
      (if (p.senderState ss).active.size = 0 ∨ seq = 0 ∨ (p.senderState ss).activeMin ≥ seq then []
        else UInt64.rangeIncl (p.senderState ss).activeMin
          (min (seq - 1) (p.senderState ss).activeMax)).foldl
        (scanRemoveStep (activeAt ss) fun q _ e => q.removeEntryLocked e) ([], p) := by
  unfold removeActiveStaleLocked
  dsimp only
  split_ifs
  · rfl
  · -- the loop body is one round of the scan
    congr 1
    funext x n
    unfold scanRemoveStep activeAt
    cases (x.2.senderState ss).active[n]? <;> rfl

/-- `removeQueuedStaleLocked` as the loop over the nonces it visits. -/
theorem removeQueuedStaleLocked_eq (p : PriorityMempool Tx) (ss : Nat) (seq : UInt64) :
    p.removeQueuedStaleLocked ss seq =
      (if (p.senderState ss).queued.size = 0 ∨ seq = 0 ∨ (p.senderState ss).queuedMin ≥ seq then []
        else UInt64.rangeIncl (p.senderState ss).queuedMin
          (min (seq - 1) (p.senderState ss).queuedMax)).foldl
        (scanRemoveStep (queuedAt ss) fun q n _ => q.dropQueuedLocked ss n) ([], p) := by
  unfold removeQueuedStaleLocked
  dsimp only
  split_ifs
  · rfl
  · -- the loop body is one round of the scan
    congr 1
    funext x n
    unfold scanRemoveStep queuedAt
    cases (x.2.senderState ss).queued[n]? <;> rfl

/-- The nonces a stale loop visits are increasing and cover exactly the stale nonces of a map
with exact bounds. -/
theorem staleWalk_spec {m : NonceMap Tx} {lo hi : UInt64} (seq : UInt64) (h : BoundsExact m lo hi) :
    (if m.size = 0 ∨ seq = 0 ∨ lo ≥ seq then [] else
        UInt64.rangeIncl lo (min (seq - 1) hi)).Pairwise (· < ·) ∧
      ∀ k ∈ m, k ∈ (if m.size = 0 ∨ seq = 0 ∨ lo ≥ seq then [] else
        UInt64.rangeIncl lo (min (seq - 1) hi)) ↔ k < seq := by
  split_ifs with hskip
  · exact ⟨List.Pairwise.nil, not_stale_of_bounds h hskip⟩
  · push Not at hskip
    exact ⟨UInt64.pairwise_lt_rangeIncl _ _, mem_rangeIncl_iff_of_bounds h hskip.2.1⟩


/-- `removeActiveStaleLocked` on a sender state that files its active entries under their keys
with exact active bounds: it returns the stale active entries in nonce order, deletes exactly
them from the active map and, one by one, from the priority index, keeps the invariant, and
leaves the queued pool and its count alone. -/
theorem removeActiveStaleLocked_spec {p : PriorityMempool Tx} {sender : String} {ss : Nat}
    (seq : UInt64) (hinv : ActiveStaleInv sender ss p) :
    ActiveStaleInv sender ss (p.removeActiveStaleLocked ss seq).2 ∧
      (p.removeActiveStaleLocked ss seq).1 = staleEntries (p.senderState ss).active seq ∧
      (∀ k, ((p.removeActiveStaleLocked ss seq).2.senderState ss).active[k]? =
        if k < seq then none else (p.senderState ss).active[k]?) ∧
      (p.removeActiveStaleLocked ss seq).2.priorityIndex =
        (staleEntries (p.senderState ss).active seq).foldl (fun t e => t.erase e) p.priorityIndex ∧
      (((p.removeActiveStaleLocked ss seq).2.senderState ss).queued,
          ((p.removeActiveStaleLocked ss seq).2.senderState ss).queuedMin,
          ((p.removeActiveStaleLocked ss seq).2.senderState ss).queuedMax,
          (p.removeActiveStaleLocked ss seq).2.queuedCount) =
        ((p.senderState ss).queued, (p.senderState ss).queuedMin, (p.senderState ss).queuedMax,
          p.queuedCount) := by
  obtain ⟨hsorted, hcover⟩ := staleWalk_spec seq hinv.2
  have hdel : DeletesKey (activeAt ss) (fun (q : PriorityMempool Tx) _ e => q.removeEntryLocked e)
      (ActiveStaleInv sender ss) := deletesKey_removeEntryLocked sender ss
  obtain ⟨hinv', hrem, hmap⟩ := foldl_scanRemoveStep hdel _ [] p hsorted.nodup hinv
  have hstale : List.filterMap (activeAt ss p) _ = staleEntries (p.senderState ss).active seq :=
    filterMap_getElem?_eq_staleEntries hsorted hcover
  -- the index loses each returned entry, and the queued side is never touched
  have hindex := foldl_scanRemoveStep_frame hdel PriorityMempool.priorityIndex
    (fun t e => t.erase e) (fun q n e ⟨hfiled, _⟩ he => by
      have hkey := hfiled.key_eq he
      exact (removeEntryLocked_of_filed (by rw [hkey]; exact hfiled.1)
        (by rw [hkey]; exact mem_iff_isSome_getElem?.mpr (by
          rw [show (q.senderState ss).active[n]? = some e from he]; rfl))).2.1) _ [] p
    hsorted.nodup hinv
  have hqueued := foldl_scanRemoveStep_frame hdel
    (fun q : PriorityMempool Tx => ((q.senderState ss).queued, (q.senderState ss).queuedMin,
      (q.senderState ss).queuedMax, q.queuedCount)) (fun t _ => t) (fun q n e ⟨hfiled, _⟩ he => by
      have hkey := hfiled.key_eq he
      obtain ⟨-, -, hcount, hstate⟩ := removeEntryLocked_of_filed (e := e)
        (by rw [hkey]; exact hfiled.1) (by rw [hkey]; exact mem_iff_isSome_getElem?.mpr (by
          rw [show (q.senderState ss).active[n]? = some e from he]; rfl))
      simp only [hstate, hcount, SenderState.setActiveRangeOnRemoveLocked]) _ [] p
    hsorted.nodup hinv
  rw [removeActiveStaleLocked_eq]
  refine ⟨hinv', by rw [hrem, hstale, List.nil_append], fun k => ?_, by rw [hindex, hstale], ?_⟩
  · rw [← getElem?_of_cover hcover k]
    exact hmap k
  · rw [hqueued, List.foldl_const]
    exact Function.iterate_fixed rfl _

/-- `removeQueuedStaleLocked` on a sender state with exact queued bounds: it returns the stale
queued entries in nonce order, deletes exactly them from the queued map, lowers the count by
their number, keeps the bounds exact, and leaves the pointers, the index and the active map
alone. -/
theorem removeQueuedStaleLocked_spec {p : PriorityMempool Tx} {ss : Nat} (seq : UInt64)
    (hinv : QueuedStaleInv ss p) :
    QueuedStaleInv ss (p.removeQueuedStaleLocked ss seq).2 ∧
      (p.removeQueuedStaleLocked ss seq).1 = staleEntries (p.senderState ss).queued seq ∧
      (∀ k, ((p.removeQueuedStaleLocked ss seq).2.senderState ss).queued[k]? =
        if k < seq then none else (p.senderState ss).queued[k]?) ∧
      (p.removeQueuedStaleLocked ss seq).2.queuedCount =
        p.queuedCount - Int64.ofNat (staleEntries (p.senderState ss).queued seq).length ∧
      ((p.removeQueuedStaleLocked ss seq).2.senders,
          (p.removeQueuedStaleLocked ss seq).2.priorityIndex,
          ((p.removeQueuedStaleLocked ss seq).2.senderState ss).active,
          ((p.removeQueuedStaleLocked ss seq).2.senderState ss).activeMin,
          ((p.removeQueuedStaleLocked ss seq).2.senderState ss).activeMax) =
        (p.senders, p.priorityIndex, (p.senderState ss).active, (p.senderState ss).activeMin,
          (p.senderState ss).activeMax) := by
  obtain ⟨hsorted, hcover⟩ := staleWalk_spec seq hinv
  have hdel : DeletesKey (queuedAt ss) (fun (q : PriorityMempool Tx) n _ => q.dropQueuedLocked ss n)
      (QueuedStaleInv ss) := deletesKey_dropQueuedLocked ss
  obtain ⟨hinv', hrem, hmap⟩ := foldl_scanRemoveStep hdel _ [] p hsorted.nodup hinv
  have hstale : List.filterMap (queuedAt ss p) _ = staleEntries (p.senderState ss).queued seq :=
    filterMap_getElem?_eq_staleEntries hsorted hcover
  -- each deletion lowers the count by one and touches nothing of the active side
  have hcount := foldl_scanRemoveStep_frame hdel PriorityMempool.queuedCount
    (fun c _ => c - 1) (fun q n _ _ _ => (dropQueuedLocked_eq q ss n).2.2.1) _ [] p
    hsorted.nodup hinv
  have hactive := foldl_scanRemoveStep_frame hdel
    (fun q : PriorityMempool Tx => (q.senders, q.priorityIndex, (q.senderState ss).active,
      (q.senderState ss).activeMin, (q.senderState ss).activeMax)) (fun t _ => t)
    (fun q n _ _ _ => by
      obtain ⟨hsenders, hindex, -, hstate⟩ := dropQueuedLocked_eq q ss n
      simp only [hsenders, hindex, hstate, SenderState.setQueuedRangeOnRemoveLocked]) _ [] p
    hsorted.nodup hinv
  rw [removeQueuedStaleLocked_eq]
  refine ⟨hinv', by rw [hrem, hstale, List.nil_append], fun k => ?_, ?_, ?_⟩
  · rw [← getElem?_of_cover hcover k]
    exact hmap k
  · rw [hcount, hstale, foldl_sub_one]
  · rw [hactive, List.foldl_const]
    exact Function.iterate_fixed rfl _


theorem removeStaleLocked_eq (p : PriorityMempool Tx) (ss : Nat) (seq : UInt64) :
    p.removeStaleLocked ss seq =
      ((p.removeActiveStaleLocked ss seq).1 ++
          ((p.removeActiveStaleLocked ss seq).2.removeQueuedStaleLocked ss seq).1,
        ((p.removeActiveStaleLocked ss seq).2.removeQueuedStaleLocked ss seq).2) :=
  rfl

/-- `removeStaleLocked` on a sender state that files its active entries under their keys and
caches exact bounds: it returns the stale active entries, then the stale queued ones, each in
nonce order; deletes exactly them from the active map, the priority index and the queued
map; lowers the queued count by the number of queued ones; and leaves exact bounds. -/
theorem removeStaleLocked_spec {p : PriorityMempool Tx} {sender : String} {ss : Nat}
    (seq : UInt64) (hfiled : p.ActiveFiled sender ss)
    (hactive : BoundsExact (p.senderState ss).active (p.senderState ss).activeMin
      (p.senderState ss).activeMax)
    (hqueued : BoundsExact (p.senderState ss).queued (p.senderState ss).queuedMin
      (p.senderState ss).queuedMax) :
    (p.removeStaleLocked ss seq).1 =
        staleEntries (p.senderState ss).active seq ++ staleEntries (p.senderState ss).queued seq ∧
      (∀ k, ((p.removeStaleLocked ss seq).2.senderState ss).active[k]? =
        if k < seq then none else (p.senderState ss).active[k]?) ∧
      (∀ k, ((p.removeStaleLocked ss seq).2.senderState ss).queued[k]? =
        if k < seq then none else (p.senderState ss).queued[k]?) ∧
      (p.removeStaleLocked ss seq).2.priorityIndex =
        (staleEntries (p.senderState ss).active seq).foldl (fun t e => t.erase e) p.priorityIndex ∧
      (p.removeStaleLocked ss seq).2.queuedCount =
        p.queuedCount - Int64.ofNat (staleEntries (p.senderState ss).queued seq).length ∧
      BoundsExact ((p.removeStaleLocked ss seq).2.senderState ss).active
        ((p.removeStaleLocked ss seq).2.senderState ss).activeMin
        ((p.removeStaleLocked ss seq).2.senderState ss).activeMax ∧
      BoundsExact ((p.removeStaleLocked ss seq).2.senderState ss).queued
        ((p.removeStaleLocked ss seq).2.senderState ss).queuedMin
        ((p.removeStaleLocked ss seq).2.senderState ss).queuedMax := by
  obtain ⟨hinv1, hrem1, hact1, hindex1, hframe1⟩ :=
    removeActiveStaleLocked_spec seq ⟨hfiled, hactive⟩
  simp only [Prod.mk.injEq] at hframe1
  obtain ⟨hq1, hqmin1, hqmax1, hcount1⟩ := hframe1
  -- the active loop left the queued side as it was, so the queued loop starts from it
  have hqinv : QueuedStaleInv ss (p.removeActiveStaleLocked ss seq).2 := by
    unfold QueuedStaleInv
    rw [hq1, hqmin1, hqmax1]
    exact hqueued
  obtain ⟨hinv2, hrem2, hque2, hcount2, hframe2⟩ := removeQueuedStaleLocked_spec seq hqinv
  simp only [Prod.mk.injEq] at hframe2
  obtain ⟨-, hindex2, hact2, hamin2, hamax2⟩ := hframe2
  rw [removeStaleLocked_eq]
  refine ⟨by rw [hrem1, hrem2, hq1], fun k => by rw [hact2, hact1],
    fun k => by rw [hque2, hq1], by rw [hindex2, hindex1], by rw [hcount2, hcount1, hq1], ?_, hinv2⟩
  rw [hact2, hamin2, hamax2]
  exact hinv1.2

end PriorityMempool

/-! ### Bounds stay exact -/

/-- The cached nonce bounds stay exact: deleting any nonce of either map of a sender state and
repairing the bounds leaves them exact, whatever gaps the map has; and `removeStaleLocked` on
a sender state that files its active entries under their keys, with exact bounds, removes
exactly the stale entries from the active map, the priority index and the queued map, returns
them in nonce order, lowers the queued count by the number of queued ones and leaves exact
bounds. -/
theorem staleRemoval_exact :
    (∀ (s : SenderState Tx) (n : UInt64), BoundsExact s.active s.activeMin s.activeMax →
      n ∈ s.active → BoundsExact (s.active.erase n)
        ({ s with active := s.active.erase n }.setActiveRangeOnRemoveLocked n).activeMin
        ({ s with active := s.active.erase n }.setActiveRangeOnRemoveLocked n).activeMax) ∧
    (∀ (s : SenderState Tx) (n : UInt64), BoundsExact s.queued s.queuedMin s.queuedMax →
      n ∈ s.queued → BoundsExact (s.queued.erase n)
        ({ s with queued := s.queued.erase n }.setQueuedRangeOnRemoveLocked n).queuedMin
        ({ s with queued := s.queued.erase n }.setQueuedRangeOnRemoveLocked n).queuedMax) ∧
    ∀ (p : PriorityMempool Tx) (sender : String) (ss : Nat) (seq : UInt64),
      p.ActiveFiled sender ss →
      BoundsExact (p.senderState ss).active (p.senderState ss).activeMin
        (p.senderState ss).activeMax →
      BoundsExact (p.senderState ss).queued (p.senderState ss).queuedMin
        (p.senderState ss).queuedMax →
      (p.removeStaleLocked ss seq).1 =
          staleEntries (p.senderState ss).active seq ++ staleEntries (p.senderState ss).queued seq ∧
        (∀ k, ((p.removeStaleLocked ss seq).2.senderState ss).active[k]? =
          if k < seq then none else (p.senderState ss).active[k]?) ∧
        (∀ k, ((p.removeStaleLocked ss seq).2.senderState ss).queued[k]? =
          if k < seq then none else (p.senderState ss).queued[k]?) ∧
        (p.removeStaleLocked ss seq).2.priorityIndex =
          (staleEntries (p.senderState ss).active seq).foldl (fun t e => t.erase e) p.priorityIndex ∧
        (p.removeStaleLocked ss seq).2.queuedCount =
          p.queuedCount - Int64.ofNat (staleEntries (p.senderState ss).queued seq).length ∧
        BoundsExact ((p.removeStaleLocked ss seq).2.senderState ss).active
          ((p.removeStaleLocked ss seq).2.senderState ss).activeMin
          ((p.removeStaleLocked ss seq).2.senderState ss).activeMax ∧
        BoundsExact ((p.removeStaleLocked ss seq).2.senderState ss).queued
          ((p.removeStaleLocked ss seq).2.senderState ss).queuedMin
          ((p.removeStaleLocked ss seq).2.senderState ss).queuedMax :=
  ⟨fun _ _ h hn => SenderState.setActiveRangeOnRemoveLocked_exact h hn,
    fun _ _ h hn => SenderState.setQueuedRangeOnRemoveLocked_exact h hn,
    fun _ _ _ seq hfiled hactive hqueued =>
      PriorityMempool.removeStaleLocked_spec seq hfiled hactive hqueued⟩

/-- An entry of `init1alice` at nonce `n`. -/
def aliceEntry (n : UInt64) : TxEntry SimpleTx :=
  ⟨⟨[1], n, 10, [], false, false⟩, 10, 0, ⟨"init1alice", n⟩, n, 0, 0, 10, [], 10, 0⟩

theorem mem_singleton_nonce {n k : UInt64} {e : TxEntry Tx} :
    k ∈ (∅ : NonceMap Tx).insert n e ↔ k = n := by
  rw [mem_insert, Std.LawfulEqCmp.compare_eq_iff_eq]
  simp [eq_comm]

/-- A nonce map holding one entry has that nonce as both bounds. -/
theorem boundsExact_singleton (n : UInt64) (e : TxEntry Tx) :
    BoundsExact ((∅ : NonceMap Tx).insert n e) n n := by
  refine BoundsExact.of_mem (mem_singleton_nonce.mpr rfl) (mem_singleton_nonce.mpr rfl)
    fun k hk => ?_
  rw [mem_singleton_nonce.mp hk]
  exact ⟨UInt64.le_refl n, UInt64.le_refl n⟩

/-- `init1alice` with the active nonce 3 and the queued nonce 8. -/
def stalePool : PriorityMempool SimpleTx :=
  { PriorityMempool.new ⟨0, 0, 0, 0, []⟩ false false with
    priorityIndex := (∅ : Std.TreeMap (TxEntry SimpleTx) (TxEntry SimpleTx) compareEntries).insert
      (aliceEntry 3) (aliceEntry 3)
    senders := (∅ : Std.TreeMap String Nat compare).insert "init1alice" 0
    senderStates := (∅ : Std.TreeMap Nat (SenderState SimpleTx) compare).insert 0
      ⟨3, none, 3, 3, (∅ : NonceMap SimpleTx).insert 3 (aliceEntry 3), 8, 8,
        (∅ : NonceMap SimpleTx).insert 8 (aliceEntry 8)⟩
    nextSenderState := 1
    queuedCount := 1 }

theorem senderState_stalePool :
    stalePool.senderState 0 =
      ⟨3, none, 3, 3, (∅ : NonceMap SimpleTx).insert 3 (aliceEntry 3), 8, 8,
        (∅ : NonceMap SimpleTx).insert 8 (aliceEntry 8)⟩ := by
  simp [stalePool, PriorityMempool.senderState]

/-- On-chain sequence 9 for `stalePool`: the sender state files its entry under its key and
has exact bounds, so the queued bounds after the removal are exact. -/
theorem staleRemoval_exact_stalePool :
    stalePool.ActiveFiled "init1alice" 0 ∧
      BoundsExact ((stalePool.removeStaleLocked 0 9).2.senderState 0).queued
        ((stalePool.removeStaleLocked 0 9).2.senderState 0).queuedMin
        ((stalePool.removeStaleLocked 0 9).2.senderState 0).queuedMax := by
  have hfiled : stalePool.ActiveFiled "init1alice" 0 := by
    refine ⟨by simp [stalePool], fun x hx => ?_⟩
    rw [senderState_stalePool, mem_toList_iff_getElem?_eq_some] at hx
    have hx3 : x.1 = 3 := mem_singleton_nonce.mp (mem_iff_isSome_getElem?.mpr (by rw [hx]; rfl))
    rw [hx3, getElem?_insert_self, Option.some.injEq] at hx
    rw [hx3, ← hx]
    rfl
  obtain ⟨-, -, -, -, -, -, hqueued⟩ :=
    staleRemoval_exact.2.2 stalePool "init1alice" 0 9 hfiled
      (by rw [senderState_stalePool]; exact boundsExact_singleton 3 (aliceEntry 3))
      (by rw [senderState_stalePool]; exact boundsExact_singleton 8 (aliceEntry 8))
  exact ⟨hfiled, hqueued⟩

end Initia.Abcipp
