import Mathlib

/-!
# Ordered maps: comparators and invariants of bindings

`Std.TreeMap` under a comparator that need not be lawful, where two distinct keys may
compare `.eq` and `insert` then replaces the stored key as well. A property of every
binding is kept by `insert` (of a binding that has it) and by `erase` as soon as the
comparator is transitive; for a lawful comparator it can be read at any key.

Fixed-width integers compare through `compareOfLessAndEq`, and pairs lexicographically.
-/

/-- Pairs compare lexicographically, the order of composite store keys. -/
instance instOrdProdLex {α β : Type} [Ord α] [Ord β] : Ord (α × β) := lexOrd

instance instLawfulEqOrdProdLex {α β : Type} [Ord α] [Ord β] [Std.LawfulEqOrd α]
    [Std.LawfulEqOrd β] :
    Std.LawfulEqOrd (α × β) where
  eq_of_compare {a b} h := by
    obtain ⟨h1, h2⟩ := compareLex_eq_eq.mp h
    exact Prod.ext (Std.LawfulEqOrd.eq_of_compare h1) (Std.LawfulEqOrd.eq_of_compare h2)

namespace Int64

theorem compare_eq_ite (x y : Int64) :
    compare x y = if x < y then .lt else if x = y then .eq else .gt := rfl

end Int64

namespace UInt64

theorem compare_eq_ite (x y : UInt64) :
    compare x y = if x < y then .lt else if x = y then .eq else .gt := rfl

end UInt64

namespace List

variable {α β M : Type} [AddCommGroup M] {f : α → β → M} {k : α}

/-- Over bindings with distinct keys, a sum whose summand vanishes off the key `k` is the
summand at `k`'s binding, if there is one. -/
theorem sum_map_eq_of_vanish {l : List (α × β)} (hd : l.Pairwise fun a b => a.1 ≠ b.1)
    (hf : ∀ k' v, k' ≠ k → f k' v = 0) {o : Option β} (ho : ∀ v, (k, v) ∈ l ↔ o = some v) :
    (l.map fun p => f p.1 p.2).sum = (o.map (f k)).getD 0 := by
  have hzero : ∀ l' : List (α × β), (∀ p ∈ l', f p.1 p.2 = 0) →
      (l'.map fun p => f p.1 p.2).sum = 0 := fun l' hl =>
    List.sum_eq_zero fun x hx => by
      obtain ⟨p, hp, rfl⟩ := List.mem_map.mp hx
      exact hl p hp
  cases o with
  | none =>
    -- no binding has key `k`, so every summand vanishes
    refine hzero l fun p hp => hf p.1 p.2 fun he => ?_
    have := (ho p.2).mp (he ▸ hp)
    cases this
  | some v =>
    -- the binding of `k` splits the list; the keys on either side differ from `k`
    obtain ⟨s, r, hsr⟩ := List.append_of_mem ((ho v).mpr rfl)
    rw [hsr, List.pairwise_append, List.pairwise_cons] at hd
    have hs : ∀ p ∈ s, f p.1 p.2 = 0 := fun p hp =>
      hf _ _ (hd.2.2 p hp (k, v) List.mem_cons_self)
    have hr : ∀ p ∈ r, f p.1 p.2 = 0 := fun p hp =>
      hf _ _ fun he => hd.2.1.1 p hp he.symm
    simp only [hsr, List.map_append, List.map_cons, List.sum_append, List.sum_cons,
      Option.map_some, Option.getD_some]
    rw [hzero s hs, hzero r hr, zero_add, add_zero]

end List

namespace Std.TreeMap

variable {α β : Type} {cmp : α → α → Ordering} {t : TreeMap α β cmp}
  {P Q : α → β → Prop}
  {k : α} {v : β}

/-- Every binding of `t` satisfies `P`. -/
def AllBindings (P : α → β → Prop) (t : TreeMap α β cmp) : Prop :=
  ∀ k v, (k, v) ∈ t.toList → P k v

theorem AllBindings.mono (h : t.AllBindings P) (hPQ : ∀ k v, P k v → Q k v) :
    t.AllBindings Q :=
  fun k v hkv => hPQ k v (h k v hkv)

variable [TransCmp cmp]

@[simp]
theorem allBindings_emptyc : (∅ : TreeMap α β cmp).AllBindings P := by
  intro k v h
  simp at h

theorem AllBindings.insert (h : t.AllBindings P) (hkv : P k v) :
    (t.insert k v).AllBindings P := by
  intro a b hab
  rw [mem_toList_iff_getKey?_eq_some_and_getElem?_eq_some, getKey?_insert, getElem?_insert] at hab
  split_ifs at hab
  · -- the binding just written, under its new key
    obtain ⟨hk, hv⟩ := hab
    cases hk
    cases hv
    exact hkv
  · exact h a b (mem_toList_iff_getKey?_eq_some_and_getElem?_eq_some.mpr hab)

theorem AllBindings.erase (h : t.AllBindings P) : (t.erase k).AllBindings P := by
  intro a b hab
  rw [mem_toList_iff_getKey?_eq_some_and_getElem?_eq_some, getKey?_erase, getElem?_erase] at hab
  split_ifs at hab
  · simp at hab
  · exact h a b (mem_toList_iff_getKey?_eq_some_and_getElem?_eq_some.mpr hab)

theorem AllBindings.of_getElem? [LawfulEqCmp cmp] (h : t.AllBindings P) (hk : t[k]? = some v) :
    P k v :=
  h k v (mem_toList_iff_getElem?_eq_some.mpr hk)

/-- Every binding of a map is what a lookup of its key returns. -/
theorem allBindings_getElem? [LawfulEqCmp cmp] : t.AllBindings fun k v => t[k]? = some v :=
  fun _ _ hkv => mem_toList_iff_getElem?_eq_some.mp hkv

/-- A lookup with a default that has the property has it. -/
theorem AllBindings.getD [LawfulEqCmp cmp] (h : t.AllBindings P) {d : β} (hd : P k d) :
    P k (t[k]?.getD d) := by
  cases hk : t[k]? with
  | none => exact hd
  | some v => exact h.of_getElem? hk

/-- Writing at a key the map already has keeps its keys. -/
theorem mem_insert_of_getElem? [LawfulEqCmp cmp] {k a : α} {v w : β} (hk : t[k]? = some w) :
    a ∈ t.insert k v ↔ a ∈ t := by
  rw [mem_insert]
  refine or_iff_right_of_imp fun h => ?_
  rw [← LawfulEqCmp.eq_of_compare h, mem_iff_isSome_getElem?, hk]
  rfl

theorem size_eq_zero_iff_forall_not_mem : t.size = 0 ↔ ∀ a, a ∉ t := by
  rw [← isEmpty_iff_forall_not_mem, isEmpty_eq_size_eq_zero, beq_iff_eq]

/-- A list of bindings sorted strictly by key that holds exactly the map's bindings is the
map's `toList`. -/
theorem toList_eq_of_mem_iff [LawfulEqCmp cmp] {l : List (α × β)}
    (hl : l.Pairwise fun a b => cmp a.1 b.1 = .lt) (hmem : ∀ k v, (k, v) ∈ l ↔ t[k]? = some v) :
    t.toList = l := by
  -- the strict key order is irreflexive and, vacuously, antisymmetric
  have : Std.Irrefl fun a b : α × β => cmp a.1 b.1 = .lt :=
    ⟨fun a h => by rw [(ReflCmp.compare_self : cmp a.1 a.1 = .eq)] at h; cases h⟩
  have : Std.Antisymm fun a b : α × β => cmp a.1 b.1 = .lt := ⟨fun a b hab hba => by
    rw [(OrientedCmp.eq_swap : cmp a.1 b.1 = (cmp b.1 a.1).swap), hba] at hab
    cases hab⟩
  exact List.Pairwise.eq_of_mem_iff ordered_keys_toList hl fun ⟨k, v⟩ => by
    rw [mem_toList_iff_getElem?_eq_some, hmem]

/-- Erasing keys one after another leaves the map without exactly those keys. -/
theorem getElem?_foldl_erase [LawfulEqCmp cmp] [DecidableEq α] (ks : List α) (k : α) :
    (ks.foldl (fun t k => t.erase k) t)[k]? = if k ∈ ks then none else t[k]? := by
  induction ks generalizing t with
  | nil => simp
  | cons k' ks ih =>
    rw [List.foldl_cons, ih, getElem?_erase]
    by_cases hk : k' = k
    · subst hk
      simp
    · have hne : cmp k' k ≠ .eq := fun h => hk (LawfulEqCmp.compare_eq_iff_eq.mp h)
      by_cases hmem : k ∈ ks <;> simp [hmem, hne, Ne.symm hk]

/-! ### Sums over the bindings -/

section Sum

variable {M : Type} [AddCommGroup M] {f g : α → β → M}

/-- The sum of `f` over the bindings of `t`, in key order. -/
def sumBy (t : TreeMap α β cmp) (f : α → β → M) : M :=
  (t.toList.map fun p => f p.1 p.2).sum

omit [TransCmp cmp] in
@[simp]
theorem sumBy_emptyc : (∅ : TreeMap α β cmp).sumBy f = 0 := rfl

omit [TransCmp cmp] in
theorem sumBy_add : t.sumBy (fun k v => f k v + g k v) = t.sumBy f + t.sumBy g := by
  simp [sumBy, List.sum_map_add]

omit [TransCmp cmp] in
/-- An additive map commutes with the sum. -/
theorem map_sumBy {N : Type} [AddCommGroup N] (φ : M →+ N) :
    φ (t.sumBy f) = t.sumBy fun k v => φ (f k v) := by
  rw [sumBy, map_list_sum, List.map_map]
  rfl

variable [LawfulEqCmp cmp]

/-- Summands that agree on the bindings give the same sum. -/
theorem sumBy_congr_fun (h : ∀ k v, t[k]? = some v → f k v = g k v) : t.sumBy f = t.sumBy g := by
  refine congrArg List.sum (List.map_congr_left fun p hp => ?_)
  exact h p.1 p.2 (mem_toList_iff_getElem?_eq_some.mp hp)

/-- Two maps with the same lookups have the same sums. -/
theorem sumBy_congr {t' : TreeMap α β cmp} (h : ∀ k : α, t[k]? = t'[k]?) : t.sumBy f = t'.sumBy f := by
  rw [sumBy, sumBy, (Equiv.of_forall_constGet?_eq h).toList_eq]

/-- A sum whose summand vanishes off the key `k` is the summand at `k`'s binding. -/
theorem sumBy_eq_of_vanish (hf : ∀ k' v, k' ≠ k → f k' v = 0) :
    t.sumBy f = (t[k]?.map (f k)).getD 0 :=
  List.sum_map_eq_of_vanish
    (distinct_keys_toList.imp fun {a b} h (he : a.1 = b.1) => h (he ▸ ReflCmp.compare_self)) hf
    fun _ => mem_toList_iff_getElem?_eq_some

/-- Splitting off the binding of one key. -/
theorem sumBy_eq_off_add_at (k : α) :
    t.sumBy f =
      t.sumBy (fun k' v => if cmp k' k = .eq then 0 else f k' v) + (t[k]?.map (f k)).getD 0 := by
  have hat : t.sumBy (fun k' v => if cmp k' k = .eq then f k' v else 0) =
      (t[k]?.map (f k)).getD 0 := by
    rw [sumBy_eq_of_vanish (k := k) (by simp +contextual [LawfulEqCmp.compare_eq_iff_eq])]
    cases t[k]? <;> simp [ReflCmp.compare_self]
  rw [← hat, ← sumBy_add]
  exact sumBy_congr_fun fun k' v _ => by split_ifs <;> simp

/-- Maps whose bindings agree once mapped have the same sums of what the mapping keeps. -/
theorem sumBy_congr_map {β' γ : Type} {t' : TreeMap α β' cmp} {g : β → γ} {g' : β' → γ}
    (h : ∀ k : α, t[k]?.map g = t'[k]?.map g') (F : α → γ → M) :
    t.sumBy (fun k v => F k (g v)) = t'.sumBy fun k v => F k (g' v) := by
  have hmap : ∀ {β'' : Type} (u : TreeMap α β'' cmp) (g'' : β'' → γ),
      u.sumBy (fun k v => F k (g'' v)) = (u.map fun _ v => g'' v).sumBy F := fun u g'' => by
    simp only [sumBy, toList_map, List.map_map]
    rfl
  rw [hmap t g, hmap t' g']
  exact sumBy_congr fun k => by rw [getElem?_map, getElem?_map, h k]

section Order

variable [PartialOrder M] [IsOrderedAddMonoid M]

/-- Summands that are smaller on every binding give a smaller sum. -/
theorem sumBy_le_sumBy (h : ∀ k v, t[k]? = some v → f k v ≤ g k v) : t.sumBy f ≤ t.sumBy g :=
  List.sum_le_sum fun p hp => h p.1 p.2 (mem_toList_iff_getElem?_eq_some.mp hp)

/-- Summands that are non-negative on the bindings give a non-negative sum. -/
theorem sumBy_nonneg (h : ∀ k v, t[k]? = some v → 0 ≤ f k v) : 0 ≤ t.sumBy f := by
  simpa [sumBy] using sumBy_le_sumBy (f := fun _ _ => (0 : M)) h

/-- A sum of summands that are non-negative on the bindings is at least the summand at any
binding. -/
theorem le_sumBy (h : ∀ k v, t[k]? = some v → 0 ≤ f k v) (hk : t[k]? = some v) :
    f k v ≤ t.sumBy f := by
  rw [sumBy_eq_off_add_at k, hk, Option.map_some, Option.getD_some]
  have hoff : 0 ≤ t.sumBy fun k' v => if cmp k' k = .eq then 0 else f k' v :=
    sumBy_nonneg fun k' v hv => by split_ifs <;> simp [h k' v hv]
  exact le_add_of_nonneg_left hoff

end Order

variable [BEq α] [LawfulBEqCmp cmp]

omit [TransCmp cmp] in
/-- Dropping the bindings of key `k` from a list leaves a sum that vanishes there unchanged. -/
theorem sum_map_filter_not_beq {g : α × β → M} (hg : ∀ p, cmp p.1 k = .eq → g p = 0)
    (l : List (α × β)) : ((l.filter (¬k == ·.1)).map g).sum = (l.map g).sum := by
  induction l with
  | nil => rfl
  | cons p l ih =>
    by_cases hp : (k == p.1) = true
    · have hk : cmp p.1 k = .eq := by
        have hc : cmp k p.1 = .eq := LawfulBEqCmp.compare_eq_iff_beq.mpr hp
        have he : k = p.1 := LawfulEqCmp.compare_eq_iff_eq.mp hc
        rw [← he]
        exact ReflCmp.compare_self
      rw [List.filter_cons_of_neg (by simp [hp]), ih, List.map_cons, List.sum_cons, hg p hk,
        zero_add]
    · rw [List.filter_cons_of_pos (by simpa using hp), List.map_cons, List.sum_cons, ih,
        List.map_cons, List.sum_cons]

/-- Writing a binding replaces the summand of the old one by the summand of the new one. -/
theorem sumBy_insert :
    (t.insert k v).sumBy f = t.sumBy f - (t[k]?.map (f k)).getD 0 + f k v := by
  -- off the key `k` both maps have the same bindings, up to order
  have hoff : (t.insert k v).sumBy (fun k' v => if cmp k' k = .eq then 0 else f k' v) =
      t.sumBy (fun k' v => if cmp k' k = .eq then 0 else f k' v) := by
    rw [sumBy, (toList_insert_perm.map _).sum_eq, sumBy]
    simp only [List.map_cons, ReflCmp.compare_self, if_pos, List.sum_cons, zero_add]
    exact sum_map_filter_not_beq (fun p (hp : cmp p.1 k = .eq) => if_pos hp) _
  rw [sumBy_eq_off_add_at (t := t.insert k v) k, hoff, sumBy_eq_off_add_at (t := t) (f := f) k,
    getElem?_insert_self]
  simp

/-- Erasing a binding removes its summand. -/
theorem sumBy_erase : (t.erase k).sumBy f = t.sumBy f - (t[k]?.map (f k)).getD 0 := by
  cases hk : t[k]? with
  | none =>
    have : ∀ a : α, (t.erase k)[a]? = t[a]? := fun a => by
      rw [getElem?_erase]
      split_ifs with h
      · rw [LawfulEqCmp.compare_eq_iff_eq] at h
        rw [← h, hk]
      · rfl
    simp [sumBy_congr this]
  | some w =>
    -- `t` is `t.erase k` with the binding of `k` written back
    have : ∀ a : α, t[a]? = ((t.erase k).insert k w)[a]? := fun a => by
      rw [getElem?_insert, getElem?_erase]
      split_ifs with h
      · rw [LawfulEqCmp.compare_eq_iff_eq] at h
        rw [← h, hk]
      · rfl
    rw [sumBy_congr this, sumBy_insert, getElem?_erase_self]
    simp

omit [TransCmp cmp] [LawfulEqCmp cmp] [BEq α] [LawfulBEqCmp cmp] in
/-- Summing over the bindings a filter keeps is summing the summand where the filter holds. -/
theorem sumBy_filter {q : α → β → Bool} :
    (t.filter q).sumBy f = t.sumBy fun k v => if q k v then f k v else 0 := by
  rw [sumBy, toList_filter, sumBy]
  induction t.toList with
  | nil => rfl
  | cons p l ih =>
    by_cases hq : q p.1 p.2 <;> simp [hq, ih]

omit [TransCmp cmp] [LawfulEqCmp cmp] [BEq α] [LawfulBEqCmp cmp] in
/-- The sums over two maps may be taken in either order. -/
theorem sumBy_comm {ι γ : Type} {cmp' : ι → ι → Ordering} {u : TreeMap ι γ cmp'}
    {F : α → β → ι → γ → M} :
    t.sumBy (fun k v => u.sumBy (F k v)) = u.sumBy fun i x => t.sumBy fun k v => F k v i x := by
  unfold sumBy
  induction t.toList with
  | nil => simp
  | cons p l ih => simp [ih, List.sum_map_add]

end Sum

/-! ### Counting bindings -/

section Count

/-- The number of bindings of `t` that `p` holds of. -/
def countBy (t : TreeMap α β cmp) (p : α → β → Prop) [∀ k v, Decidable (p k v)] : ℤ :=
  t.sumBy fun k v => if p k v then 1 else 0

variable {p : α → β → Prop} [∀ k v, Decidable (p k v)]

omit [TransCmp cmp] in
theorem countBy_nonneg : 0 ≤ t.countBy p :=
  List.sum_nonneg fun x hx => by
    obtain ⟨q, -, rfl⟩ := List.mem_map.mp hx
    dsimp only
    split_ifs <;> norm_num

omit [TransCmp cmp] in
/-- The size of a map is the number of its bindings. -/
theorem countBy_true : t.countBy (fun _ _ => True) = t.size := by
  simp [countBy, sumBy, length_toList]

variable [LawfulEqCmp cmp]

theorem countBy_eq_zero (h : ∀ k v, t[k]? = some v → ¬p k v) : t.countBy p = 0 := by
  rw [countBy, sumBy_congr_fun (g := fun _ _ => 0) fun k v hkv => if_neg (h k v hkv)]
  simp [sumBy]

/-- Predicates that agree on the bindings count the same. -/
theorem countBy_congr {q : α → β → Prop} [∀ k v, Decidable (q k v)]
    (h : ∀ k v, t[k]? = some v → (p k v ↔ q k v)) : t.countBy p = t.countBy q :=
  sumBy_congr_fun fun k v hkv => if_congr (h k v hkv) rfl rfl

/-- A binding that `p` holds of is counted. -/
theorem one_le_countBy (hk : t[k]? = some v) (hp : p k v) : 1 ≤ t.countBy p := by
  rw [countBy, sumBy_eq_off_add_at k, hk, Option.map_some, Option.getD_some, if_pos hp]
  have hrest : 0 ≤ t.sumBy fun k' v => if cmp k' k = .eq then (0 : ℤ) else if p k' v then 1 else 0 :=
    List.sum_nonneg fun x hx => by
      obtain ⟨q, -, rfl⟩ := List.mem_map.mp hx
      dsimp only
      split_ifs <;> norm_num
  omega

section Write

variable [BEq α] [LawfulBEqCmp cmp]

theorem countBy_insert : (t.insert k v).countBy p =
    t.countBy p - (t[k]?.map fun w => if p k w then 1 else 0).getD 0 + if p k v then 1 else 0 :=
  sumBy_insert

theorem countBy_erase :
    (t.erase k).countBy p = t.countBy p - (t[k]?.map fun w => if p k w then 1 else 0).getD 0 :=
  sumBy_erase

end Write

theorem countBy_filter {q : α → β → Bool} :
    (t.filter q).countBy p = t.countBy fun k v => q k v = true ∧ p k v := by
  rw [countBy, sumBy_filter, countBy]
  exact sumBy_congr_fun fun k v _ => by by_cases hq : q k v <;> simp [hq]

/-- Counting, for every key of `t`, the bindings of `u` that point at it counts each binding of
`u` once, when every one of them points at a key of `t`. -/
theorem sumBy_countBy_eq_size [DecidableEq α] {ι γ : Type} {cmp' : ι → ι → Ordering}
    [TransCmp cmp'] [LawfulEqCmp cmp'] {u : TreeMap ι γ cmp'} {g : ι → γ → α}
    (hg : ∀ i x, u[i]? = some x → g i x ∈ t) :
    t.sumBy (fun k _ => u.countBy fun i x => g i x = k) = u.size := by
  rw [← countBy_true]
  unfold countBy
  rw [sumBy_comm]
  refine sumBy_congr_fun fun i x hix => ?_
  -- the binding of `u` points at exactly one key of `t`
  obtain ⟨w, hw⟩ := Option.isSome_iff_exists.mp (mem_iff_isSome_getElem?.mp (hg i x hix))
  rw [sumBy_eq_of_vanish (k := g i x) fun k' _ hk' => if_neg fun h => hk' h.symm, hw]
  simp

end Count

end Std.TreeMap
