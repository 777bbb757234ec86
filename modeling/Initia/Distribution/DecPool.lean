import Mathlib
import Initia.Lib.SortedAssoc
import Initia.Distribution.Types

/-!
# Pool slices

`x/distribution/types` stores reward pools as slices sorted by pool denomination: `DecPools` is
a `[]DecPool` and `Pools` a `[]Pool`, where a record is a pool denomination with its coins. The
other files of this development read pools as the finite maps `Distribution.DecPools` and
`Distribution.Pools`. Here the slices themselves are modelled as lists (`DecPoolSlice`,
`PoolSlice`), each read as the map it stands for (`toDecPools`, `toPools`), and every operation
on slices is shown to compute the operation on maps, on slices sorted by denomination:

* `Add` merges two slices with two pointers (`SortedAssoc.mergeLoop`) into a sorted slice with
  no empty pool that stands for the sum (`DecPoolSlice.add_spec`);
* `SafeSub` adds the negated slice and flags a negative coin (`DecPoolSlice.safeSub_spec`);
* `CoinsOf` searches by halving the slice (`SortedAssoc.search`) and finds what the linear
  lookup finds (`DecPoolSlice.coinsOf_eq_valAt`);
* `Intersect` caps each pool at what the other slice holds in the same pool
  (`DecPoolSlice.intersect_spec`);
* `TruncateDecimal` splits every pool into its integer part and its change and gathers each
  side with `Add` (`DecPoolSlice.truncateDecimal_spec`); the integer side goes through
  `Pools.Add`, which gathers the pools of each denomination in a Go map and sorts them
  afterwards (`SortedAssoc.coalesce`).

The coins inside a pool are the `DecCoins` and `Coins` maps of `Sdk.Coins`. `Add` panics on a
slice that is not sorted, and a negative amount panics in `TruncateDecimal`; a panic is `none`.

Source: `x/distribution/types/dec_pool.go`, `x/distribution/types/pool.go`.
-/

namespace Initia.Distribution

open Initia.Sdk SortedAssoc

/-- `Pool`: the coins of one reward pool. -/
structure Pool where
  denom : String
  coins : Coins

/-- `DecPool`: the decimal coins of one reward pool. -/
structure DecPool where
  denom : String
  decCoins : DecCoins

namespace Pool

/-- `IsEmpty`. -/
def isEmpty (pool : Pool) : Bool :=
  pool.coins.isZero

/-- `Add`, on two pools of one denomination. -/
def add (pool poolB : Pool) : Pool :=
  ⟨pool.denom, pool.coins + poolB.coins⟩

end Pool

namespace DecPool

/-- `IsEmpty`: every coin is zero; a pool with a negative coin is not empty. -/
def isEmpty (pool : DecPool) : Bool :=
  pool.decCoins.isZero

/-- `Add`, on two pools of one denomination. -/
def add (pool poolB : DecPool) : DecPool :=
  ⟨pool.denom, pool.decCoins + poolB.decCoins⟩

/-- `TruncateDecimal`: the integer parts of the coins as a `Pool`, and the change. -/
def truncateDecimal (pool : DecPool) : Option (Pool × DecPool) :=
  pool.decCoins.truncateDecimal.map fun parts => (⟨pool.denom, parts.1⟩, ⟨pool.denom, parts.2⟩)

end DecPool

/-- `Pools`, the slice. -/
abbrev PoolSlice := List Pool

/-- `DecPools`, the slice. -/
abbrev DecPoolSlice := List DecPool

namespace PoolSlice

/-- `isSorted`. -/
def isSorted (pools : PoolSlice) : Bool :=
  SortedAssoc.isSorted Pool.denom pools

/-- `safeAdd`: both slices must be sorted. The pools of each denomination are added up from an
empty pool of that denomination, the empty sums dropped and the rest sorted; the Go map that
gathers them leaves an order that the final sort removes. -/
def safeAdd (pools poolsB : PoolSlice) : Option PoolSlice :=
  if !pools.isSorted then none
  else if !poolsB.isSorted then none
  else some (coalesce Pool.denom (fun denom => ⟨denom, 0⟩) Pool.add Pool.isEmpty (pools ++ poolsB))

/-- `Add`. -/
def add (pools poolsB : PoolSlice) : Option PoolSlice :=
  pools.safeAdd poolsB

/-- `pools = pools.Add(pool)` unless the pool is empty. -/
def addUnlessEmpty (pools : PoolSlice) (pool : Pool) : Option PoolSlice :=
  if pool.isEmpty then some pools else pools.add [pool]

/-- The map a slice stands for. -/
def toPools (pools : PoolSlice) : Pools :=
  (pools.map fun pool => Amounts.single pool.denom pool.coins).sum

end PoolSlice

namespace DecPoolSlice

/-- `isSorted`. -/
def isSorted (pools : DecPoolSlice) : Bool :=
  SortedAssoc.isSorted DecPool.denom pools

/-- `removeZeroDecPools`. -/
def removeZeroDecPools (pools : DecPoolSlice) : DecPoolSlice :=
  pools.filter fun pool => !pool.isEmpty

/-- `safeAdd`: both slices must be sorted; the two-pointer merge. -/
def safeAdd (pools poolsB : DecPoolSlice) : Option DecPoolSlice :=
  if !pools.isSorted then none
  else if !poolsB.isSorted then none
  else some (mergeLoop DecPool.denom DecPool.add DecPool.isEmpty [] pools poolsB)

/-- `Add`. -/
def add (pools poolsB : DecPoolSlice) : Option DecPoolSlice :=
  pools.safeAdd poolsB

/-- `negative`: every coin negated. -/
def negative (pools : DecPoolSlice) : DecPoolSlice :=
  pools.map fun pool => ⟨pool.denom, -pool.decCoins⟩

/-- `pools = pools.Add(pool)` unless the pool is empty. -/
def addUnlessEmpty (pools : DecPoolSlice) (pool : DecPool) : Option DecPoolSlice :=
  if pool.isEmpty then some pools else pools.add [pool]

/-- `IsAnyNegative`. -/
def isAnyNegative (pools : DecPoolSlice) : Bool :=
  pools.any fun pool => pool.decCoins.isAnyNegative

/-- `SafeSub`: the sum with the negated slice, and whether it holds a negative coin. -/
def safeSub (pools poolsB : DecPoolSlice) : Option (DecPoolSlice × Bool) :=
  (pools.safeAdd poolsB.negative).map fun diff => (diff, diff.isAnyNegative)

/-- `CoinsOf`: the binary search, and no coins when the denomination is missing. -/
def coinsOf (pools : DecPoolSlice) (denom : String) : DecCoins :=
  ((search DecPool.denom pools denom).map DecPool.decCoins).getD 0

/-- `Intersect`: each pool's coins capped at what `poolsB` holds in the same pool, the pools
left empty dropped. -/
def intersect (pools poolsB : DecPoolSlice) : DecPoolSlice :=
  removeZeroDecPools (pools.map fun pool =>
    ⟨pool.denom, pool.decCoins.intersect (poolsB.coinsOf pool.denom)⟩)

/-- One round of `TruncateDecimal`: the integer part of the pool is added to the truncated
pools and its change to the change pools, each only when it is not empty. -/
def truncateDecimalStep (acc : PoolSlice × DecPoolSlice) (pool : DecPool) :
    Option (PoolSlice × DecPoolSlice) := do
  let (truncated, change) ← pool.truncateDecimal
  let truncatedDecPools ← acc.1.addUnlessEmpty truncated
  let changeDecPools ← acc.2.addUnlessEmpty change
  pure (truncatedDecPools, changeDecPools)

/-- `TruncateDecimal`. -/
def truncateDecimal (pools : DecPoolSlice) : Option (PoolSlice × DecPoolSlice) :=
  pools.foldlM truncateDecimalStep ([], [])

/-- The map a slice stands for. -/
def toDecPools (pools : DecPoolSlice) : DecPools :=
  (pools.map fun pool => Amounts.single pool.denom pool.decCoins).sum

/-- Every coin of every pool is positive, as `sdk.DecCoins.Validate` asks; the coins hold no
zero amount, so that is every amount non-negative. -/
def ValidCoins (pools : DecPoolSlice) : Prop :=
  ∀ pool ∈ pools, ∀ denom, 0 ≤ pool.decCoins.amountOf denom

end DecPoolSlice

/-! ### Slices read as maps -/

namespace DecPool

/-- The integer part of a pool, as `TruncateDecimal` returns it on non-negative coins. -/
def truncated (pool : DecPool) : Pool :=
  ⟨pool.denom, pool.decCoins.mapNonzero fun _ x => x.truncateInt⟩

/-- The change of a pool, as `TruncateDecimal` returns it on non-negative coins. -/
def change (pool : DecPool) : DecPool :=
  ⟨pool.denom, pool.decCoins.mapNonzero fun _ x => x - Fixed.ofInt x.truncateInt⟩

theorem isEmpty_eq_true {pool : DecPool} : pool.isEmpty = true ↔ pool.decCoins = 0 :=
  Amounts.isZero_iff

theorem truncateDecimal_of_nonneg {pool : DecPool} (h : ∀ d, 0 ≤ pool.decCoins.amountOf d) :
    pool.truncateDecimal = some (pool.truncated, pool.change) := by
  rw [truncateDecimal, DecCoins.truncateDecimal_of_nonneg h]
  rfl

end DecPool

theorem Pool.isEmpty_eq_true {pool : Pool} : pool.isEmpty = true ↔ pool.coins = 0 :=
  Amounts.isZero_iff

namespace PoolSlice

@[simp]
theorem toPools_nil : toPools [] = 0 := rfl

@[simp]
theorem toPools_cons (pool : Pool) (pools : PoolSlice) :
    toPools (pool :: pools) = Amounts.single pool.denom pool.coins + toPools pools :=
  List.sum_cons

theorem amountOf_toPools (pools : PoolSlice) (denom : String) :
    pools.toPools.amountOf denom = sumAt Pool.denom Pool.coins pools denom := by
  simp [toPools, sumAt, Function.comp_def]

/-- `Add` of two sorted slices returns a sorted slice with no empty pool, standing for the sum. -/
theorem add_spec {pools poolsB : PoolSlice} (h : SortedKeys Pool.denom pools)
    (hB : SortedKeys Pool.denom poolsB) :
    ∃ sum, pools.add poolsB = some sum ∧ Canonical Pool.denom Pool.isEmpty sum ∧
      sum.toPools = pools.toPools + poolsB.toPools := by
  refine ⟨coalesce Pool.denom (fun denom => ⟨denom, 0⟩) Pool.add Pool.isEmpty (pools ++ poolsB), ?_,
    canonical_coalesce (fun _ _ => by rfl) (fun _ => by rfl) _, Amounts.ext fun denom => ?_⟩
  · rw [add, safeAdd, isSorted, isSorted, isSorted_of_sortedKeys h, isSorted_of_sortedKeys hB]
    rfl
  · rw [Amounts.amountOf_add, amountOf_toPools, amountOf_toPools, amountOf_toPools,
      sumAt_coalesce (fun _ _ => by rfl) (fun _ _ => by rfl) (fun _ => ⟨by rfl, by rfl⟩)
        (fun _ hp => Pool.isEmpty_eq_true.mp hp), sumAt_append]

theorem addUnlessEmpty_spec {acc : PoolSlice} (h : Canonical Pool.denom Pool.isEmpty acc) (pool : Pool) :
    ∃ acc', acc.addUnlessEmpty pool = some acc' ∧ Canonical Pool.denom Pool.isEmpty acc' ∧
      acc'.toPools = acc.toPools + Amounts.single pool.denom pool.coins := by
  by_cases hp : pool.isEmpty
  · refine ⟨acc, if_pos hp, h, ?_⟩
    rw [Pool.isEmpty_eq_true.mp hp]
    exact Amounts.ext fun denom => by simp
  · obtain ⟨sum, hsum, hcan, hval⟩ := add_spec h.sorted (List.pairwise_singleton _ pool)
    exact ⟨sum, by rw [addUnlessEmpty, if_neg hp, hsum], hcan, by simp [hval]⟩

end PoolSlice

namespace DecPoolSlice

@[simp]
theorem toDecPools_nil : toDecPools [] = 0 := rfl

@[simp]
theorem toDecPools_cons (pool : DecPool) (pools : DecPoolSlice) :
    toDecPools (pool :: pools) = Amounts.single pool.denom pool.decCoins + toDecPools pools :=
  List.sum_cons

theorem amountOf_toDecPools (pools : DecPoolSlice) (denom : String) :
    pools.toDecPools.amountOf denom = sumAt DecPool.denom DecPool.decCoins pools denom := by
  simp [toDecPools, sumAt, Function.comp_def]

theorem safeAdd_of_sorted {pools poolsB : DecPoolSlice} (h : SortedKeys DecPool.denom pools)
    (hB : SortedKeys DecPool.denom poolsB) :
    pools.safeAdd poolsB = some (mergeLoop DecPool.denom DecPool.add DecPool.isEmpty [] pools poolsB) := by
  rw [safeAdd, isSorted, isSorted, isSorted_of_sortedKeys h, isSorted_of_sortedKeys hB]
  rfl

/-- `Add` of two sorted slices returns a sorted slice with no empty pool, standing for the sum. -/
theorem add_spec {pools poolsB : DecPoolSlice} (h : SortedKeys DecPool.denom pools)
    (hB : SortedKeys DecPool.denom poolsB) :
    ∃ sum, pools.add poolsB = some sum ∧ Canonical DecPool.denom DecPool.isEmpty sum ∧
      sum.toDecPools = pools.toDecPools + poolsB.toDecPools := by
  refine ⟨mergeLoop DecPool.denom DecPool.add DecPool.isEmpty [] pools poolsB, safeAdd_of_sorted h hB,
    canonical_mergeLoop (fun _ _ => by rfl) h hB, Amounts.ext fun denom => ?_⟩
  rw [Amounts.amountOf_add, amountOf_toDecPools, amountOf_toDecPools, amountOf_toDecPools,
    sumAt_mergeLoop (fun _ _ => by rfl) (fun _ _ => by rfl) (fun _ hp => DecPool.isEmpty_eq_true.mp hp),
    sumAt_nil, zero_add]

theorem addUnlessEmpty_spec {acc : DecPoolSlice} (h : Canonical DecPool.denom DecPool.isEmpty acc)
    (pool : DecPool) :
    ∃ acc', acc.addUnlessEmpty pool = some acc' ∧ Canonical DecPool.denom DecPool.isEmpty acc' ∧
      acc'.toDecPools = acc.toDecPools + Amounts.single pool.denom pool.decCoins := by
  by_cases hp : pool.isEmpty
  · refine ⟨acc, if_pos hp, h, ?_⟩
    rw [DecPool.isEmpty_eq_true.mp hp]
    exact Amounts.ext fun denom => by simp
  · obtain ⟨sum, hsum, hcan, hval⟩ := add_spec h.sorted (List.pairwise_singleton _ pool)
    exact ⟨sum, by rw [addUnlessEmpty, if_neg hp, hsum], hcan, by simp [hval]⟩

theorem sortedKeys_negative {pools : DecPoolSlice} (h : SortedKeys DecPool.denom pools) :
    SortedKeys DecPool.denom pools.negative :=
  h.map fun _ => rfl

theorem toDecPools_negative (pools : DecPoolSlice) : pools.negative.toDecPools = -pools.toDecPools := by
  refine Amounts.ext fun denom => ?_
  have hneg : sumAt DecPool.denom DecPool.decCoins pools.negative denom =
      -sumAt DecPool.denom DecPool.decCoins pools denom := by
    refine sumAt_map (negAddMonoidHom : DecCoins →+ DecCoins) ?_ ?_ <;> intro _ <;> rfl
  rw [Amounts.amountOf_neg, amountOf_toDecPools, amountOf_toDecPools, hneg]

/-- On a sorted slice the flag of `IsAnyNegative` reads the map: some coin of some pool is
negative. -/
theorem isAnyNegative_iff {pools : DecPoolSlice} (h : SortedKeys DecPool.denom pools) :
    pools.isAnyNegative = true ↔ ∃ denom d, (pools.toDecPools.coinsOf denom).amountOf d < 0 := by
  rw [isAnyNegative, List.any_eq_true]
  simp only [Amounts.isAnyNegative_iff]
  rw [exists_mem_iff_exists_sumAt (P := fun coins : DecCoins => ∃ d, coins.amountOf d < 0) h
    (by simp)]
  simp only [DecPools.coinsOf, amountOf_toDecPools]

/-- `SafeSub` of two sorted slices returns a sorted slice with no empty pool, standing for the
difference, and flags exactly a negative coin of it. -/
theorem safeSub_spec {pools poolsB : DecPoolSlice} (h : SortedKeys DecPool.denom pools)
    (hB : SortedKeys DecPool.denom poolsB) :
    ∃ diff, pools.safeSub poolsB = some (diff, diff.isAnyNegative) ∧
      Canonical DecPool.denom DecPool.isEmpty diff ∧
      diff.toDecPools = pools.toDecPools - poolsB.toDecPools ∧
      (diff.isAnyNegative = true ↔
        ∃ denom d, ((pools.toDecPools - poolsB.toDecPools).coinsOf denom).amountOf d < 0) := by
  obtain ⟨diff, hdiff, hcan, hval⟩ := add_spec h (sortedKeys_negative hB)
  have hsub : diff.toDecPools = pools.toDecPools - poolsB.toDecPools := by
    rw [hval, toDecPools_negative, sub_eq_add_neg]
  refine ⟨diff, ?_, hcan, hsub, hsub ▸ isAnyNegative_iff hcan.sorted⟩
  rw [safeSub, ← add, hdiff]
  rfl

/-- The binary search of `CoinsOf` finds what the linear lookup finds. -/
theorem coinsOf_eq_valAt {pools : DecPoolSlice} (h : SortedKeys DecPool.denom pools)
    (denom : String) : pools.coinsOf denom = valAt DecPool.denom DecPool.decCoins pools denom := by
  rw [coinsOf, search_eq_lookup h]
  rfl

theorem coinsOf_eq_toDecPools {pools : DecPoolSlice} (h : SortedKeys DecPool.denom pools)
    (denom : String) : pools.coinsOf denom = pools.toDecPools.coinsOf denom := by
  rw [coinsOf_eq_valAt h, valAt_eq_sumAt h, DecPools.coinsOf, amountOf_toDecPools]

/-- `Intersect` of two sorted slices returns a sorted slice with no empty pool, standing for the
intersection of the maps. -/
theorem intersect_spec {pools poolsB : DecPoolSlice} (h : SortedKeys DecPool.denom pools)
    (hB : SortedKeys DecPool.denom poolsB) :
    Canonical DecPool.denom DecPool.isEmpty (pools.intersect poolsB) ∧
      (pools.intersect poolsB).toDecPools = pools.toDecPools.intersect poolsB.toDecPools := by
  have hmap : SortedKeys DecPool.denom (pools.map fun pool =>
      (⟨pool.denom, pool.decCoins.intersect (poolsB.coinsOf pool.denom)⟩ : DecPool)) :=
    h.map fun _ => rfl
  refine ⟨⟨hmap.sublist List.filter_sublist, fun pool hp => by
    simpa using (List.mem_filter.mp hp).2⟩, Amounts.ext fun denom => ?_⟩
  -- each pool is capped on its own, and a missing pool stays missing
  have hcap : valAt DecPool.denom DecPool.decCoins (pools.map fun pool =>
      (⟨pool.denom, pool.decCoins.intersect (poolsB.coinsOf pool.denom)⟩ : DecPool)) denom =
      (valAt DecPool.denom DecPool.decCoins pools denom).intersect (poolsB.coinsOf denom) := by
    refine valAt_map (g := fun denom (coins : DecCoins) => coins.intersect (poolsB.coinsOf denom))
      ?_ ?_ fun _ => Amounts.mapNonzero_zero <;> intro _ <;> rfl
  rw [amountOf_toDecPools, intersect, removeZeroDecPools,
    sumAt_filter fun _ hp => DecPool.isEmpty_eq_true.mp (by simpa using hp),
    ← valAt_eq_sumAt hmap, hcap, valAt_eq_sumAt h, ← amountOf_toDecPools, DecPools.intersect,
    Amounts.amountOf_mapNonzero Amounts.mapNonzero_zero, coinsOf_eq_toDecPools hB]

/-- Every coin a sorted slice of valid pools stands for is non-negative. -/
theorem ValidCoins.amountOf_nonneg {pools : DecPoolSlice} (hv : pools.ValidCoins)
    (h : SortedKeys DecPool.denom pools) (denom d : String) :
    0 ≤ (pools.toDecPools.coinsOf denom).amountOf d := by
  rw [DecPools.coinsOf, amountOf_toDecPools, ← valAt_eq_sumAt h, valAt]
  cases hl : lookup DecPool.denom pools denom with
  | none => simp
  | some pool => exact hv pool (List.mem_of_find?_eq_some hl) d

/-- A round of `TruncateDecimal` on a pool of non-negative coins returns, adding the pool's
integer part to the one slice and its change to the other. -/
theorem truncateDecimalStep_spec {acc : PoolSlice × DecPoolSlice} {pool : DecPool}
    (h₁ : Canonical Pool.denom Pool.isEmpty acc.1) (h₂ : Canonical DecPool.denom DecPool.isEmpty acc.2)
    (hpool : ∀ d, 0 ≤ pool.decCoins.amountOf d) :
    ∃ acc', truncateDecimalStep acc pool = some acc' ∧
      Canonical Pool.denom Pool.isEmpty acc'.1 ∧ Canonical DecPool.denom DecPool.isEmpty acc'.2 ∧
      acc'.1.toPools = acc.1.toPools + Amounts.single pool.denom pool.truncated.coins ∧
      acc'.2.toDecPools = acc.2.toDecPools + Amounts.single pool.denom pool.change.decCoins := by
  obtain ⟨t, ht, htc, htv⟩ := PoolSlice.addUnlessEmpty_spec h₁ pool.truncated
  obtain ⟨c, hc, hcc, hcv⟩ := addUnlessEmpty_spec h₂ pool.change
  refine ⟨(t, c), ?_, htc, hcc, htv, hcv⟩
  rw [truncateDecimalStep, DecPool.truncateDecimal_of_nonneg hpool]
  exact Option.bind_eq_some_iff.mpr ⟨_, rfl, Option.bind_eq_some_iff.mpr ⟨t, ht,
    Option.bind_eq_some_iff.mpr ⟨c, hc, rfl⟩⟩⟩

/-- The loop of `TruncateDecimal` over pools of non-negative coins returns: from two canonical
slices it reaches two canonical slices that have gained the integer parts and the changes of
all its pools. -/
theorem foldlM_truncateDecimalStep {pools : DecPoolSlice} (hv : pools.ValidCoins)
    (acc : PoolSlice × DecPoolSlice) (h₁ : Canonical Pool.denom Pool.isEmpty acc.1)
    (h₂ : Canonical DecPool.denom DecPool.isEmpty acc.2) :
    ∃ r, pools.foldlM truncateDecimalStep acc = some r ∧
      Canonical Pool.denom Pool.isEmpty r.1 ∧ Canonical DecPool.denom DecPool.isEmpty r.2 ∧
      r.1.toPools = acc.1.toPools + PoolSlice.toPools (pools.map DecPool.truncated) ∧
      r.2.toDecPools = acc.2.toDecPools + toDecPools (pools.map DecPool.change) := by
  induction pools generalizing acc with
  | nil => exact ⟨acc, rfl, h₁, h₂, by simp, by simp⟩
  | cons pool pools ih =>
    obtain ⟨acc', hstep, h₁', h₂', ht, hc⟩ :=
      truncateDecimalStep_spec h₁ h₂ (hv pool List.mem_cons_self)
    obtain ⟨r, hr, hr₁, hr₂, hrt, hrc⟩ :=
      ih (fun pool hp => hv pool (List.mem_cons_of_mem _ hp)) acc' h₁' h₂'
    refine ⟨r, by rw [List.foldlM_cons, hstep]; exact hr, hr₁, hr₂, ?_, ?_⟩
    · rw [hrt, ht, List.map_cons, PoolSlice.toPools_cons, add_assoc]
      rfl
    · rw [hrc, hc, List.map_cons, toDecPools_cons, add_assoc]
      rfl

/-- The integer parts of the pools of a sorted slice stand for the integer parts of its map. -/
theorem toPools_map_truncated {pools : DecPoolSlice} (h : SortedKeys DecPool.denom pools) :
    PoolSlice.toPools (pools.map DecPool.truncated) =
      pools.toDecPools.mapNonzero fun _ coins => coins.mapNonzero fun _ x => x.truncateInt := by
  refine Amounts.ext fun denom => ?_
  have hsorted : SortedKeys Pool.denom (pools.map DecPool.truncated) := h.map fun _ => rfl
  have hpart : valAt Pool.denom Pool.coins (pools.map DecPool.truncated) denom =
      (valAt DecPool.denom DecPool.decCoins pools denom).mapNonzero fun _ x => x.truncateInt := by
    refine valAt_map (g := fun (_ : String) (coins : DecCoins) => coins.mapNonzero fun _ x => x.truncateInt)
      ?_ ?_ fun _ => Amounts.mapNonzero_zero <;> intro _ <;> rfl
  rw [PoolSlice.amountOf_toPools, ← valAt_eq_sumAt hsorted, hpart, valAt_eq_sumAt h,
    ← amountOf_toDecPools, Amounts.amountOf_mapNonzero Amounts.mapNonzero_zero]

/-- The changes of the pools of a sorted slice stand for the changes of its map. -/
theorem toDecPools_map_change {pools : DecPoolSlice} (h : SortedKeys DecPool.denom pools) :
    toDecPools (pools.map DecPool.change) = pools.toDecPools.mapNonzero fun _ coins =>
      coins.mapNonzero fun _ x => x - Fixed.ofInt x.truncateInt := by
  refine Amounts.ext fun denom => ?_
  have hsorted : SortedKeys DecPool.denom (pools.map DecPool.change) := h.map fun _ => rfl
  have hpart : valAt DecPool.denom DecPool.decCoins (pools.map DecPool.change) denom =
      (valAt DecPool.denom DecPool.decCoins pools denom).mapNonzero
        fun _ x => x - Fixed.ofInt x.truncateInt := by
    refine valAt_map (g := fun (_ : String) (coins : DecCoins) =>
      coins.mapNonzero fun _ x => x - Fixed.ofInt x.truncateInt)
      ?_ ?_ fun _ => Amounts.mapNonzero_zero <;> intro _ <;> rfl
  rw [amountOf_toDecPools, ← valAt_eq_sumAt hsorted, hpart, valAt_eq_sumAt h,
    ← amountOf_toDecPools, Amounts.amountOf_mapNonzero Amounts.mapNonzero_zero]

/-- `TruncateDecimal` of a sorted slice of valid pools returns two sorted slices with no empty
pool, standing for what the map's truncation returns. -/
theorem truncateDecimal_spec {pools : DecPoolSlice} (h : SortedKeys DecPool.denom pools)
    (hv : pools.ValidCoins) :
    ∃ truncated change, pools.truncateDecimal = some (truncated, change) ∧
      Canonical Pool.denom Pool.isEmpty truncated ∧ Canonical DecPool.denom DecPool.isEmpty change ∧
      pools.toDecPools.truncateDecimal = some (truncated.toPools, change.toDecPools) := by
  obtain ⟨r, hr, h₁, h₂, ht, hc⟩ :=
    foldlM_truncateDecimalStep hv ([], []) ⟨List.Pairwise.nil, by simp⟩ ⟨List.Pairwise.nil, by simp⟩
  refine ⟨r.1, r.2, hr, h₁, h₂, ?_⟩
  have hneg : pools.toDecPools.isAnyNegative = false :=
    DecPools.isAnyNegative_eq_false_iff.mpr (hv.amountOf_nonneg h)
  rw [DecPools.truncateDecimal, if_neg (by rw [hneg]; decide), ht, hc, PoolSlice.toPools_nil,
    toDecPools_nil, zero_add, zero_add, toPools_map_truncated h, toDecPools_map_change h]

/-- On sorted slices with `poolsB` valid, `Intersect` holds the smaller of the two amounts of
every coin of every pool. -/
theorem amountOf_intersect {pools poolsB : DecPoolSlice} (h : SortedKeys DecPool.denom pools)
    (hB : SortedKeys DecPool.denom poolsB) (hv : poolsB.ValidCoins) (denom d : String) :
    ((pools.intersect poolsB).toDecPools.coinsOf denom).amountOf d =
      min ((pools.toDecPools.coinsOf denom).amountOf d) ((poolsB.toDecPools.coinsOf denom).amountOf d) := by
  rw [(intersect_spec h hB).2, DecPools.intersect, DecPools.coinsOf,
    Amounts.amountOf_mapNonzero Amounts.mapNonzero_zero, DecCoins.intersect,
    Amounts.amountOf_inter_of_nonneg (hv.amountOf_nonneg hB denom d)]
  rfl

end DecPoolSlice

namespace DecPools

/-- What the truncation of pools returns adds back up to them, pool by pool. -/
theorem truncateDecimal_add_at {pools : DecPools} {truncated : Pools} {change : DecPools}
    (h : pools.truncateDecimal = some (truncated, change)) (denom : String) :
    (truncated.amountOf denom).toDecCoins + change.coinsOf denom = pools.coinsOf denom := by
  unfold truncateDecimal at h
  split_ifs at h
  cases h
  rw [coinsOf, coinsOf, Amounts.amountOf_mapNonzero Amounts.mapNonzero_zero,
    Amounts.amountOf_mapNonzero Amounts.mapNonzero_zero]
  exact DecCoins.truncated_add_change _

/-- Every change a truncation of pools returns lies in `[0, 1)`. -/
theorem truncateDecimal_change_mem {pools : DecPools} {truncated : Pools} {change : DecPools}
    (h : pools.truncateDecimal = some (truncated, change)) (denom d : String) :
    0 ≤ (change.coinsOf denom).amountOf d ∧ (change.coinsOf denom).amountOf d < 1 := by
  unfold truncateDecimal at h
  split_ifs at h with hneg
  cases h
  have hx : 0 ≤ (pools.coinsOf denom).amountOf d :=
    isAnyNegative_eq_false_iff.mp (Bool.eq_false_iff.mpr hneg) denom d
  have hzero : (0 : LegacyDec) - Fixed.ofInt (0 : LegacyDec).truncateInt = 0 := by
    rw [Fixed.truncateInt, Fixed.chopTruncate, Fixed.raw_zero, Int.zero_tdiv]
    rfl
  rw [coinsOf, Amounts.amountOf_mapNonzero Amounts.mapNonzero_zero,
    Amounts.amountOf_mapNonzero (f := fun _ x => x - Fixed.ofInt x.truncateInt) hzero]
  exact Fixed.sub_ofInt_truncateInt_mem hx

end DecPools

/-! ### The slices refine the maps -/

open DecPoolSlice in
/-- On slices sorted by denomination, `Add`, `SafeSub`, `CoinsOf`, `Intersect` and
`TruncateDecimal` compute the operations of the maps the slices stand for: the sum, as a sorted
slice with no empty pool; the difference, with the flag of a negative coin; the linear lookup;
the coin-by-coin minimum against valid coins, with no empty pool; and, on valid coins, integer
parts and changes in `[0, 1)` that add back up to each pool, with no empty pool on either
side. -/
theorem decPoolSlice_refines_decPools :
    (∀ a b : DecPoolSlice, SortedKeys DecPool.denom a → SortedKeys DecPool.denom b →
      ∃ sum, a.add b = some sum ∧ Canonical DecPool.denom DecPool.isEmpty sum ∧
        sum.toDecPools = a.toDecPools + b.toDecPools) ∧
    (∀ a b : DecPoolSlice, SortedKeys DecPool.denom a → SortedKeys DecPool.denom b →
      ∃ diff hasNeg, a.safeSub b = some (diff, hasNeg) ∧
        diff.toDecPools = a.toDecPools - b.toDecPools ∧
        (hasNeg = true ↔ ∃ denom d, ((a.toDecPools - b.toDecPools).coinsOf denom).amountOf d < 0)) ∧
    (∀ (a : DecPoolSlice) (denom : String), SortedKeys DecPool.denom a →
      a.coinsOf denom = ((a.find? fun pool => pool.denom = denom).map DecPool.decCoins).getD 0) ∧
    (∀ a b : DecPoolSlice, SortedKeys DecPool.denom a → SortedKeys DecPool.denom b →
      b.ValidCoins → Canonical DecPool.denom DecPool.isEmpty (a.intersect b) ∧
        ∀ denom d, ((a.intersect b).toDecPools.coinsOf denom).amountOf d =
          min ((a.toDecPools.coinsOf denom).amountOf d) ((b.toDecPools.coinsOf denom).amountOf d)) ∧
    (∀ a : DecPoolSlice, SortedKeys DecPool.denom a → a.ValidCoins →
      ∃ truncated change, a.truncateDecimal = some (truncated, change) ∧
        Canonical Pool.denom Pool.isEmpty truncated ∧ Canonical DecPool.denom DecPool.isEmpty change ∧
        (∀ denom, (truncated.toPools.amountOf denom).toDecCoins + change.toDecPools.coinsOf denom =
          a.toDecPools.coinsOf denom) ∧
        ∀ denom d, 0 ≤ (change.toDecPools.coinsOf denom).amountOf d ∧
          (change.toDecPools.coinsOf denom).amountOf d < 1) := by
  refine ⟨fun a b ha hb => add_spec ha hb, fun a b ha hb => ?_, fun a denom ha => coinsOf_eq_valAt ha denom,
    fun a b ha hb hv => ⟨(intersect_spec ha hb).1, amountOf_intersect ha hb hv⟩, fun a ha hv => ?_⟩
  · obtain ⟨diff, hdiff, -, hsub, hneg⟩ := safeSub_spec ha hb
    exact ⟨diff, _, hdiff, hsub, hneg⟩
  · obtain ⟨truncated, change, htrunc, h₁, h₂, hmap⟩ := truncateDecimal_spec ha hv
    exact ⟨truncated, change, htrunc, h₁, h₂, DecPools.truncateDecimal_add_at hmap,
      DecPools.truncateDecimal_change_mem hmap⟩

/-- Rewards in two pools, `uinit` and `uusdc`. -/
def rewardPools : DecPoolSlice :=
  [⟨"uinit", Amounts.single "uinit" (Fixed.ofInt 3)⟩, ⟨"uusdc", Amounts.single "uusdc" 1⟩]

/-- A cap in the `uusdc` pool alone. -/
def capPools : DecPoolSlice :=
  [⟨"uusdc", Amounts.single "uusdc" (Fixed.ofInt 2)⟩]

theorem validCoins_rewardPools : rewardPools.ValidCoins := by
  intro pool hp d
  simp only [rewardPools, List.mem_cons, List.not_mem_nil, or_false] at hp
  rcases hp with rfl | rfl <;> rw [Amounts.amountOf_single] <;> split_ifs <;> decide

theorem validCoins_capPools : capPools.ValidCoins := by
  intro pool hp d
  simp only [capPools, List.mem_cons, List.not_mem_nil, or_false] at hp
  subst hp
  rw [Amounts.amountOf_single]
  split_ifs <;> decide

/-- Both slices are sorted and valid, so every part applies to them: their sum, the capped
rewards and the truncated rewards exist, and the capped rewards hold no empty pool. -/
theorem decPoolSlice_refines_decPools_rewardPools :
    SortedKeys DecPool.denom rewardPools ∧ SortedKeys DecPool.denom capPools ∧
      rewardPools.ValidCoins ∧ capPools.ValidCoins ∧
      (∃ sum, rewardPools.add capPools = some sum ∧ Canonical DecPool.denom DecPool.isEmpty sum ∧
        sum.toDecPools = rewardPools.toDecPools + capPools.toDecPools) ∧
      Canonical DecPool.denom DecPool.isEmpty (rewardPools.intersect capPools) ∧
      ∃ truncated change, rewardPools.truncateDecimal = some (truncated, change) ∧
        Canonical DecPool.denom DecPool.isEmpty change := by
  have ha : SortedKeys DecPool.denom rewardPools := by decide
  have hb : SortedKeys DecPool.denom capPools := by decide
  obtain ⟨truncated, change, htrunc, -, hchange, -⟩ :=
    decPoolSlice_refines_decPools.2.2.2.2 rewardPools ha validCoins_rewardPools
  exact ⟨ha, hb, validCoins_rewardPools, validCoins_capPools,
    decPoolSlice_refines_decPools.1 rewardPools capPools ha hb,
    (decPoolSlice_refines_decPools.2.2.2.1 rewardPools capPools ha hb validCoins_capPools).1,
    truncated, change, htrunc, hchange⟩

end Initia.Distribution
