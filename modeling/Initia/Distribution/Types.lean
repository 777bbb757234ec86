import Mathlib
import Initia.Lib.OrderedMap
import Initia.Sdk.Coins

/-!
# Reward pools and the distribution store

The distribution module splits rewards into **pools**, one per bond denomination: a `DecPools`
value holds decimal coins per pool denomination. Every record of the store is kept per validator
(or per validator and delegator, or per validator, height and period) in an ordered map, the way
the module's collections key them:

* `outstanding`: the rewards a validator's delegators and the validator itself may still
  withdraw (`ValidatorOutstandingRewards`);
* `accumulatedCommission`: the validator's share of them (`ValidatorAccumulatedCommissions`);
* `currentRewards`: the rewards of the running period, and its number (`ValidatorCurrentRewards`);
* `historicalRewards`: per ended period the cumulative reward per token, and how many records
  refer to it (`ValidatorHistoricalRewards`);
* `startingInfos`: per delegation the period it started after and its stake
  (`DelegatorStartingInfos`);
* `slashEvents`: per slash the period it ended and the fractions slashed
  (`ValidatorSlashEvents`).

The community pool is part of the fee pool, and `balance` is what the bank holds for the
module account. Addresses are numbers, and periods and heights natural numbers: periods start at
one and only grow, so the 64-bit `Period - 1` never wraps.

`tracked` is what the records say the module account owes: every validator's outstanding rewards
over all pools, and the community pool.
-/

namespace Initia.Distribution

open Initia.Sdk Std

/-- `DecPools`: decimal coins per reward pool, keyed by the pool's denomination. -/
abbrev DecPools := Amounts String compare DecCoins

/-- `Pools`: coins per reward pool. -/
abbrev Pools := Amounts String compare Coins

namespace DecPools

/-- `CoinsOf`. -/
def coinsOf (pools : DecPools) (denom : String) : DecCoins :=
  pools.amountOf denom

/-- `Sum`: the coins of every pool together. -/
def sum (pools : DecPools) : DecCoins :=
  pools.total

/-- `NewDecPool`, as a one-pool `DecPools`; an empty pool is no pool. -/
def newDecPool (denom : String) (coins : DecCoins) : DecPools :=
  .single denom coins

/-- `IsAnyNegative`. -/
def isAnyNegative (pools : DecPools) : Bool :=
  pools.toList.any fun pool => pool.2.isAnyNegative

/-- `Sub`, which panics when some amount goes negative. -/
def sub (a b : DecPools) : Option DecPools :=
  if (a - b).isAnyNegative then none else some (a - b)

/-- `Intersect`: each pool's coins capped at what `b` holds in the same pool. -/
def intersect (a b : DecPools) : DecPools :=
  a.mapNonzero fun denom coins => coins.intersect (b.coinsOf denom)

/-- `TruncateDecimal`: the integer parts and the fractional remainders, pool by pool. A negative
amount panics. -/
def truncateDecimal (pools : DecPools) : Option (Pools × DecPools) :=
  if pools.isAnyNegative then none
  else some (pools.mapNonzero fun _ coins => coins.mapNonzero fun _ x => x.truncateInt,
    pools.mapNonzero fun _ coins => coins.mapNonzero fun _ x => x - Fixed.ofInt x.truncateInt)

/-- `NewDecPoolsFromPools`. -/
def ofPools (pools : Pools) : DecPools :=
  pools.mapNonzero fun _ coins => coins.toDecCoins

@[simp]
theorem sum_add (a b : DecPools) : (a + b).sum = a.sum + b.sum :=
  Amounts.total_add

@[simp]
theorem sum_sub (a b : DecPools) : (a - b).sum = a.sum - b.sum :=
  Amounts.total_sub

@[simp]
theorem sum_newDecPool (denom : String) (coins : DecCoins) : (newDecPool denom coins).sum = coins :=
  Amounts.total_single

@[simp]
theorem sum_zero : (0 : DecPools).sum = 0 :=
  Amounts.total_zero

theorem isAnyNegative_eq_false_iff {pools : DecPools} :
    pools.isAnyNegative = false ↔ ∀ denom d, 0 ≤ (pools.coinsOf denom).amountOf d := by
  rw [isAnyNegative, List.any_eq_false]
  constructor
  · intro h denom d
    by_cases hp : pools.coinsOf denom = 0
    · rw [hp, Amounts.amountOf_zero]
    · have := h (denom, pools.coinsOf denom) (Amounts.mem_toList_iff.mpr ⟨rfl, hp⟩)
      exact (Amounts.isAnyNegative_eq_false_iff.mp (by simpa using this)) d
  · intro h pool hpool
    obtain ⟨hx, -⟩ := Amounts.mem_toList_iff.mp hpool
    simp only [Bool.not_eq_true]
    exact Amounts.isAnyNegative_eq_false_iff.mpr fun d => hx ▸ h pool.1 d

theorem sub_eq_some_iff {a b c : DecPools} :
    a.sub b = some c ↔ c = a - b ∧ ∀ denom d,
      (b.coinsOf denom).amountOf d ≤ (a.coinsOf denom).amountOf d := by
  have hneg : (a - b).isAnyNegative = false ↔
      ∀ denom d, (b.coinsOf denom).amountOf d ≤ (a.coinsOf denom).amountOf d := by
    rw [isAnyNegative_eq_false_iff]
    simp only [coinsOf, Amounts.amountOf_sub, sub_nonneg]
  unfold sub
  split_ifs with h
  · refine iff_of_false (by simp) fun hc => ?_
    rw [hneg.mpr hc.2] at h
    exact Bool.false_ne_true h
  · rw [Bool.not_eq_true] at h
    exact ⟨fun hc => ⟨(Option.some.inj hc).symm, hneg.mp h⟩, fun hc => hc.1 ▸ rfl⟩

end DecPools

/-- The total of some pools. -/
def Pools.sum (pools : Pools) : Coins :=
  pools.total

namespace DecPools

/-- Pools of coins and the same pools as decimals have the same total. -/
theorem sum_ofPools (pools : Pools) : (ofPools pools).sum = pools.sum.toDecCoins :=
  Amounts.total_mapNonzero_hom Coins.toDecCoinsHom

/-- What a truncation returns adds back up to what it truncated, over all pools together. -/
theorem truncateDecimal_sum {pools : DecPools} {truncated : Pools} {change : DecPools}
    (h : pools.truncateDecimal = some (truncated, change)) :
    truncated.sum.toDecCoins + change.sum = pools.sum := by
  unfold truncateDecimal at h
  split_ifs at h
  cases h
  classical
  have hs : ∀ k, pools.amountOf k ≠ 0 → k ∈ (pools.toList.map Prod.fst).toFinset := fun k hk =>
    List.mem_toFinset.mpr (Amounts.mem_keys_of_amountOf_ne_zero hk)
  -- the integer parts hold something only in a pool that holds something
  have htruncated : ∀ k, (Amounts.mapNonzero (fun _ coins => coins.mapNonzero fun _ x =>
      x.truncateInt) pools).amountOf k = (pools.amountOf k).mapNonzero fun _ x => x.truncateInt :=
    fun k => Amounts.amountOf_mapNonzero Amounts.mapNonzero_zero
  have hs' : ∀ k, (Amounts.mapNonzero (fun _ coins => coins.mapNonzero fun _ x =>
      x.truncateInt) pools).amountOf k ≠ 0 → k ∈ (pools.toList.map Prod.fst).toFinset :=
    fun k hk => hs k fun h0 => hk (by rw [htruncated, h0, Amounts.mapNonzero_zero])
  -- all three totals pool by pool, over the pools that hold something
  rw [← sum_ofPools, sum, ofPools, Amounts.total_mapNonzero (fun _ => Coins.toDecCoins_zero) hs',
    sum, Amounts.total_mapNonzero (fun _ => Amounts.mapNonzero_zero) hs, sum,
    Amounts.total_eq_sum hs, ← Finset.sum_add_distrib]
  refine Finset.sum_congr rfl fun k _ => ?_
  rw [htruncated]
  exact DecCoins.truncated_add_change _

end DecPools

/-! ### Records -/

/-- `ValidatorHistoricalRewards`. -/
structure HistoricalRewards where
  cumulativeRewardRatios : DecPools
  referenceCount : ℕ
  deriving DecidableEq

/-- `ValidatorCurrentRewards`. -/
structure CurrentRewards where
  rewards : DecPools
  period : ℕ
  deriving DecidableEq

/-- `DelegatorStartingInfo`. -/
structure StartingInfo where
  previousPeriod : ℕ
  stakes : DecCoins
  height : ℕ
  deriving DecidableEq

/-- `ValidatorSlashEvent`. -/
structure SlashEvent where
  validatorPeriod : ℕ
  fractions : DecCoins
  deriving DecidableEq

/-- The distribution store and the module account's balance. -/
structure State where
  /-- `FeePool.CommunityPool`. -/
  communityPool : DecCoins
  outstanding : TreeMap ℕ DecPools compare
  accumulatedCommission : TreeMap ℕ DecPools compare
  currentRewards : TreeMap ℕ CurrentRewards compare
  /-- Keyed by validator and period. -/
  historicalRewards : TreeMap (ℕ × ℕ) HistoricalRewards compare
  /-- Keyed by validator and delegator. -/
  startingInfos : TreeMap (ℕ × ℕ) StartingInfo compare
  /-- Keyed by validator, height and period. -/
  slashEvents : TreeMap (ℕ × ℕ × ℕ) SlashEvent compare
  /-- The bank balance of the distribution module account. -/
  balance : Coins

namespace State

/-- What the records say the module account holds: the outstanding rewards of every validator
over all its pools, and the community pool. -/
def tracked (s : State) : DecCoins :=
  s.communityPool + s.outstanding.sumBy fun _ pools => pools.sum

/-- The records account for exactly what the module account holds. -/
def Balanced (s : State) : Prop :=
  s.balance.toDecCoins = s.tracked

/-- What moves no coins keeps the records balanced. -/
theorem Balanced.of_same {s s' : State} (hs : s.Balanced) (htracked : s'.tracked = s.tracked)
    (hbalance : s'.balance = s.balance) : s'.Balanced := by
  rw [Balanced, hbalance, htracked]
  exact hs

/-- Coins that enter the module account and the records alike keep them balanced. -/
theorem Balanced.add {s s' : State} {coins : Coins} (hs : s.Balanced)
    (htracked : s'.tracked = s.tracked + coins.toDecCoins) (hbalance : s'.balance = s.balance + coins) :
    s'.Balanced := by
  rw [Balanced, hbalance, Coins.toDecCoins_add, hs, htracked]

/-- Coins that leave the module account and the records alike keep them balanced. -/
theorem Balanced.sub {s s' : State} {coins : Coins} (hs : s.Balanced)
    (htracked : s'.tracked = s.tracked - coins.toDecCoins) (hbalance : s'.balance = s.balance - coins) :
    s'.Balanced := by
  rw [Balanced, hbalance, Coins.toDecCoins_sub, hs, htracked]

/-- Two states that keep the same records and differ in the coins they hold: the same historical
rewards, starting infos and slash events, the same validators in their same running periods, and
outstanding rewards for the same validators. -/
structure SameRecords (s s' : State) : Prop where
  historicalRewards : s'.historicalRewards = s.historicalRewards
  periods : ∀ valAddr : ℕ, s'.currentRewards[valAddr]?.map CurrentRewards.period =
    s.currentRewards[valAddr]?.map CurrentRewards.period
  startingInfos : s'.startingInfos = s.startingInfos
  slashEvents : s'.slashEvents = s.slashEvents
  outstanding : ∀ valAddr : ℕ, valAddr ∈ s'.outstanding ↔ valAddr ∈ s.outstanding

theorem SameRecords.refl (s : State) : SameRecords s s :=
  ⟨rfl, fun _ => rfl, rfl, rfl, fun _ => Iff.rfl⟩

theorem SameRecords.trans {s₁ s₂ s₃ : State} (h₁ : SameRecords s₁ s₂) (h₂ : SameRecords s₂ s₃) :
    SameRecords s₁ s₃ :=
  ⟨h₂.historicalRewards.trans h₁.historicalRewards, fun v => (h₂.periods v).trans (h₁.periods v),
    h₂.startingInfos.trans h₁.startingInfos, h₂.slashEvents.trans h₁.slashEvents,
    fun v => (h₂.outstanding v).trans (h₁.outstanding v)⟩

/-- Two states with current rewards and outstanding rewards for the same validators. -/
structure SameValidators (s s' : State) : Prop where
  currentRewards : ∀ valAddr : ℕ, valAddr ∈ s'.currentRewards ↔ valAddr ∈ s.currentRewards
  outstanding : ∀ valAddr : ℕ, valAddr ∈ s'.outstanding ↔ valAddr ∈ s.outstanding

theorem SameValidators.refl (s : State) : SameValidators s s :=
  ⟨fun _ => Iff.rfl, fun _ => Iff.rfl⟩

theorem SameValidators.trans {s₁ s₂ s₃ : State} (h₁ : SameValidators s₁ s₂)
    (h₂ : SameValidators s₂ s₃) : SameValidators s₁ s₃ :=
  ⟨fun v => (h₂.currentRewards v).trans (h₁.currentRewards v),
    fun v => (h₂.outstanding v).trans (h₁.outstanding v)⟩

/-- States with the same records have the same validators. -/
theorem SameRecords.sameValidators {s s' : State} (h : SameRecords s s') : SameValidators s s' := by
  refine ⟨fun valAddr => ?_, h.outstanding⟩
  rw [TreeMap.mem_iff_isSome_getElem?, TreeMap.mem_iff_isSome_getElem?, ← Option.isSome_map,
    h.periods, Option.isSome_map]

end State

end Initia.Distribution
