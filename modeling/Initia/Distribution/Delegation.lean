import Mathlib
import Initia.Distribution.Period

/-!
# Delegation rewards

A delegation remembers the period its last change ended and its stake in tokens then
(`initializeDelegation`). Its rewards are the growth of the cumulative reward ratios between that
period and the one its withdrawal ends, times the stake, pool by pool. A slash in between lowers
the stake: the walk over the validator's slash events since the starting height splits the
interval at each slash, scaling the stake down by the slashed fraction of each denomination,
truncated (`calculateDelegationRewards`). A stake that ends above the delegation's current worth
by at most three units of the last decimal place is cut back to it; more than that panics.

`withdrawDelegationRewards` ends the running period, caps the rewards at what the validator's
outstanding rewards hold, pays their integer part from the module account, sends the fractions
to the community pool, and drops the delegation's starting info with its reference. What the
records track falls by exactly what is paid (`withdrawDelegationRewards_tracked`).
-/

namespace Initia.Distribution

open Initia.Sdk Initia.Mstaking Std

/-- `initializeDelegation`: reference the period the delegation action just ended, and record the
stake of `shares` in tokens, truncated, at the block height. -/
def initializeDelegation (s : State) (val : Validator) (delAddr : ℕ) (shares : DecCoins)
    (height : ℕ) : Option State := do
  let valAddr := val.operatorAddress
  let currentRewards ← s.currentRewards[valAddr]?
  let previousPeriod := currentRewards.period - 1
  let s ← incrementReferenceCount s valAddr previousPeriod
  let stake ← val.tokensFromSharesTruncated shares
  some { s with
    startingInfos := s.startingInfos.insert (valAddr, delAddr) ⟨previousPeriod, stake, height⟩ }

/-- `calculateDelegationRewardsBetween`: the growth of every pool's ratios between two periods,
times the stake of the pool's denomination, truncated. Ratios that shrink panic in the pools'
`Sub`, which makes the code's own check for a negative difference unreachable. -/
def calculateDelegationRewardsBetween (s : State) (valAddr startingPeriod endingPeriod : ℕ)
    (stakes : DecCoins) : Option DecPools := do
  if endingPeriod < startingPeriod then none
  if stakes.isAnyNegative then none
  let starting ← s.historicalRewards[(valAddr, startingPeriod)]?
  let ending ← s.historicalRewards[(valAddr, endingPeriod)]?
  let differences ← ending.cumulativeRewardRatios.sub starting.cumulativeRewardRatios
  some (differences.mapNonzero fun denom diff => diff.mulDecTruncate (stakes.amountOf denom))

/-- The slash events the walk of `CalculateDelegationRewards` visits: those of the validator from
the starting height to the current one, both included, in the order of their keys. -/
def slashEventsBetween (s : State) (valAddr startingHeight endingHeight : ℕ) : List SlashEvent :=
  (s.slashEvents.toList.filter fun e =>
    e.1.1 == valAddr && startingHeight ≤ e.1.2.1 && e.1.2.1 ≤ endingHeight).map Prod.snd

/-- One slash event of the walk: the rewards up to the period it ended, and the stake scaled down
by the slashed fractions. An event of a period already passed changes nothing. -/
def slashStep (s : State) (valAddr : ℕ) :
    DecPools × DecCoins × ℕ → SlashEvent → Option (DecPools × DecCoins × ℕ)
  | (rewards, stakes, startingPeriod), event =>
    if startingPeriod < event.validatorPeriod then do
      let rewardsBetween ← calculateDelegationRewardsBetween s valAddr startingPeriod
        event.validatorPeriod stakes
      some (rewards + rewardsBetween,
        stakes.mapNonzero fun denom stake =>
          stake.mulTruncate (1 - event.fractions.amountOf denom),
        event.validatorPeriod)
    else some (rewards, stakes, startingPeriod)

/-- The stake sanity check of `CalculateDelegationRewards`: a stake above the current one by at
most three units of the last decimal place is cut back to it, and a larger excess panics. -/
def checkStakes (stakes currentStakes : DecCoins) : Option DecCoins :=
  stakes.mapNonzeroM fun denom stake =>
    let currentStake := currentStakes.amountOf denom
    if currentStake < stake then
      if stake ≤ currentStake + ⟨3⟩ then some currentStake else none
    else some stake

/-- `CalculateDelegationRewards` at block `height`, for the delegation of `shares` to `val`. -/
def calculateDelegationRewards (s : State) (val : Validator) (delAddr : ℕ) (shares : DecCoins)
    (endingPeriod height : ℕ) : Option DecPools := do
  let valAddr := val.operatorAddress
  let startingInfo ← s.startingInfos[(valAddr, delAddr)]?
  -- started this height, no rewards yet
  if startingInfo.height = height then return 0
  let (rewards, stakes, startingPeriod) ←
    if startingInfo.height < height then
      (slashEventsBetween s valAddr startingInfo.height height).foldlM (slashStep s valAddr)
        (0, startingInfo.stakes, startingInfo.previousPeriod)
    else some (0, startingInfo.stakes, startingInfo.previousPeriod)
  let currentStakes ← val.tokensFromShares shares
  let stakes ← checkStakes stakes currentStakes
  let rewardsBetween ← calculateDelegationRewardsBetween s valAddr startingPeriod endingPeriod stakes
  some (rewards + rewardsBetween)

/-- `withdrawDelegationRewards`: end the period, pay the rewards capped at the outstanding rewards
in whole coins, give the fractions to the community pool, and drop the starting info with its
reference. Returns the pools paid. -/
def withdrawDelegationRewards (s : State) (val : Validator) (delAddr : ℕ) (shares : DecCoins)
    (height : ℕ) : Option (State × Pools) := do
  let valAddr := val.operatorAddress
  -- `ErrEmptyDelegationDistInfo` without a starting info
  let _ ← s.startingInfos[(valAddr, delAddr)]?
  let (s, endingPeriod) ← incrementValidatorPeriod s val
  let rewardsRaw ← calculateDelegationRewards s val delAddr shares endingPeriod height
  let outstanding ← s.outstanding[valAddr]?
  let rewards := rewardsRaw.intersect outstanding
  let (pools, remainder) ← rewards.truncateDecimal
  -- the bank refuses to send more than the module account holds
  let balance ← (if pools = 0 then some s.balance else s.balance.sub pools.sum)
  let outstanding ← outstanding.sub rewards
  let s := { s with
    balance := balance
    outstanding := s.outstanding.insert valAddr outstanding
    communityPool := s.communityPool + remainder.sum }
  let startingInfo ← s.startingInfos[(valAddr, delAddr)]?
  let s ← decrementReferenceCount s valAddr startingInfo.previousPeriod
  some ({ s with startingInfos := s.startingInfos.erase (valAddr, delAddr) }, pools)

/-! ### What the functions do when they return -/

/-- What `initializeDelegation` does when it returns: one more reference to the period before
the running one, and a starting info that names it. -/
theorem initializeDelegation_eq_some {s s' : State} {val : Validator} {delAddr : ℕ}
    {shares : DecCoins} {height : ℕ}
    (h : initializeDelegation s val delAddr shares height = some s') :
    ∃ rewards historical stake,
      s.currentRewards[val.operatorAddress]? = some rewards ∧
      s.historicalRewards[(val.operatorAddress, rewards.period - 1)]? = some historical ∧
      historical.referenceCount ≤ 2 ∧
      val.tokensFromSharesTruncated shares = some stake ∧
      s' = { s with
        historicalRewards := s.historicalRewards.insert (val.operatorAddress, rewards.period - 1)
          { historical with referenceCount := historical.referenceCount + 1 }
        startingInfos := s.startingInfos.insert (val.operatorAddress, delAddr)
          ⟨rewards.period - 1, stake, height⟩ } := by
  unfold initializeDelegation at h
  simp only [Option.bind_eq_bind, Option.bind_eq_some_iff, Option.some.injEq] at h
  obtain ⟨rewards, hrewards, s₁, hinc, stake, hstake, rfl⟩ := h
  obtain ⟨historical, hhist, hcount, rfl⟩ := incrementReferenceCount_eq_some hinc
  exact ⟨rewards, historical, stake, hrewards, hhist, hcount, hstake, rfl⟩

/-- What `withdrawDelegationRewards` does when it returns. The payout and the fractions are the
truncation of the rewards capped at the outstanding rewards; the module account pays the
integer part, the community pool takes the fractions, and the starting info and its reference
go. -/
theorem withdrawDelegationRewards_eq_some {s s' : State} {val : Validator} {delAddr : ℕ}
    {shares : DecCoins} {height : ℕ} {paid : Pools}
    (h : withdrawDelegationRewards s val delAddr shares height = some (s', paid)) :
    ∃ s₁ endingPeriod rewardsRaw outstanding remainder balance outstanding' startingInfo s₂,
      s.startingInfos[(val.operatorAddress, delAddr)]? = some startingInfo ∧
      incrementValidatorPeriod s val = some (s₁, endingPeriod) ∧
      calculateDelegationRewards s₁ val delAddr shares endingPeriod height = some rewardsRaw ∧
      s₁.outstanding[val.operatorAddress]? = some outstanding ∧
      (rewardsRaw.intersect outstanding).truncateDecimal = some (paid, remainder) ∧
      (if paid = 0 then some s₁.balance else s₁.balance.sub paid.sum) = some balance ∧
      outstanding.sub (rewardsRaw.intersect outstanding) = some outstanding' ∧
      decrementReferenceCount { s₁ with
          balance := balance
          outstanding := s₁.outstanding.insert val.operatorAddress outstanding'
          communityPool := s₁.communityPool + remainder.sum }
        val.operatorAddress startingInfo.previousPeriod = some s₂ ∧
      s' = { s₂ with startingInfos := s₂.startingInfos.erase (val.operatorAddress, delAddr) } := by
  unfold withdrawDelegationRewards at h
  simp only [Option.bind_eq_bind, Option.bind_eq_some_iff] at h
  obtain ⟨-, -, ⟨s₁, endingPeriod⟩, hinc, rewardsRaw, hcalc, outstanding, hout, ⟨pools, remainder⟩,
    htrunc, balance, hbal, outstanding', hsub, startingInfo, hsi, s₂, hdec, h⟩ := h
  simp only [Option.some.injEq, Prod.mk.injEq] at h
  obtain ⟨rfl, rfl⟩ := h
  -- ending the period leaves the starting infos alone
  have hsi' : s.startingInfos[(val.operatorAddress, delAddr)]? = some startingInfo := by
    obtain ⟨_, _, _, _, s₀, -, -, -, -, -, hdec₀, rfl⟩ := incrementValidatorPeriod_eq_some hinc
    obtain ⟨_, -, -, rfl⟩ := decrementReferenceCount_eq_some hdec₀
    exact hsi
  exact ⟨s₁, endingPeriod, rewardsRaw, outstanding, remainder, balance, outstanding', startingInfo,
    s₂, hsi', hinc, hcalc, hout, htrunc, hbal, hsub, hdec, rfl⟩

/-- Starting a delegation keeps the validators. -/
theorem initializeDelegation_sameValidators {s s' : State} {val : Validator} {delAddr : ℕ}
    {shares : DecCoins} {height : ℕ}
    (h : initializeDelegation s val delAddr shares height = some s') : s.SameValidators s' := by
  obtain ⟨_, _, _, -, -, -, -, rfl⟩ := initializeDelegation_eq_some h
  exact ⟨fun _ => Iff.rfl, fun _ => Iff.rfl⟩

/-- A withdrawal keeps the validators: it writes the outstanding rewards back to the one that has
them. -/
theorem withdrawDelegationRewards_sameValidators {s s' : State} {val : Validator}
    {delAddr : ℕ} {shares : DecCoins} {height : ℕ} {paid : Pools}
    (h : withdrawDelegationRewards s val delAddr shares height = some (s', paid)) :
    s.SameValidators s' := by
  obtain ⟨s₁, _, _, outstanding, _, _, outstanding', _, s₂, -, hinc, -, hout, -, -, -, hdec, rfl⟩ :=
    withdrawDelegationRewards_eq_some h
  obtain ⟨_, -, -, rfl⟩ := decrementReferenceCount_eq_some hdec
  refine (incrementValidatorPeriod_sameValidators hinc).trans ⟨fun _ => Iff.rfl, fun valAddr => ?_⟩
  exact TreeMap.mem_insert_of_getElem? hout

/-! ### Conservation -/

/-- The module account pays out of its balance exactly what it sends; a send it skips is one of
nothing. -/
theorem balance_sub_of_send {p : Prop} [Decidable p] {balance balance' amount : Coins}
    (hp : p → amount = 0) (h : (if p then some balance else balance.sub amount) = some balance') :
    balance' = balance - amount := by
  split_ifs at h with hskip
  · cases h
    rw [hp hskip, sub_zero]
  · exact (Amounts.subChecked_eq_some_iff.mp h).1

/-- A withdrawal takes what it pays from the module account and from what the records track
alike. -/
theorem withdrawDelegationRewards_tracked {s s' : State} {val : Validator} {delAddr : ℕ}
    {shares : DecCoins} {height : ℕ} {paid : Pools}
    (h : withdrawDelegationRewards s val delAddr shares height = some (s', paid)) :
    s'.tracked = s.tracked - paid.sum.toDecCoins ∧ s'.balance = s.balance - paid.sum := by
  obtain ⟨s₁, _, rewardsRaw, outstanding, remainder, balance, outstanding', _, s₂, -, hinc, -,
    hout, htrunc, hbal, hsub, hdec, rfl⟩ := withdrawDelegationRewards_eq_some h
  obtain ⟨htracked₁, hbalance₁⟩ := incrementValidatorPeriod_tracked hinc
  obtain ⟨_, -, -, rfl⟩ := decrementReferenceCount_eq_some hdec
  obtain ⟨rfl, -⟩ := DecPools.sub_eq_some_iff.mp hsub
  -- the capped rewards split into the payout and the fractions
  have hsplit := DecPools.truncateDecimal_sum htrunc
  have hpaid : paid = 0 → paid.sum = 0 := fun h0 => by rw [h0, Pools.sum, Amounts.total_zero]
  refine ⟨?_, by rw [balance_sub_of_send hpaid hbal, hbalance₁]⟩
  rw [← htracked₁]
  simp only [State.tracked, TreeMap.sumBy_insert, hout, Option.map_some, Option.getD_some,
    DecPools.sum_sub, ← hsplit]
  abel

end Initia.Distribution
