import Mathlib
import Initia.Distribution.Delegation

/-!
# The keeper's messages and the staking hooks

The keeper methods that move coins in or out of the distribution module account
(`WithdrawValidatorCommission`, `FundCommunityPool`, `DistributeFromFeePool`, the exported
`WithdrawDelegationRewards`), and the hooks the staking module fires around its own state changes.
A validator is removed only once it has no delegation left; its outstanding rewards, after its
commission is paid out, are then dust that goes to the community pool, and every record of it
is deleted (`Hooks.afterValidatorRemoved`).

Each method moves the same coins in the module account as in what the records track: the
`_tracked` lemmas say by how much.
-/

namespace Initia.Distribution

open Initia.Sdk Initia.Mstaking Std

/-- `WithdrawValidatorCommission`: pay the integer part of the accumulated commission from the
module account, and keep the fractions for later. Returns the pools paid. -/
def withdrawValidatorCommission (s : State) (valAddr : ℕ) : Option (State × Pools) :=
  let accumCommission := s.accumulatedCommission[valAddr]?.getD 0
  -- `ErrNoValidatorCommission`
  if accumCommission = 0 then none
  else do
    let (commissions, remainder) ← accumCommission.truncateDecimal
    let outstanding ← s.outstanding[valAddr]?
    let outstanding ← outstanding.sub (DecPools.ofPools commissions)
    let commissionCoins := commissions.sum
    let balance ← (if commissionCoins = 0 then some s.balance else s.balance.sub commissionCoins)
    some ({ s with
      accumulatedCommission := s.accumulatedCommission.insert valAddr remainder
      outstanding := s.outstanding.insert valAddr outstanding
      balance := balance }, commissions)

/-- `FundCommunityPool`: the sender's coins enter the module account and the community pool. The
bank refuses a negative amount; the sender's own balance is not modelled. -/
def fundCommunityPool (s : State) (amount : Coins) : Option State :=
  if amount.isAnyNegative then none
  else some { s with
    balance := s.balance + amount
    communityPool := s.communityPool + amount.toDecCoins }

/-- `DistributeFromFeePool`: pay `amount` out of the community pool. The bank refuses a negative
amount, and more than the module account holds. -/
def distributeFromFeePool (s : State) (amount : Coins) : Option State :=
  let (newPool, negative) := s.communityPool.safeSub amount.toDecCoins
  -- `ErrBadDistribution`
  if negative then none
  else if amount.isAnyNegative then none
  else do
    let balance ← s.balance.sub amount
    some { s with communityPool := newPool, balance := balance }

/-- The exported `WithdrawDelegationRewards`: withdraw, then start the delegation afresh. -/
def Keeper.withdrawDelegationRewards (s : State) (val : Validator) (delAddr : ℕ)
    (shares : DecCoins) (height : ℕ) : Option (State × Pools) := do
  let (s, rewards) ← Distribution.withdrawDelegationRewards s val delAddr shares height
  let s ← initializeDelegation s val delAddr shares height
  some (s, rewards)

namespace Hooks

/-- `AfterValidatorCreated`. -/
def afterValidatorCreated (s : State) (val : Validator) : State :=
  initializeValidator s val

/-- `AfterValidatorRemoved`: pay out the commission, give what is left outstanding to the
community pool, and delete every record of the validator. -/
def afterValidatorRemoved (s : State) (valAddr : ℕ) : Option State := do
  let outstanding ← s.outstanding[valAddr]?
  let commissions := s.accumulatedCommission[valAddr]?.getD 0
  -- force-withdraw the commission
  let (outstanding, communityPool, balance) ← (if commissions = 0 then
      some (outstanding, s.communityPool, s.balance)
    else do
      let outstanding ← outstanding.sub commissions
      let (coins, remainder) ← commissions.sum.truncateDecimal
      let balance ← (if coins = 0 then some s.balance else s.balance.sub coins)
      some (outstanding, s.communityPool + remainder, balance))
  some { s with
    communityPool := communityPool + outstanding.sum
    balance := balance
    outstanding := s.outstanding.erase valAddr
    accumulatedCommission := s.accumulatedCommission.erase valAddr
    slashEvents := s.slashEvents.filter fun key _ => key.1 != valAddr
    historicalRewards := s.historicalRewards.filter fun key _ => key.1 != valAddr
    currentRewards := s.currentRewards.erase valAddr }

/-- `BeforeDelegationCreated`: end the running period. -/
def beforeDelegationCreated (s : State) (val : Validator) : Option State :=
  (incrementValidatorPeriod s val).map Prod.fst

/-- `BeforeDelegationSharesModified`: withdraw the delegation's rewards. -/
def beforeDelegationSharesModified (s : State) (val : Validator) (delAddr : ℕ) (shares : DecCoins)
    (height : ℕ) : Option State :=
  (withdrawDelegationRewards s val delAddr shares height).map Prod.fst

/-- `AfterDelegationModified`: start the delegation afresh. -/
def afterDelegationModified (s : State) (val : Validator) (delAddr : ℕ) (shares : DecCoins)
    (height : ℕ) : Option State :=
  initializeDelegation s val delAddr shares height

/-- `BeforeValidatorSlashed`: record the slash event. -/
def beforeValidatorSlashed (s : State) (val : Validator) (height : ℕ) (fractions : DecCoins) :
    Option State :=
  updateValidatorSlashFraction s val height fractions

end Hooks

/-! ### Conservation -/

/-- A commission withdrawal takes what it pays from the module account and from what the records
track alike. -/
theorem withdrawValidatorCommission_tracked {s s' : State} {valAddr : ℕ} {paid : Pools}
    (h : withdrawValidatorCommission s valAddr = some (s', paid)) :
    s'.tracked = s.tracked - paid.sum.toDecCoins ∧ s'.balance = s.balance - paid.sum := by
  unfold withdrawValidatorCommission at h
  dsimp only at h
  split_ifs at h
  simp only [Option.bind_eq_bind, Option.bind_eq_some_iff, Option.some.injEq, Prod.mk.injEq] at h
  obtain ⟨⟨commissions, remainder⟩, -, outstanding, hout, outstanding', hsub, balance, hbal,
    rfl, rfl⟩ := h
  obtain ⟨rfl, -⟩ := DecPools.sub_eq_some_iff.mp hsub
  refine ⟨?_, balance_sub_of_send id hbal⟩
  simp only [State.tracked, TreeMap.sumBy_insert, hout, Option.map_some, Option.getD_some,
    DecPools.sum_sub, DecPools.sum_ofPools]
  abel

theorem fundCommunityPool_tracked {s s' : State} {amount : Coins}
    (h : fundCommunityPool s amount = some s') :
    s'.tracked = s.tracked + amount.toDecCoins ∧ s'.balance = s.balance + amount := by
  unfold fundCommunityPool at h
  split_ifs at h
  cases h
  refine ⟨?_, rfl⟩
  simp only [State.tracked]
  abel

theorem distributeFromFeePool_tracked {s s' : State} {amount : Coins}
    (h : distributeFromFeePool s amount = some s') :
    s'.tracked = s.tracked - amount.toDecCoins ∧ s'.balance = s.balance - amount := by
  unfold distributeFromFeePool DecCoins.safeSub Amounts.safeSub at h
  dsimp only at h
  split_ifs at h
  simp only [Option.bind_eq_bind, Option.bind_eq_some_iff, Option.some.injEq] at h
  obtain ⟨balance, hbal, rfl⟩ := h
  refine ⟨?_, (Amounts.subChecked_eq_some_iff.mp hbal).1⟩
  simp only [State.tracked]
  abel

theorem keeper_withdrawDelegationRewards_tracked {s s' : State} {val : Validator} {delAddr : ℕ}
    {shares : DecCoins} {height : ℕ} {paid : Pools}
    (h : Keeper.withdrawDelegationRewards s val delAddr shares height = some (s', paid)) :
    s'.tracked = s.tracked - paid.sum.toDecCoins ∧ s'.balance = s.balance - paid.sum := by
  unfold Keeper.withdrawDelegationRewards at h
  simp only [Option.bind_eq_bind, Option.bind_eq_some_iff, Option.some.injEq, Prod.mk.injEq] at h
  obtain ⟨⟨s₁, rewards⟩, hwithdraw, s₂, hinit, rfl, rfl⟩ := h
  obtain ⟨_, _, _, -, -, -, -, rfl⟩ := initializeDelegation_eq_some hinit
  -- starting afresh moves no coins
  obtain ⟨htracked, hbalance⟩ := withdrawDelegationRewards_tracked hwithdraw
  exact ⟨htracked, hbalance⟩

/-- Removing a validator pays out its commission in whole coins and moves everything else it had
outstanding to the community pool. -/
theorem afterValidatorRemoved_tracked {s s' : State} {valAddr : ℕ}
    (h : Hooks.afterValidatorRemoved s valAddr = some s') :
    ∃ coins : Coins, s'.tracked = s.tracked - coins.toDecCoins ∧ s'.balance = s.balance - coins := by
  unfold Hooks.afterValidatorRemoved at h
  simp only [Option.bind_eq_bind, Option.bind_eq_some_iff, Option.some.injEq] at h
  obtain ⟨outstanding, hout, ⟨outstanding', communityPool, balance⟩, hcomm, rfl⟩ := h
  -- the outstanding rewards leave the tracked sum, and come back in the community pool
  have hdrop : (s.outstanding.erase valAddr).sumBy (fun _ pools => pools.sum) =
      s.outstanding.sumBy (fun _ pools => pools.sum) - outstanding.sum := by
    rw [TreeMap.sumBy_erase, hout, Option.map_some, Option.getD_some]
  split_ifs at hcomm with hzero
  · cases hcomm
    refine ⟨0, ?_, by rw [sub_zero]⟩
    simp only [State.tracked, hdrop, Coins.toDecCoins_zero]
    abel
  · simp only [Option.bind_eq_some_iff, Option.some.injEq, Prod.mk.injEq] at hcomm
    obtain ⟨outstanding'', hsub, ⟨coins, remainder⟩, htrunc, balance', hbal, rfl, rfl, rfl⟩ :=
      hcomm
    obtain ⟨rfl, -⟩ := DecPools.sub_eq_some_iff.mp hsub
    -- the commission splits into the coins paid and the fractions
    have hsplit := DecCoins.truncateDecimal_add htrunc
    refine ⟨coins, ?_, balance_sub_of_send id hbal⟩
    simp only [State.tracked, hdrop, DecPools.sum_sub, ← hsplit]
    abel

/-! ### Records left alone -/

/-- Removing a validator deletes every record of it, and leaves the delegations' starting infos
alone. -/
theorem afterValidatorRemoved_records {s s' : State} {valAddr : ℕ}
    (h : Hooks.afterValidatorRemoved s valAddr = some s') :
    s'.historicalRewards = s.historicalRewards.filter (fun key _ => key.1 != valAddr) ∧
      s'.currentRewards = s.currentRewards.erase valAddr ∧
      s'.startingInfos = s.startingInfos ∧
      s'.slashEvents = s.slashEvents.filter (fun key _ => key.1 != valAddr) ∧
      s'.outstanding = s.outstanding.erase valAddr := by
  unfold Hooks.afterValidatorRemoved at h
  simp only [Option.bind_eq_bind, Option.bind_eq_some_iff, Option.some.injEq] at h
  obtain ⟨_, -, _, -, rfl⟩ := h
  exact ⟨rfl, rfl, rfl, rfl, rfl⟩

/-- A commission withdrawal changes no record but the coins in them. -/
theorem withdrawValidatorCommission_sameRecords {s s' : State} {valAddr : ℕ} {paid : Pools}
    (h : withdrawValidatorCommission s valAddr = some (s', paid)) : s.SameRecords s' := by
  unfold withdrawValidatorCommission at h
  dsimp only at h
  split_ifs at h
  simp only [Option.bind_eq_bind, Option.bind_eq_some_iff, Option.some.injEq, Prod.mk.injEq] at h
  obtain ⟨-, -, outstanding, hout, -, -, -, -, rfl, -⟩ := h
  refine ⟨rfl, fun _ => rfl, rfl, rfl, fun valAddr' => ?_⟩
  -- the outstanding rewards are written back to the same validator
  exact TreeMap.mem_insert_of_getElem? hout

theorem fundCommunityPool_sameRecords {s s' : State} {amount : Coins}
    (h : fundCommunityPool s amount = some s') : s.SameRecords s' := by
  unfold fundCommunityPool at h
  split_ifs at h
  cases h
  exact ⟨rfl, fun _ => rfl, rfl, rfl, fun _ => Iff.rfl⟩

theorem distributeFromFeePool_sameRecords {s s' : State} {amount : Coins}
    (h : distributeFromFeePool s amount = some s') : s.SameRecords s' := by
  unfold distributeFromFeePool DecCoins.safeSub Amounts.safeSub at h
  dsimp only at h
  split_ifs at h
  simp only [Option.bind_eq_bind, Option.bind_eq_some_iff, Option.some.injEq] at h
  obtain ⟨_, -, rfl⟩ := h
  exact ⟨rfl, fun _ => rfl, rfl, rfl, fun _ => Iff.rfl⟩

end Initia.Distribution
