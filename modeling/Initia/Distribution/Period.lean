import Mathlib
import Initia.Distribution.Allocation

/-!
# Reward periods of a validator

A validator's rewards are accounted in **periods**. The running period collects the current
rewards; `IncrementValidatorPeriod` ends it, adds the rewards per token of each pool to the
cumulative ratios of the period's historical record, and starts the next one. A delegation
remembers the period it started after, and a slash event the period it ended, so each historical
record carries a count of the records that refer to it, and is deleted when the count drops to
zero.

The ratio loop reads the validator's `Tokens`, whose entries are never zero, so the branch that
sends the rewards of a zero-token denomination to the community pool is never taken
(`incrementValidatorPeriod_tracked`). The rewards of a pool whose denomination the validator
holds no tokens of (a pool `DepositValidatorRewardsPool` may fill with any denomination) are then
neither folded into a ratio nor given to the community pool: resetting the current rewards drops
them (`incrementValidatorPeriod_drops_foreign_pool`).
-/

namespace Initia.Distribution

open Initia.Sdk Initia.Mstaking Std

/-- `initializeValidator`: the historical record of period zero with one reference, an empty
period one, and empty commission and outstanding rewards. -/
def initializeValidator (s : State) (val : Validator) : State :=
  let valAddr := val.operatorAddress
  { s with
    historicalRewards := s.historicalRewards.insert (valAddr, 0) ⟨0, 1⟩
    currentRewards := s.currentRewards.insert valAddr ⟨0, 1⟩
    accumulatedCommission := s.accumulatedCommission.insert valAddr 0
    outstanding := s.outstanding.insert valAddr 0 }

/-- A new validator has no outstanding rewards yet: its records track nothing new. -/
theorem initializeValidator_tracked (s : State) (val : Validator)
    (hnew : s.outstanding[val.operatorAddress]? = none) :
    (initializeValidator s val).tracked = s.tracked ∧ (initializeValidator s val).balance = s.balance := by
  refine ⟨?_, rfl⟩
  simp only [initializeValidator, State.tracked, TreeMap.sumBy_insert, hnew, Option.map_none,
    Option.getD_none, sub_zero, DecPools.sum_zero, add_zero]

/-- `incrementReferenceCount`, which refuses a record already referred to three times. -/
def incrementReferenceCount (s : State) (valAddr period : ℕ) : Option State := do
  let historical ← s.historicalRewards[(valAddr, period)]?
  if 2 < historical.referenceCount then none
  else some { s with
    historicalRewards := s.historicalRewards.insert (valAddr, period)
      { historical with referenceCount := historical.referenceCount + 1 } }

/-- `decrementReferenceCount`, which deletes a record whose last reference goes and refuses one
with no reference. -/
def decrementReferenceCount (s : State) (valAddr period : ℕ) : Option State := do
  let historical ← s.historicalRewards[(valAddr, period)]?
  if historical.referenceCount = 0 then none
  else if historical.referenceCount - 1 = 0 then
    some { s with historicalRewards := s.historicalRewards.erase (valAddr, period) }
  else some { s with
    historicalRewards := s.historicalRewards.insert (valAddr, period)
      { historical with referenceCount := historical.referenceCount - 1 } }

/-- One token entry of the ratio loop of `IncrementValidatorPeriod`: the rewards of the pool of
that denomination per token, or, for a zero-token entry, the whole pool for the community. -/
def periodRatioStep (rewards : DecPools) : DecPools × DecPools → String × ℤ →
    Option (DecPools × DecPools)
  | (current, communityFunding), (denom, amount) =>
    let rewardCoins := rewards.coinsOf denom
    if amount = 0 then some (current, communityFunding + DecPools.newDecPool denom rewardCoins)
    else do
      let ratio ← rewardCoins.quoDecTruncate (Fixed.ofInt amount)
      some (current + DecPools.newDecPool denom ratio, communityFunding)

/-- `IncrementValidatorPeriod`: end the running period, returning its number. -/
def incrementValidatorPeriod (s : State) (val : Validator) : Option (State × ℕ) := do
  let valAddr := val.operatorAddress
  let rewards ← s.currentRewards[valAddr]?
  let (current, communityFunding) ←
    val.tokens.toList.foldlM (periodRatioStep rewards.rewards) (0, 0)
  let outstanding ← s.outstanding[valAddr]?
  let outstanding ← outstanding.sub communityFunding
  let s := { s with
    communityPool := s.communityPool + communityFunding.sum
    outstanding := s.outstanding.insert valAddr outstanding }
  let historical ← s.historicalRewards[(valAddr, rewards.period - 1)]?
  let s ← decrementReferenceCount s valAddr (rewards.period - 1)
  some ({ s with
    historicalRewards := s.historicalRewards.insert (valAddr, rewards.period)
      ⟨historical.cumulativeRewardRatios + current, 1⟩
    currentRewards := s.currentRewards.insert valAddr ⟨0, rewards.period + 1⟩ }, rewards.period)

/-- `updateValidatorSlashFraction`: end the period, and record a slash event that refers to it. -/
def updateValidatorSlashFraction (s : State) (val : Validator) (height : ℕ) (fractions : DecCoins) :
    Option State := do
  if fractions.toList.any fun fraction => 1 < fraction.2 || fraction.2 < 0 then none
  let (s, newPeriod) ← incrementValidatorPeriod s val
  let s ← incrementReferenceCount s val.operatorAddress newPeriod
  some { s with
    slashEvents := s.slashEvents.insert (val.operatorAddress, height, newPeriod)
      ⟨newPeriod, fractions⟩ }

/-! ### Reference counts -/

/-- What `incrementReferenceCount` does when it returns: one more reference to a record referred
to at most twice. -/
theorem incrementReferenceCount_eq_some {s s' : State} {valAddr period : ℕ}
    (h : incrementReferenceCount s valAddr period = some s') :
    ∃ historical, s.historicalRewards[(valAddr, period)]? = some historical ∧
      historical.referenceCount ≤ 2 ∧
      s' = { s with
        historicalRewards := s.historicalRewards.insert (valAddr, period)
          { historical with referenceCount := historical.referenceCount + 1 } } := by
  unfold incrementReferenceCount at h
  simp only [Option.bind_eq_bind, Option.bind_eq_some_iff] at h
  obtain ⟨historical, hget, h⟩ := h
  split_ifs at h with hcount
  cases h
  exact ⟨historical, hget, Nat.le_of_not_lt hcount, rfl⟩

/-- What `decrementReferenceCount` does when it returns: one reference fewer to a record that has
one, and the record deleted with its last reference. -/
theorem decrementReferenceCount_eq_some {s s' : State} {valAddr period : ℕ}
    (h : decrementReferenceCount s valAddr period = some s') :
    ∃ historical, s.historicalRewards[(valAddr, period)]? = some historical ∧
      0 < historical.referenceCount ∧
      s' = { s with
        historicalRewards :=
          if historical.referenceCount = 1 then s.historicalRewards.erase (valAddr, period)
          else s.historicalRewards.insert (valAddr, period)
            { historical with referenceCount := historical.referenceCount - 1 } } := by
  unfold decrementReferenceCount at h
  simp only [Option.bind_eq_bind, Option.bind_eq_some_iff] at h
  obtain ⟨historical, hget, h⟩ := h
  refine ⟨historical, hget, ?_⟩
  split_ifs at h with hzero hlast
  · cases h
    exact ⟨by omega, by rw [if_pos (by omega)]⟩
  · cases h
    exact ⟨by omega, by rw [if_neg (by omega)]⟩

/-! ### The ratio loop -/

/-- Over entries that are never zero, the ratio loop funds nothing. -/
theorem foldlM_periodRatioStep_funding {rewards : DecPools} {l : List (String × ℤ)}
    (hl : ∀ t ∈ l, t.2 ≠ 0) {current : DecPools} {r : DecPools × DecPools}
    (h : l.foldlM (periodRatioStep rewards) (current, 0) = some r) : r.2 = 0 :=
  List.foldlM_option_rec (fun q : DecPools × DecPools => q.2 = 0) rfl
    (fun q hq t ht q' hq' => by
      obtain ⟨c, f⟩ := q
      obtain ⟨denom, amount⟩ := t
      simp only [periodRatioStep, if_neg (hl _ ht), Option.bind_eq_bind, Option.bind_eq_some_iff,
        Option.some.injEq] at hq'
      obtain ⟨_, -, rfl⟩ := hq'
      exact hq) h

/-- The ratio loop adds nothing to the ratio of a denomination that none of its entries names. -/
theorem foldlM_periodRatioStep_coinsOf {rewards : DecPools} {l : List (String × ℤ)} {d : String}
    (hl : ∀ t ∈ l, t.1 ≠ d) {init r : DecPools × DecPools}
    (h : l.foldlM (periodRatioStep rewards) init = some r) : r.1.coinsOf d = init.1.coinsOf d :=
  List.foldlM_option_rec (fun q : DecPools × DecPools => q.1.coinsOf d = init.1.coinsOf d) rfl
    (fun q hq t ht q' hq' => by
      obtain ⟨c, f⟩ := q
      obtain ⟨denom, amount⟩ := t
      simp only [periodRatioStep] at hq'
      split_ifs at hq'
      · cases hq'
        exact hq
      · simp only [Option.bind_eq_bind, Option.bind_eq_some_iff, Option.some.injEq] at hq'
        obtain ⟨ratio, -, rfl⟩ := hq'
        -- the entry's denomination is not `d`, so its pool leaves `d`'s ratio alone
        rw [← hq]
        simp only [DecPools.coinsOf, DecPools.newDecPool, Amounts.amountOf_add,
          Amounts.amountOf_single, if_neg (hl _ ht), add_zero]) h

/-! ### Ending a period -/

/-- What `IncrementValidatorPeriod` does when it returns. The tokens have no zero entry, so the
ratio loop funds nothing and the outstanding rewards are written back unchanged; the previous
period loses a reference, and the ended period is recorded with its ratios. -/
theorem incrementValidatorPeriod_eq_some {s s' : State} {val : Validator} {period : ℕ}
    (h : incrementValidatorPeriod s val = some (s', period)) :
    ∃ rewards current outstanding historical s₁,
      s.currentRewards[val.operatorAddress]? = some rewards ∧ period = rewards.period ∧
      val.tokens.toList.foldlM (periodRatioStep rewards.rewards) (0, 0) = some (current, 0) ∧
      s.outstanding[val.operatorAddress]? = some outstanding ∧
      s.historicalRewards[(val.operatorAddress, period - 1)]? = some historical ∧
      decrementReferenceCount
        { s with outstanding := s.outstanding.insert val.operatorAddress outstanding }
        val.operatorAddress (period - 1) = some s₁ ∧
      s' = { s₁ with
        historicalRewards := s₁.historicalRewards.insert (val.operatorAddress, period)
          ⟨historical.cumulativeRewardRatios + current, 1⟩
        currentRewards := s₁.currentRewards.insert val.operatorAddress ⟨0, period + 1⟩ } := by
  unfold incrementValidatorPeriod at h
  simp only [Option.bind_eq_bind, Option.bind_eq_some_iff] at h
  obtain ⟨rewards, hrewards, ⟨current, funding⟩, hfold, outstanding, hout, outstanding', hsub, h⟩ :=
    h
  -- the entries of `Tokens` are never zero, so nothing is funded
  have hfunding : funding = 0 := foldlM_periodRatioStep_funding
    (fun t ht => (Amounts.mem_toList_iff.mp ht).2) hfold
  subst hfunding
  obtain ⟨rfl, -⟩ := DecPools.sub_eq_some_iff.mp hsub
  obtain ⟨historical, hhist, s₁, hdec, h⟩ := h
  simp only [Option.some.injEq, Prod.mk.injEq] at h
  obtain ⟨rfl, rfl⟩ := h
  simp only [DecPools.sum_zero, add_zero] at hdec
  exact ⟨rewards, current, _, historical, s₁, hrewards, rfl, hfold, hout, hhist, hdec, rfl⟩

/-- Ending a period moves nothing between the outstanding rewards, the community pool and the
module account. -/
theorem incrementValidatorPeriod_tracked {s s' : State} {val : Validator} {period : ℕ}
    (h : incrementValidatorPeriod s val = some (s', period)) :
    s'.tracked = s.tracked ∧ s'.balance = s.balance := by
  obtain ⟨-, -, outstanding, -, s₁, -, -, -, hout, -, hdec, rfl⟩ := incrementValidatorPeriod_eq_some h
  obtain ⟨-, -, -, rfl⟩ := decrementReferenceCount_eq_some hdec
  refine ⟨?_, rfl⟩
  simp only [State.tracked, TreeMap.sumBy_insert, hout, Option.map_some, Option.getD_some]
  abel

/-- Ending a period starts the next one, with no rewards yet. -/
theorem incrementValidatorPeriod_currentRewards {s s' : State} {val : Validator} {period : ℕ}
    (h : incrementValidatorPeriod s val = some (s', period)) :
    s'.currentRewards = s.currentRewards.insert val.operatorAddress ⟨0, period + 1⟩ := by
  obtain ⟨_, _, _, _, s₁, -, -, -, -, -, hdec, rfl⟩ := incrementValidatorPeriod_eq_some h
  obtain ⟨_, -, -, rfl⟩ := decrementReferenceCount_eq_some hdec
  rfl

/-- Ending a period leaves the delegations' starting infos and the slash events alone. -/
theorem incrementValidatorPeriod_delegations {s s' : State} {val : Validator} {period : ℕ}
    (h : incrementValidatorPeriod s val = some (s', period)) :
    s'.startingInfos = s.startingInfos ∧ s'.slashEvents = s.slashEvents := by
  obtain ⟨_, _, _, _, s₁, -, -, -, -, -, hdec, rfl⟩ := incrementValidatorPeriod_eq_some h
  obtain ⟨_, -, -, rfl⟩ := decrementReferenceCount_eq_some hdec
  exact ⟨rfl, rfl⟩

/-- Ending a period writes the current and outstanding rewards back to the validator that has
them. -/
theorem incrementValidatorPeriod_sameValidators {s s' : State} {val : Validator} {period : ℕ}
    (h : incrementValidatorPeriod s val = some (s', period)) : s.SameValidators s' := by
  obtain ⟨_, _, outstanding, _, s₁, hrew, -, -, hout, -, hdec, rfl⟩ :=
    incrementValidatorPeriod_eq_some h
  obtain ⟨_, -, -, rfl⟩ := decrementReferenceCount_eq_some hdec
  refine ⟨fun valAddr => ?_, fun valAddr => ?_⟩
  · exact TreeMap.mem_insert_of_getElem? hrew
  · exact TreeMap.mem_insert_of_getElem? hout

/-- What `updateValidatorSlashFraction` does when it returns: the period ends, gains a
reference, and a slash event keyed by it refers to it. -/
theorem updateValidatorSlashFraction_eq_some {s s' : State} {val : Validator} {height : ℕ}
    {fractions : DecCoins} (h : updateValidatorSlashFraction s val height fractions = some s') :
    ∃ s₁ period s₂, incrementValidatorPeriod s val = some (s₁, period) ∧
      incrementReferenceCount s₁ val.operatorAddress period = some s₂ ∧
      s' = { s₂ with
        slashEvents := s₂.slashEvents.insert (val.operatorAddress, height, period)
          ⟨period, fractions⟩ } := by
  unfold updateValidatorSlashFraction at h
  split_ifs at h
  · -- a fraction outside `[0, 1]` panics
    simp at h
  simp only [Option.bind_eq_bind, Option.bind_eq_some_iff, Option.some.injEq] at h
  obtain ⟨⟨s₁, period⟩, hinc, s₂, hinc', rfl⟩ := h
  exact ⟨s₁, period, s₂, hinc, hinc', rfl⟩

/-- Recording a slash event moves no coins. -/
theorem updateValidatorSlashFraction_tracked {s s' : State} {val : Validator} {height : ℕ}
    {fractions : DecCoins} (h : updateValidatorSlashFraction s val height fractions = some s') :
    s'.tracked = s.tracked ∧ s'.balance = s.balance := by
  obtain ⟨s₁, _, s₂, hinc, hinc', rfl⟩ := updateValidatorSlashFraction_eq_some h
  obtain ⟨_, -, -, rfl⟩ := incrementReferenceCount_eq_some hinc'
  obtain ⟨htracked, hbalance⟩ := incrementValidatorPeriod_tracked hinc
  exact ⟨htracked, hbalance⟩

/-- Recording a slash event keeps the validators. -/
theorem updateValidatorSlashFraction_sameValidators {s s' : State} {val : Validator}
    {height : ℕ} {fractions : DecCoins}
    (h : updateValidatorSlashFraction s val height fractions = some s') : s.SameValidators s' := by
  obtain ⟨s₁, _, s₂, hinc, hinc', rfl⟩ := updateValidatorSlashFraction_eq_some h
  obtain ⟨_, -, -, rfl⟩ := incrementReferenceCount_eq_some hinc'
  have hsame := incrementValidatorPeriod_sameValidators hinc
  exact ⟨hsame.currentRewards, hsame.outstanding⟩

/-- At a denomination the validator holds no tokens of, ending the period leaves the community
pool and the outstanding rewards as they were, adds nothing to the denomination's ratio, and
empties the current rewards: the pool's rewards of the running period are credited nowhere. -/
theorem incrementValidatorPeriod_foreign_pool {s s' : State} {val : Validator} {period : ℕ}
    {d : String} (hd : val.tokens.amountOf d = 0)
    (h : incrementValidatorPeriod s val = some (s', period)) :
    s'.communityPool = s.communityPool ∧
    (∀ v : ℕ, s'.outstanding[v]? = s.outstanding[v]?) ∧
    s'.currentRewards[val.operatorAddress]? = some ⟨0, period + 1⟩ ∧
    ∃ historical, s.historicalRewards[(val.operatorAddress, period - 1)]? = some historical ∧
      (s'.historicalRewards[(val.operatorAddress, period)]?).map
        (·.cumulativeRewardRatios.coinsOf d) = some (historical.cumulativeRewardRatios.coinsOf d) := by
  obtain ⟨rewards, current, outstanding, historical, s₁, -, -, hfold, hout, hhist, hdec, rfl⟩ :=
    incrementValidatorPeriod_eq_some h
  obtain ⟨-, -, -, rfl⟩ := decrementReferenceCount_eq_some hdec
  -- no token entry names `d`, so the loop leaves its ratio at zero
  have hcurrent : current.coinsOf d = 0 := by
    have := foldlM_periodRatioStep_coinsOf (d := d) (fun t ht hdt => by
      obtain ⟨hx, hne⟩ := Amounts.mem_toList_iff.mp ht
      exact hne (by rw [← hx, hdt, hd])) hfold
    simpa [DecPools.coinsOf, Amounts.amountOf_zero] using this
  refine ⟨rfl, fun v => ?_, by simp, historical, hhist, ?_⟩
  · rw [TreeMap.getElem?_insert]
    split_ifs with hv
    · rw [← Std.compare_eq_iff_eq.mp hv, hout]
    · rfl
  · simp only [DecPools.coinsOf] at hcurrent
    simp [DecPools.coinsOf, Amounts.amountOf_add, hcurrent]

/-- Five `uinit` deposited into the pool `other` of a validator bonded only in `uinit`: ending the
period credits them to no ratio and not to the community pool, while the outstanding record and
the module account still hold them. -/
theorem incrementValidatorPeriod_drops_foreign_pool :
    let val : Validator :=
      ⟨0, 0, false, .bonded, .single "uinit" 100, .single "uinit" (Fixed.ofInt 100), 0, 0, 0, 0, 0,
        0, 0⟩
    let pools : DecPools := .single "other" (.single "uinit" (Fixed.ofInt 5))
    let s₁ := depositValidatorRewardsPool defaultValidateDenom
      (initializeValidator ⟨0, ∅, ∅, ∅, ∅, ∅, ∅, 0⟩ val) val "other" (.single "uinit" 5)
    let r := s₁.bind (incrementValidatorPeriod · val)
    s₁.map (fun s => s.currentRewards[0]?.map (·.rewards)) = some (some pools) ∧
    r.map (fun r => (r.1.communityPool, r.1.balance)) = some (0, .single "uinit" 5) ∧
    r.map (fun r => r.1.outstanding[0]?) = some (some pools) ∧
    r.map (fun r => r.1.currentRewards[0]?.map (·.rewards)) = some (some 0) ∧
    r.map (fun r => r.1.historicalRewards[(0, 1)]?.map (·.cumulativeRewardRatios)) =
      some (some 0) := by
  intro val pools s₁ r
  -- the deposit reaches the current rewards and the outstanding record, not the community pool
  have hsetup : s₁.map (fun s => (s.currentRewards[0]?.map (·.rewards), s.communityPool,
      s.outstanding[0]?)) = some (some pools, 0, some pools) := by
    decide +kernel
  have hbalance : r.map (fun r => r.1.balance) = some (.single "uinit" 5) := by decide +kernel
  have hratio : r.map (fun r => r.1.historicalRewards[(0, 1)]?.map (·.cumulativeRewardRatios)) =
      some (some 0) := by
    decide +kernel
  have hr : r.isSome := by decide +kernel
  obtain ⟨s, hs, hfacts⟩ := Option.map_eq_some_iff.mp hsetup
  simp only [Prod.mk.injEq] at hfacts
  obtain ⟨hcur, hpool, hout⟩ := hfacts
  have hr' : r = incrementValidatorPeriod s val := by simp [r, hs]
  obtain ⟨⟨s', period⟩, hinc⟩ := Option.isSome_iff_exists.mp (hr' ▸ hr)
  -- the validator holds no tokens of the pool's denomination, so the period's end drops it
  obtain ⟨hcomm, houtstanding, hcurrent, -⟩ :=
    incrementValidatorPeriod_foreign_pool (d := "other") (by simp [val, Amounts.amountOf_single]) hinc
  rw [hr', hinc] at hbalance hratio ⊢
  simp only [Option.map_some, Option.some.injEq] at hbalance
  refine ⟨by rw [hs]; exact congrArg some hcur, ?_, ?_, ?_, hratio⟩
  · simp [hcomm, hpool, hbalance]
  · simp [houtstanding 0, hout]
  · have hcurrent₀ : s'.currentRewards[0]? = some ⟨0, period + 1⟩ := hcurrent
    simp [hcurrent₀]

end Initia.Distribution
