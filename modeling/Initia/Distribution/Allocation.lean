import Mathlib
import Initia.Lib.Fold
import Initia.Distribution.Types
import Initia.Mstaking.Validator

/-!
# Allocation of the collected fees

At the start of a block `AllocateTokens` moves the fees collected in the base denomination to the
distribution module account and shares them out: a community tax goes to the community pool, and
the rest is split first between the reward pools, by the **reward weights** of the parameters, and
then within each pool between the bonded validators, by the tokens of the pool's denomination they
hold. Each validator's reward is split again into its commission and its delegators' current
rewards (`allocateTokensToValidatorPool`). What no validator receives (rounding, and pools nobody
bonds) goes to the community pool.

The two loops are folds over the reward weights and the bonded validators; a fold in `Option`,
since a reward that overdraws the remainder, and a division by a zero weight sum, panic.

* A successful allocation keeps the records balanced against the module account: the fees enter
  the account and the records together (`allocateTokens_tracked`).
* Parameters that pass `validateBasic` may carry reward weights that are all zero. Their sum is
  zero, and the first pool fraction divides by it (`allocateTokens_zero_weights`).
-/

namespace Initia.Distribution

open Initia.Sdk Initia.Mstaking Std

/-! ### Parameters -/

/-- `RewardWeight`. -/
structure RewardWeight where
  denom : String
  weight : LegacyDec
  deriving DecidableEq

/-- The distribution parameters. -/
structure Params where
  communityTax : LegacyDec
  withdrawAddrEnabled : Bool
  rewardWeights : List RewardWeight
  deriving DecidableEq

-- `sdk.ValidateDenom` lives in the SDK, outside this repository: the module takes the check as a
-- parameter, and a result that needs its answer on a denomination states it as a hypothesis.
variable (validateDenom : String → Except String Unit)

/-- The SDK's default denomination check, `[a-zA-Z][a-zA-Z0-9/:._-]{2,127}`: the check the
concrete runs are made under. -/
def defaultValidateDenom (denom : String) : Except String Unit :=
  match denom.toList with
  | c :: rest =>
    if c.isAlpha && 2 ≤ rest.length && rest.length ≤ 127 &&
        rest.all (fun c => c.isAlphanum || "/:._-".toList.contains c) then .ok ()
    else .error ("invalid denom: " ++ denom)
  | [] => .error ("invalid denom: " ++ denom)

/-- `validateCommunityTax`: a tax in `[0, 1]`. -/
def validateCommunityTax (v : LegacyDec) : Except String Unit :=
  if v < 0 then .error ("community tax must be positive: " ++ v.toString)
  else if 1 < v then .error ("community tax too large: " ++ v.toString)
  else .ok ()

/-- `validateRewardWeights`: valid denominations and non-negative weights. -/
def validateRewardWeights : List RewardWeight → Except String Unit
  | [] => .ok ()
  | rw :: rest => do
    validateDenom rw.denom
    if rw.weight < 0 then
      .error ("reward weight must be positive: \x7b" ++ rw.denom ++ " " ++ rw.weight.toString ++
        "\x7d")
    else validateRewardWeights rest

/-- `Params.ValidateBasic`. -/
def Params.validateBasic (p : Params) : Except String Unit := do
  validateCommunityTax p.communityTax
  validateRewardWeights validateDenom p.rewardWeights

/-! ### One validator's pool -/

/-- `AllocateTokensToValidatorPool`: the commission share of `tokens` goes to the validator's
accumulated commission, the rest to its current rewards, and all of it to its outstanding
rewards, in the pool `denom`. -/
def allocateTokensToValidatorPool (s : State) (val : Validator) (denom : String)
    (tokens : DecCoins) : Option State := do
  let commissions := tokens.mulDec val.commissionRate
  let shared ← tokens.sub commissions
  let valAddr := val.operatorAddress
  let currentCommission := s.accumulatedCommission[valAddr]?.getD 0
  let currentRewards ← s.currentRewards[valAddr]?
  let outstanding ← s.outstanding[valAddr]?
  some { s with
    accumulatedCommission :=
      s.accumulatedCommission.insert valAddr (currentCommission + DecPools.newDecPool denom commissions)
    currentRewards := s.currentRewards.insert valAddr
      { currentRewards with rewards := currentRewards.rewards + DecPools.newDecPool denom shared }
    outstanding := s.outstanding.insert valAddr (outstanding + DecPools.newDecPool denom tokens) }

/-- The allocation adds `tokens` to what the records track, and leaves the balance alone. -/
theorem allocateTokensToValidatorPool_tracked {s s' : State} {val : Validator} {denom : String}
    {tokens : DecCoins} (h : allocateTokensToValidatorPool s val denom tokens = some s') :
    s'.tracked = s.tracked + tokens ∧ s'.balance = s.balance := by
  unfold allocateTokensToValidatorPool at h
  simp only [Option.bind_eq_bind, Option.bind_eq_some_iff, Option.some.injEq] at h
  obtain ⟨shared, -, current, -, outstanding, hout, rfl⟩ := h
  refine ⟨?_, rfl⟩
  -- only the outstanding record enters the tracked total
  simp only [State.tracked, TreeMap.sumBy_insert, hout, Option.map_some, Option.getD_some,
    DecPools.sum_add, DecPools.sum_newDecPool]
  abel

/-- The allocation writes coins into records the validator already has. -/
theorem allocateTokensToValidatorPool_sameRecords {s s' : State} {val : Validator}
    {denom : String} {tokens : DecCoins}
    (h : allocateTokensToValidatorPool s val denom tokens = some s') : s.SameRecords s' := by
  unfold allocateTokensToValidatorPool at h
  simp only [Option.bind_eq_bind, Option.bind_eq_some_iff, Option.some.injEq] at h
  obtain ⟨shared, -, current, hcur, outstanding, hout, rfl⟩ := h
  refine ⟨rfl, fun valAddr => ?_, rfl, rfl, fun valAddr => ?_⟩
  · -- the running period stays
    simp only [TreeMap.getElem?_insert, Std.compare_eq_iff_eq]
    split_ifs with hv
    · rw [← hv, hcur]
      rfl
    · rfl
  · exact TreeMap.mem_insert_of_getElem? hout

/-- `DepositValidatorRewardsPool`: the depositor's coins enter the module account and are
allocated to the validator's pool `denom`, which may be any valid denomination. The bank refuses
coins with a negative amount; the depositor's own balance is not modelled. -/
def depositValidatorRewardsPool (s : State) (val : Validator) (denom : String) (amount : Coins) :
    Option State :=
  if amount.isAnyNegative then none
  else match validateDenom denom with
    | .error _ => none
    | .ok () => allocateTokensToValidatorPool { s with balance := s.balance + amount } val denom
        amount.toDecCoins

/-- A deposit enters the module account and the records together. -/
theorem depositValidatorRewardsPool_balanced {validateDenom : String → Except String Unit}
    {s s' : State} {val : Validator} {denom : String} {amount : Coins} (hs : s.Balanced)
    (h : depositValidatorRewardsPool validateDenom s val denom amount = some s') :
    s'.Balanced := by
  unfold depositValidatorRewardsPool at h
  split_ifs at h
  split at h
  · cases h
  · obtain ⟨htracked, hbalance⟩ := allocateTokensToValidatorPool_tracked h
    rw [State.Balanced, hbalance, htracked, Coins.toDecCoins_add, hs]
    rfl

/-- A deposit changes no record but the coins in them. -/
theorem depositValidatorRewardsPool_sameRecords {validateDenom : String → Except String Unit}
    {s s' : State} {val : Validator} {denom : String} {amount : Coins}
    (h : depositValidatorRewardsPool validateDenom s val denom amount = some s') :
    s.SameRecords s' := by
  unfold depositValidatorRewardsPool at h
  split_ifs at h
  split at h
  · cases h
  · have hbalance : s.SameRecords { s with balance := s.balance + amount } :=
      ⟨rfl, fun _ => rfl, rfl, rfl, fun _ => Iff.rfl⟩
    exact hbalance.trans (allocateTokensToValidatorPool_sameRecords h)

/-! ### The allocation -/

/-- `LoadRewardWeights`: the sum of the weights. -/
def loadRewardWeights (rewardWeights : List RewardWeight) : LegacyDec :=
  (rewardWeights.map RewardWeight.weight).sum

/-- The `bondedTokens[denom]` list of `LoadBondedTokens`: the validators of the bonded votes that
hold tokens of a rewarded denomination, in the order of the votes, with their amounts. -/
def loadBondedTokens (rewardWeights : List RewardWeight) (validators : List Validator)
    (denom : String) : List (Validator × ℤ) :=
  if rewardWeights.any (·.denom = denom) then
    validators.filterMap fun v =>
      if v.tokens.amountOf denom = 0 then none else some (v, v.tokens.amountOf denom)
  else []

/-- The inner loop of `AllocateTokens`: the validators of one pool, each getting its fraction
`amount / poolSize` of `poolReward`, subtracted from what remains. -/
def allocatePool (poolDenom : String) (poolReward : DecCoins) (poolSize : ℤ) :
    State × DecCoins → Validator × ℤ → Option (State × DecCoins)
  | (s, remaining), (validator, amount) => do
    if amount = 0 then return (s, remaining)
    let amountFraction ← (Fixed.ofInt amount : LegacyDec).quoInt poolSize
    let reward := poolReward.mulDecTruncate amountFraction
    if reward.isZero then return (s, remaining)
    let s ← allocateTokensToValidatorPool s validator poolDenom reward
    let remaining ← remaining.sub reward
    return (s, remaining)

/-- The outer loop of `AllocateTokens`: one reward weight's pool. -/
def allocateWeight (feesCollected : DecCoins) (voteMultiplier weightsSum : LegacyDec)
    (bondedTokens : String → List (Validator × ℤ)) :
    State × DecCoins → RewardWeight → Option (State × DecCoins)
  | (s, remaining), rewardWeight => do
    let poolFraction ← rewardWeight.weight.quoTruncate weightsSum
    let poolReward := (feesCollected.mulDecTruncate voteMultiplier).mulDecTruncate poolFraction
    let poolDenom := rewardWeight.denom
    let bonded := bondedTokens poolDenom
    let poolSize := (bonded.map Prod.snd).sum
    if poolSize = 0 then return (s, remaining)
    bonded.foldlM (allocatePool poolDenom poolReward poolSize) (s, remaining)

/-- `AllocateTokens`, given the base denomination, the fee collector's balance of it and the
validators of the bonded votes. -/
def allocateTokens (s : State) (params : Params) (baseDenom : String) (feesCollectedInt : ℤ)
    (totalPreviousPower : ℤ) (bondedVotes : List Validator) : Option State := do
  let feesCollected := Coins.toDecCoins (.single baseDenom feesCollectedInt)
  let s := { s with balance := s.balance + .single baseDenom feesCollectedInt }
  if totalPreviousPower = 0 then
    return { s with communityPool := s.communityPool + feesCollected }
  let voteMultiplier := 1 - params.communityTax
  let weightsSum := loadRewardWeights params.rewardWeights
  let (s, remaining) ← params.rewardWeights.foldlM
    (allocateWeight feesCollected voteMultiplier weightsSum
      (loadBondedTokens params.rewardWeights bondedVotes)) (s, feesCollected)
  return { s with communityPool := s.communityPool + remaining }

/-! ### What an allocation keeps -/

/-- The records and the remainder together stay at a fixed total through one validator. -/
theorem allocatePool_tracked {poolDenom : String} {poolReward : DecCoins} {poolSize : ℤ}
    {p p' : State × DecCoins} {x : Validator × ℤ}
    (h : allocatePool poolDenom poolReward poolSize p x = some p') :
    p'.1.tracked + p'.2 = p.1.tracked + p.2 ∧ p'.1.balance = p.1.balance := by
  obtain ⟨s, remaining⟩ := p
  obtain ⟨validator, amount⟩ := x
  simp only [allocatePool] at h
  split_ifs at h with h0
  · cases h
    exact ⟨rfl, rfl⟩
  simp only [Option.bind_eq_bind, Option.bind_eq_some_iff] at h
  obtain ⟨fraction, -, h⟩ := h
  split_ifs at h with hz
  · cases h
    exact ⟨rfl, rfl⟩
  simp only [Option.bind_eq_some_iff, Option.pure_def, Option.some.injEq] at h
  obtain ⟨s', hs', remaining', hrem, rfl⟩ := h
  obtain ⟨htracked, hbal⟩ := allocateTokensToValidatorPool_tracked hs'
  obtain ⟨rfl, -⟩ := Amounts.subChecked_eq_some_iff.mp hrem
  refine ⟨?_, hbal⟩
  rw [htracked]
  dsimp only
  abel

/-- The records and the remainder together stay at a fixed total through one pool. -/
theorem allocateWeight_tracked {feesCollected : DecCoins} {voteMultiplier weightsSum : LegacyDec}
    {bondedTokens : String → List (Validator × ℤ)} {p p' : State × DecCoins} {rw : RewardWeight}
    (h : allocateWeight feesCollected voteMultiplier weightsSum bondedTokens p rw = some p') :
    p'.1.tracked + p'.2 = p.1.tracked + p.2 ∧ p'.1.balance = p.1.balance := by
  obtain ⟨s, remaining⟩ := p
  simp only [allocateWeight, Option.bind_eq_bind, Option.bind_eq_some_iff] at h
  obtain ⟨fraction, -, h⟩ := h
  split_ifs at h with hsize
  · cases h
    exact ⟨rfl, rfl⟩
  -- the inner fold keeps the total, validator by validator
  exact List.foldlM_option_rec
    (fun q : State × DecCoins => q.1.tracked + q.2 = s.tracked + remaining ∧ q.1.balance = s.balance)
    ⟨rfl, rfl⟩ (fun q hq _ _ q' hq' => by
      obtain ⟨h1, h2⟩ := allocatePool_tracked hq'
      exact ⟨h1.trans hq.1, h2.trans hq.2⟩) h

/-- A successful allocation adds the fees to the module account and to what the records track. -/
theorem allocateTokens_tracked {s s' : State} {params : Params} {baseDenom : String}
    {feesCollectedInt totalPreviousPower : ℤ} {bondedVotes : List Validator}
    (h : allocateTokens s params baseDenom feesCollectedInt totalPreviousPower bondedVotes = some s') :
    s'.tracked = s.tracked + Coins.toDecCoins (.single baseDenom feesCollectedInt) ∧
      s'.balance = s.balance + .single baseDenom feesCollectedInt := by
  unfold allocateTokens at h
  simp only [Option.bind_eq_bind] at h
  split_ifs at h with hpower
  · cases h
    refine ⟨?_, rfl⟩
    simp only [State.tracked]
    abel
  simp only [Option.bind_eq_some_iff, Option.pure_def, Option.some.injEq] at h
  obtain ⟨⟨s₁, remaining⟩, hfold, rfl⟩ := h
  -- the outer fold keeps the total of the records and the remainder
  obtain ⟨htracked, hbal⟩ := List.foldlM_option_rec
    (fun q : State × DecCoins => q.1.tracked + q.2 =
      ({ s with balance := s.balance + .single baseDenom feesCollectedInt } : State).tracked +
        Coins.toDecCoins (.single baseDenom feesCollectedInt) ∧
      q.1.balance = s.balance + .single baseDenom feesCollectedInt)
    ⟨rfl, rfl⟩ (fun q hq _ _ q' hq' => by
      obtain ⟨h1, h2⟩ := allocateWeight_tracked hq'
      exact ⟨h1.trans hq.1, h2.trans hq.2⟩) hfold
  refine ⟨?_, hbal⟩
  simp only [State.tracked] at htracked ⊢
  rw [← htracked]
  abel

/-- One validator's share of a pool changes no record but the coins in them. -/
theorem allocatePool_sameRecords {poolDenom : String} {poolReward : DecCoins} {poolSize : ℤ}
    {p p' : State × DecCoins} {x : Validator × ℤ}
    (h : allocatePool poolDenom poolReward poolSize p x = some p') : p.1.SameRecords p'.1 := by
  obtain ⟨s, remaining⟩ := p
  obtain ⟨validator, amount⟩ := x
  simp only [allocatePool] at h
  split_ifs at h with h0
  · cases h
    exact .refl s
  simp only [Option.bind_eq_bind, Option.bind_eq_some_iff] at h
  obtain ⟨fraction, -, h⟩ := h
  split_ifs at h with hz
  · cases h
    exact .refl s
  simp only [Option.bind_eq_some_iff, Option.pure_def, Option.some.injEq] at h
  obtain ⟨s', hs', remaining', -, rfl⟩ := h
  exact allocateTokensToValidatorPool_sameRecords hs'

/-- One pool's allocation changes no record but the coins in them. -/
theorem allocateWeight_sameRecords {feesCollected : DecCoins}
    {voteMultiplier weightsSum : LegacyDec} {bondedTokens : String → List (Validator × ℤ)}
    {p p' : State × DecCoins} {rw : RewardWeight}
    (h : allocateWeight feesCollected voteMultiplier weightsSum bondedTokens p rw = some p') :
    p.1.SameRecords p'.1 := by
  obtain ⟨s, remaining⟩ := p
  simp only [allocateWeight, Option.bind_eq_bind, Option.bind_eq_some_iff] at h
  obtain ⟨fraction, -, h⟩ := h
  split_ifs at h with hsize
  · cases h
    exact .refl s
  exact List.foldlM_option_rec (fun q : State × DecCoins => s.SameRecords q.1) (.refl s)
    (fun _ hq _ _ _ hq' => hq.trans (allocatePool_sameRecords hq')) h

/-- An allocation changes no record but the coins in them. -/
theorem allocateTokens_sameRecords {s s' : State} {params : Params} {baseDenom : String}
    {feesCollectedInt totalPreviousPower : ℤ} {bondedVotes : List Validator}
    (h : allocateTokens s params baseDenom feesCollectedInt totalPreviousPower bondedVotes = some s') :
    s.SameRecords s' := by
  unfold allocateTokens at h
  simp only [Option.bind_eq_bind] at h
  split_ifs at h with hpower
  · cases h
    exact ⟨rfl, fun _ => rfl, rfl, rfl, fun _ => Iff.rfl⟩
  simp only [Option.bind_eq_some_iff, Option.pure_def, Option.some.injEq] at h
  obtain ⟨⟨s₁, remaining⟩, hfold, rfl⟩ := h
  have hfees : s.SameRecords { s with balance := s.balance + .single baseDenom feesCollectedInt } :=
    ⟨rfl, fun _ => rfl, rfl, rfl, fun _ => Iff.rfl⟩
  have hs₁ := List.foldlM_option_rec (fun q : State × DecCoins => s.SameRecords q.1) hfees
    (fun _ hq _ _ _ hq' => hq.trans (allocateWeight_sameRecords hq')) hfold
  exact hs₁.trans ⟨rfl, fun _ => rfl, rfl, rfl, fun _ => Iff.rfl⟩

/-- Reward weights that are all zero sum to zero, and the first pool fraction divides by that
sum: with a previous power, the allocation panics whatever the fees, the store and the votes. -/
theorem allocateTokens_zero_weights (s : State) (params : Params) (baseDenom : String)
    (feesCollectedInt totalPreviousPower : ℤ) (bondedVotes : List Validator)
    (hpower : totalPreviousPower ≠ 0) (hne : params.rewardWeights ≠ [])
    (hzero : ∀ rw ∈ params.rewardWeights, rw.weight = 0) :
    allocateTokens s params baseDenom feesCollectedInt totalPreviousPower bondedVotes = none := by
  have hsum : loadRewardWeights params.rewardWeights = 0 := by
    unfold loadRewardWeights
    exact List.sum_eq_zero fun w hw => by
      obtain ⟨rw, hrw, rfl⟩ := List.mem_map.mp hw
      exact hzero rw hrw
  obtain ⟨rw, rest, hcons⟩ := List.exists_cons_of_ne_nil hne
  rw [hcons] at hsum
  unfold allocateTokens
  simp only [Option.bind_eq_bind, if_neg hpower, hsum, hcons, List.foldlM_cons]
  -- the first weight's pool fraction is a quotient by zero
  have : allocateWeight (Coins.toDecCoins (.single baseDenom feesCollectedInt))
      (1 - params.communityTax) 0 (loadBondedTokens (rw :: rest) bondedVotes)
      ({ s with balance := s.balance + .single baseDenom feesCollectedInt },
        Coins.toDecCoins (.single baseDenom feesCollectedInt)) rw = none := by
    simp [allocateWeight, Fixed.quoTruncate]
  simp [this]

/-- Parameters with one reward weight of zero pass `ValidateBasic` under any denomination check
that accepts `uinit`, and the allocation of a block's fees under them panics. -/
theorem allocateTokens_panics_on_zero_weight (hdenom : validateDenom "uinit" = .ok ()) :
    let params : Params := ⟨⟨2 * 10 ^ 16⟩, true, [⟨"uinit", 0⟩]⟩
    params.validateBasic validateDenom = .ok () ∧
      ∀ s bondedVotes, allocateTokens s params "uinit" 100 1 bondedVotes = none := by
  intro params
  have htax : validateCommunityTax params.communityTax = .ok () := by decide +kernel
  -- the one weight has a denomination the check accepts, and is not negative
  have hweights : validateRewardWeights validateDenom params.rewardWeights = .ok () := by
    simp only [params, validateRewardWeights, hdenom]
    rfl
  refine ⟨?_, fun s bondedVotes => ?_⟩
  · simp only [Params.validateBasic, htax, hweights]
    rfl
  exact allocateTokens_zero_weights s params "uinit" 100 1 bondedVotes one_ne_zero
    (List.cons_ne_nil _ _) fun rw hrw => by
      rw [List.mem_singleton] at hrw
      rw [hrw]

theorem allocateTokens_panics_on_zero_weight_default :
    defaultValidateDenom "uinit" = .ok () ∧
      (⟨⟨2 * 10 ^ 16⟩, true, [⟨"uinit", 0⟩]⟩ : Params).validateBasic defaultValidateDenom =
        .ok () :=
  ⟨rfl, (allocateTokens_panics_on_zero_weight defaultValidateDenom rfl).1⟩

end Initia.Distribution
