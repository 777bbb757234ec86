import Mathlib
import Initia.Distribution.References

/-!
# The distribution module as a state machine

The calls that change the distribution store or the module account: the begin blocker's
`AllocateTokens`, the keeper's `DepositValidatorRewardsPool`, `FundCommunityPool`,
`DistributeFromFeePool`, `WithdrawValidatorCommission` and `WithdrawDelegationRewards`, a period
ended on its own, and the hooks the staking module fires around its own changes. Each call carries
what it reads from the staking module: a validator as staking holds it, a delegation's shares and
the block height. A call that fails (`none`) ends the run.

The staking module's own checks are the guards of `State.step`: it creates a validator under an
operator address that has none, starts only a delegation that does not exist, hands the hooks
around a change of a delegation the same validator before and after the change, and removes a
validator once no delegation to it is left. The SDK's denomination check, which a deposit calls,
is a parameter of the machine, and both results below hold whatever the check.

The reachable states are those a fresh store reaches by finitely many calls. Over them:

* the module account holds exactly what the records track (`State.reachable_balanced`), since
  every call moves the same coins in both and a new validator starts with no outstanding rewards;
* every reference count is the number of records that refer to it (`State.ReferencesCounted`),
  so the counts add up to the validators, delegations and slash events, every reference names a
  record, and no record is at a bound of `incrementReferenceCount` or `decrementReferenceCount`
  (`State.reachable_referenceCount`).
-/

namespace Initia.Distribution

open Initia.Sdk Initia.Mstaking Std

/-- A call that changes the distribution store or the module account, with what it reads from
the staking module. -/
inductive Call
  | allocateTokens (params : Params) (baseDenom : String) (feesCollected totalPreviousPower : ℤ)
      (bondedVotes : List Validator)
  | depositValidatorRewardsPool (val : Validator) (denom : String) (amount : Coins)
  | fundCommunityPool (amount : Coins)
  | distributeFromFeePool (amount : Coins)
  | withdrawValidatorCommission (valAddr : ℕ)
  | withdrawDelegationRewards (val : Validator) (delAddr : ℕ) (shares : DecCoins) (height : ℕ)
  | incrementValidatorPeriod (val : Validator)
  /-- `CreateValidator`: `AfterValidatorCreated`. -/
  | createValidator (val : Validator)
  /-- `Delegate` to a new delegation: `BeforeDelegationCreated` with the validator before the
  delegation, `AfterDelegationModified` with the validator after it. -/
  | createDelegation (val val' : Validator) (delAddr : ℕ) (shares : DecCoins) (height : ℕ)
  /-- `Delegate` to, or `Unbond` part of, a delegation that keeps shares:
  `BeforeDelegationSharesModified` with the old shares, `AfterDelegationModified` with the new. -/
  | modifyDelegation (val val' : Validator) (delAddr : ℕ) (shares shares' : DecCoins) (height : ℕ)
  /-- `Unbond` of a delegation's last shares: `BeforeDelegationSharesModified`, and the
  delegation goes. -/
  | removeDelegation (val : Validator) (delAddr : ℕ) (shares : DecCoins) (height : ℕ)
  /-- `Slash`: `BeforeValidatorSlashed`. -/
  | slash (val : Validator) (height : ℕ) (fractions : DecCoins)
  /-- `RemoveValidator`: `AfterValidatorRemoved`. -/
  | removeValidator (valAddr : ℕ)

namespace State

/-- Whether a delegation to the validator has a starting info. -/
def delegatedTo (s : State) (valAddr : ℕ) : Bool :=
  s.startingInfos.keys.any fun key => key.1 == valAddr

variable (validateDenom : String → Except String Unit)

/-- The state after one call, or `none` when the call fails, under the denomination check
`validateDenom`. -/
def step (s : State) : Call → Option State
  | .allocateTokens params baseDenom feesCollected totalPreviousPower bondedVotes =>
    allocateTokens s params baseDenom feesCollected totalPreviousPower bondedVotes
  | .depositValidatorRewardsPool val denom amount =>
    depositValidatorRewardsPool validateDenom s val denom amount
  | .fundCommunityPool amount => fundCommunityPool s amount
  | .distributeFromFeePool amount => distributeFromFeePool s amount
  | .withdrawValidatorCommission valAddr => (withdrawValidatorCommission s valAddr).map Prod.fst
  | .withdrawDelegationRewards val delAddr shares height =>
    (Keeper.withdrawDelegationRewards s val delAddr shares height).map Prod.fst
  | .incrementValidatorPeriod val => (incrementValidatorPeriod s val).map Prod.fst
  | .createValidator val =>
    if val.operatorAddress ∈ s.currentRewards then none
    else some (Hooks.afterValidatorCreated s val)
  | .createDelegation val val' delAddr shares height =>
    if val'.operatorAddress ≠ val.operatorAddress ∨
        (val.operatorAddress, delAddr) ∈ s.startingInfos then none
    else (Hooks.beforeDelegationCreated s val).bind fun s =>
      Hooks.afterDelegationModified s val' delAddr shares height
  | .modifyDelegation val val' delAddr shares shares' height =>
    if val'.operatorAddress ≠ val.operatorAddress then none
    else (Hooks.beforeDelegationSharesModified s val delAddr shares height).bind fun s =>
      Hooks.afterDelegationModified s val' delAddr shares' height
  | .removeDelegation val delAddr shares height =>
    Hooks.beforeDelegationSharesModified s val delAddr shares height
  | .slash val height fractions => Hooks.beforeValidatorSlashed s val height fractions
  | .removeValidator valAddr =>
    if s.delegatedTo valAddr then none else Hooks.afterValidatorRemoved s valAddr

/-- A fresh store: no validator, and nothing in the community pool or the module account. -/
def genesis : State := ⟨0, ∅, ∅, ∅, ∅, ∅, ∅, 0⟩

/-- The states a fresh store reaches by finitely many calls that succeed. -/
inductive Reachable : State → Prop
  | genesis : Reachable genesis
  | step {s s' : State} (call : Call) :
      Reachable s → s.step validateDenom call = some s' → Reachable s'

variable {validateDenom}

/-- An invariant that holds of a fresh store and survives every call holds of every reachable
state. -/
theorem Reachable.rec_invariant (inv : State → Prop) (h0 : inv State.genesis)
    (hstep : ∀ (s s' : State) (call : Call), inv s → s.step validateDenom call = some s' → inv s')
    {s : State} (hs : Reachable validateDenom s) : inv s := by
  induction hs with
  | genesis => exact h0
  | step call _ hcall ih => exact hstep _ _ call ih hcall

/-- Every state a run of calls reaches from a reachable state is reachable. -/
theorem Reachable.foldlM {s s' : State} (h : Reachable validateDenom s) {calls : List Call}
    (hrun : calls.foldlM (State.step validateDenom) s = some s') : Reachable validateDenom s' :=
  List.foldlM_option_rec (Reachable validateDenom) h (fun _ hb call _ _ hs => .step call hb hs) hrun

/-- A validator with 100 uinit, created, then delegated to by delegator 2 with all its shares; a
deposit of 10 uinit into its uinit pool and a fee allocation of 100 uinit; then the delegator
withdraws its rewards. -/
def delegateAllocateWithdraw : List Call :=
  let val : Validator :=
    ⟨1, 0, false, .bonded, .single "uinit" 100, .single "uinit" (Fixed.ofInt 100), 0, 0, 0, 0, 0,
      0, 0⟩
  [.createValidator val,
    .createDelegation val val 2 (.single "uinit" (Fixed.ofInt 100)) 1,
    .depositValidatorRewardsPool val "uinit" (.single "uinit" 10),
    .allocateTokens ⟨0, true, [⟨"uinit", 1⟩]⟩ "uinit" 100 100 [val],
    .withdrawDelegationRewards val 2 (.single "uinit" (Fixed.ofInt 100)) 2]

theorem delegateAllocateWithdraw_isSome :
    (delegateAllocateWithdraw.foldlM (step defaultValidateDenom) genesis).isSome := by
  decide +kernel

/-! ### The staking guards -/

/-- Without a delegation to the validator, no starting info is of it. -/
theorem startingInfos_of_not_delegatedTo {s : State} {valAddr : ℕ}
    (h : s.delegatedTo valAddr = false) (key : ℕ × ℕ) (info : StartingInfo)
    (hkey : s.startingInfos[key]? = some info) : key.1 ≠ valAddr := by
  intro hv
  have hmem : key ∈ s.startingInfos.keys :=
    TreeMap.mem_keys.mpr (TreeMap.mem_iff_isSome_getElem?.mpr (by rw [hkey]; rfl))
  have hany : s.delegatedTo valAddr = true := List.any_eq_true.mpr ⟨key, hmem, by simp [hv]⟩
  rw [h] at hany
  cases hany

/-- What a delegation call does when it succeeds: the hook before the change, then a fresh
start of the delegation at the same validator. -/
theorem bind_afterDelegationModified_eq_some {s' : State} {first : Option State}
    {val' : Validator} {delAddr : ℕ} {shares : DecCoins} {height : ℕ}
    (h : first.bind (fun s => Hooks.afterDelegationModified s val' delAddr shares height) = some s') :
    ∃ s₁, first = some s₁ ∧ initializeDelegation s₁ val' delAddr shares height = some s' := by
  obtain ⟨s₁, hfirst, hinit⟩ := Option.bind_eq_some_iff.mp h
  exact ⟨s₁, hfirst, hinit⟩

/-! ### Conservation -/

/-- What conservation rests on: the records account for the balance, and a validator with
outstanding rewards has current rewards. -/
structure Conserved (s : State) : Prop where
  balanced : s.Balanced
  outstanding_current : ∀ valAddr : ℕ, valAddr ∈ s.outstanding → valAddr ∈ s.currentRewards

/-- A balanced state with the same validators as a conserved one is conserved. -/
theorem Conserved.of_sameValidators {s s' : State} (hs : s.Conserved) (hb : s'.Balanced)
    (h : s.SameValidators s') : s'.Conserved :=
  ⟨hb, fun v hv => (h.currentRewards v).mpr (hs.outstanding_current v ((h.outstanding v).mp hv))⟩

/-- A withdrawal of a delegation's rewards followed by its fresh start keeps the validators. -/
theorem withdraw_initialize_sameValidators {s s₁ s' : State} {val val' : Validator}
    {delAddr : ℕ} {shares shares' : DecCoins} {height : ℕ} {paid : Pools}
    (hw : withdrawDelegationRewards s val delAddr shares height = some (s₁, paid))
    (hinit : initializeDelegation s₁ val' delAddr shares' height = some s') :
    s.SameValidators s' :=
  (withdrawDelegationRewards_sameValidators hw).trans (initializeDelegation_sameValidators hinit)

/-- A new validator starts with no outstanding rewards, so its records change no total. -/
theorem Conserved.initializeValidator {s : State} {val : Validator} (hs : s.Conserved)
    (hnew : val.operatorAddress ∉ s.currentRewards) :
    (Distribution.initializeValidator s val).Conserved := by
  have hout : s.outstanding[val.operatorAddress]? = none :=
    TreeMap.getElem?_eq_none fun hmem => hnew (hs.outstanding_current _ hmem)
  obtain ⟨htracked, hbalance⟩ := initializeValidator_tracked s val hout
  refine ⟨hs.balanced.of_same htracked hbalance, fun v hv => ?_⟩
  -- the new validator has both records; every other keeps its own
  show v ∈ s.currentRewards.insert val.operatorAddress _
  rw [TreeMap.mem_insert]
  change v ∈ s.outstanding.insert val.operatorAddress _ at hv
  rw [TreeMap.mem_insert] at hv
  exact hv.imp id (hs.outstanding_current v)

/-- Removing a validator pays its commission out of both the module account and the records,
and deletes its current and outstanding rewards together. -/
theorem Conserved.afterValidatorRemoved {s s' : State} {valAddr : ℕ} (hs : s.Conserved)
    (h : Hooks.afterValidatorRemoved s valAddr = some s') : s'.Conserved := by
  obtain ⟨coins, htracked, hbalance⟩ := afterValidatorRemoved_tracked h
  obtain ⟨-, hcur, -, -, hout⟩ := afterValidatorRemoved_records h
  refine ⟨hs.balanced.sub htracked hbalance, fun v hv => ?_⟩
  rw [hout, TreeMap.mem_erase] at hv
  rw [hcur, TreeMap.mem_erase]
  exact ⟨hv.1, hs.outstanding_current v hv.2⟩

/-- Every call keeps the records accounting for the module account. -/
theorem Conserved.step {s s' : State} {call : Call} (hs : s.Conserved)
    (h : s.step validateDenom call = some s') : s'.Conserved := by
  cases call with
  | allocateTokens params baseDenom feesCollected totalPreviousPower bondedVotes =>
    obtain ⟨htracked, hbalance⟩ := allocateTokens_tracked h
    exact hs.of_sameValidators (hs.balanced.add htracked hbalance)
      (allocateTokens_sameRecords h).sameValidators
  | depositValidatorRewardsPool val denom amount =>
    exact hs.of_sameValidators (depositValidatorRewardsPool_balanced hs.balanced h)
      (depositValidatorRewardsPool_sameRecords h).sameValidators
  | fundCommunityPool amount =>
    obtain ⟨htracked, hbalance⟩ := fundCommunityPool_tracked h
    exact hs.of_sameValidators (hs.balanced.add htracked hbalance)
      (fundCommunityPool_sameRecords h).sameValidators
  | distributeFromFeePool amount =>
    obtain ⟨htracked, hbalance⟩ := distributeFromFeePool_tracked h
    exact hs.of_sameValidators (hs.balanced.sub htracked hbalance)
      (distributeFromFeePool_sameRecords h).sameValidators
  | withdrawValidatorCommission valAddr =>
    obtain ⟨⟨_, paid⟩, hw, rfl⟩ := Option.map_eq_some_iff.mp h
    obtain ⟨htracked, hbalance⟩ := withdrawValidatorCommission_tracked hw
    exact hs.of_sameValidators (hs.balanced.sub htracked hbalance)
      (withdrawValidatorCommission_sameRecords hw).sameValidators
  | withdrawDelegationRewards val delAddr shares height =>
    obtain ⟨⟨_, paid⟩, hw, rfl⟩ := Option.map_eq_some_iff.mp h
    obtain ⟨htracked, hbalance⟩ := keeper_withdrawDelegationRewards_tracked hw
    unfold Keeper.withdrawDelegationRewards at hw
    simp only [Option.bind_eq_bind, Option.bind_eq_some_iff, Option.some.injEq,
      Prod.mk.injEq] at hw
    obtain ⟨⟨s₁, _⟩, hwithdraw, _, hinit, rfl, -⟩ := hw
    exact hs.of_sameValidators (hs.balanced.sub htracked hbalance)
      (withdraw_initialize_sameValidators hwithdraw hinit)
  | incrementValidatorPeriod val =>
    obtain ⟨⟨_, period⟩, hinc, rfl⟩ := Option.map_eq_some_iff.mp h
    obtain ⟨htracked, hbalance⟩ := incrementValidatorPeriod_tracked hinc
    exact hs.of_sameValidators (hs.balanced.of_same htracked hbalance)
      (incrementValidatorPeriod_sameValidators hinc)
  | createValidator val =>
    simp only [State.step] at h
    split_ifs at h with hnew
    cases h
    exact hs.initializeValidator hnew
  | createDelegation val val' delAddr shares height =>
    simp only [State.step] at h
    split_ifs at h
    obtain ⟨s₁, hfirst, hinit⟩ := bind_afterDelegationModified_eq_some h
    obtain ⟨⟨_, period⟩, hinc, rfl⟩ := Option.map_eq_some_iff.mp hfirst
    obtain ⟨htracked, hbalance⟩ := incrementValidatorPeriod_tracked hinc
    have hsame := (incrementValidatorPeriod_sameValidators hinc).trans
      (initializeDelegation_sameValidators hinit)
    -- starting the delegation moves no coins
    obtain ⟨_, _, _, -, -, -, -, rfl⟩ := initializeDelegation_eq_some hinit
    exact hs.of_sameValidators (hs.balanced.of_same htracked hbalance) hsame
  | modifyDelegation val val' delAddr shares shares' height =>
    simp only [State.step] at h
    split_ifs at h
    obtain ⟨s₁, hfirst, hinit⟩ := bind_afterDelegationModified_eq_some h
    obtain ⟨⟨_, paid⟩, hwithdraw, rfl⟩ := Option.map_eq_some_iff.mp hfirst
    obtain ⟨htracked, hbalance⟩ := withdrawDelegationRewards_tracked hwithdraw
    have hsame := withdraw_initialize_sameValidators hwithdraw hinit
    obtain ⟨_, _, _, -, -, -, -, rfl⟩ := initializeDelegation_eq_some hinit
    exact hs.of_sameValidators (hs.balanced.sub htracked hbalance) hsame
  | removeDelegation val delAddr shares height =>
    obtain ⟨⟨_, paid⟩, hwithdraw, rfl⟩ := Option.map_eq_some_iff.mp h
    obtain ⟨htracked, hbalance⟩ := withdrawDelegationRewards_tracked hwithdraw
    exact hs.of_sameValidators (hs.balanced.sub htracked hbalance)
      (withdrawDelegationRewards_sameValidators hwithdraw)
  | slash val height fractions =>
    obtain ⟨htracked, hbalance⟩ := updateValidatorSlashFraction_tracked h
    exact hs.of_sameValidators (hs.balanced.of_same htracked hbalance)
      (updateValidatorSlashFraction_sameValidators h)
  | removeValidator valAddr =>
    simp only [State.step] at h
    split_ifs at h
    exact hs.afterValidatorRemoved h

theorem Conserved.genesis : genesis.Conserved :=
  ⟨rfl, fun _ hv => absurd hv (TreeMap.not_mem_emptyc)⟩

/-- The module account holds exactly what the records track, in every reachable state. -/
theorem reachable_balanced {s : State} (hs : Reachable validateDenom s) : s.Balanced :=
  (Reachable.rec_invariant Conserved Conserved.genesis (fun _ _ _ h hstep => h.step hstep) hs).balanced

theorem reachable_balanced_delegateAllocateWithdraw :
    ∃ s, delegateAllocateWithdraw.foldlM (step defaultValidateDenom) genesis = some s ∧
      Reachable defaultValidateDenom s ∧ s.Balanced := by
  obtain ⟨s, hrun⟩ := Option.isSome_iff_exists.mp delegateAllocateWithdraw_isSome
  have hs := Reachable.genesis.foldlM hrun
  exact ⟨s, hrun, hs, reachable_balanced hs⟩

/-! ### Reference counting -/

theorem ReferencesCounted.genesis : genesis.ReferencesCounted := by
  refine ⟨fun key historical hkey => ?_, fun key hkey => ?_, fun key event hkey => ?_⟩
  · exact absurd hkey (by simp [State.genesis])
  · -- a fresh store refers to nothing
    have hzero : State.genesis.referencesTo key = 0 := rfl
    omega
  · exact absurd hkey (by simp [State.genesis])

/-- Every call keeps every reference counted. -/
theorem ReferencesCounted.step {s s' : State} {call : Call} (hs : s.ReferencesCounted)
    (h : s.step validateDenom call = some s') : s'.ReferencesCounted := by
  cases call with
  | allocateTokens params baseDenom feesCollected totalPreviousPower bondedVotes =>
    exact hs.of_sameRecords (allocateTokens_sameRecords h)
  | depositValidatorRewardsPool val denom amount =>
    exact hs.of_sameRecords (depositValidatorRewardsPool_sameRecords h)
  | fundCommunityPool amount => exact hs.of_sameRecords (fundCommunityPool_sameRecords h)
  | distributeFromFeePool amount => exact hs.of_sameRecords (distributeFromFeePool_sameRecords h)
  | withdrawValidatorCommission valAddr =>
    obtain ⟨⟨_, paid⟩, hw, rfl⟩ := Option.map_eq_some_iff.mp h
    exact hs.of_sameRecords (withdrawValidatorCommission_sameRecords hw)
  | withdrawDelegationRewards val delAddr shares height =>
    obtain ⟨⟨_, paid⟩, hw, rfl⟩ := Option.map_eq_some_iff.mp h
    unfold Keeper.withdrawDelegationRewards at hw
    simp only [Option.bind_eq_bind, Option.bind_eq_some_iff, Option.some.injEq,
      Prod.mk.injEq] at hw
    obtain ⟨⟨s₁, _⟩, hwithdraw, _, hinit, rfl, -⟩ := hw
    -- the withdrawal leaves the period fresh and the delegation without a starting info
    obtain ⟨hs₁, hfresh, hnew⟩ := hs.withdrawDelegationRewards hwithdraw
    exact hs₁.initializeDelegation hfresh hnew hinit
  | incrementValidatorPeriod val =>
    obtain ⟨⟨_, period⟩, hinc, rfl⟩ := Option.map_eq_some_iff.mp h
    exact (hs.incrementValidatorPeriod hinc).1
  | createValidator val =>
    simp only [State.step] at h
    split_ifs at h with hnew
    cases h
    exact hs.initializeValidator (TreeMap.getElem?_eq_none hnew)
  | createDelegation val val' delAddr shares height =>
    simp only [State.step] at h
    split_ifs at h with hguard
    obtain ⟨_, hfirst, hinit⟩ := bind_afterDelegationModified_eq_some h
    obtain ⟨⟨s₁, period⟩, hinc, rfl⟩ := Option.map_eq_some_iff.mp hfirst
    obtain ⟨hs₁, hfresh⟩ := hs.incrementValidatorPeriod hinc
    -- staking hands the hooks one validator, and the delegation is new
    obtain ⟨hval, hnew⟩ := not_or.mp hguard
    have hval' : val'.operatorAddress = val.operatorAddress := not_not.mp hval
    have hnew₁ : s₁.startingInfos[(val'.operatorAddress, delAddr)]? = none := by
      rw [(incrementValidatorPeriod_delegations hinc).1, hval']
      exact TreeMap.getElem?_eq_none hnew
    rw [← hval'] at hfresh
    exact hs₁.initializeDelegation hfresh hnew₁ hinit
  | modifyDelegation val val' delAddr shares shares' height =>
    simp only [State.step] at h
    split_ifs at h with hval
    obtain ⟨s₁, hfirst, hinit⟩ := bind_afterDelegationModified_eq_some h
    obtain ⟨⟨_, paid⟩, hwithdraw, rfl⟩ := Option.map_eq_some_iff.mp hfirst
    obtain ⟨hs₁, hfresh, hnew⟩ := hs.withdrawDelegationRewards hwithdraw
    have hval' : val'.operatorAddress = val.operatorAddress := not_not.mp hval
    rw [← hval'] at hfresh hnew
    exact hs₁.initializeDelegation hfresh hnew hinit
  | removeDelegation val delAddr shares height =>
    obtain ⟨⟨_, paid⟩, hwithdraw, rfl⟩ := Option.map_eq_some_iff.mp h
    exact (hs.withdrawDelegationRewards hwithdraw).1
  | slash val height fractions => exact hs.updateValidatorSlashFraction h
  | removeValidator valAddr =>
    simp only [State.step] at h
    split_ifs at h with hdel
    exact hs.afterValidatorRemoved (startingInfos_of_not_delegatedTo (Bool.eq_false_iff.mpr hdel)) h

/-- In every reachable state the reference counts add up to the validators, delegations and slash
events; every validator's last ended period, every delegation's starting period and every slash
event's period is recorded; no record has a count of zero; and neither one more nor one fewer
reference to a record meets the bounds of `incrementReferenceCount` and
`decrementReferenceCount`. -/
theorem reachable_referenceCount {s : State} (hs : Reachable validateDenom s) :
    s.historicalRewards.sumBy (fun _ historical => (historical.referenceCount : ℤ)) =
        s.currentRewards.size + s.startingInfos.size + s.slashEvents.size ∧
      (∀ (valAddr : ℕ) (rewards : CurrentRewards), s.currentRewards[valAddr]? = some rewards →
        (valAddr, rewards.period - 1) ∈ s.historicalRewards) ∧
      (∀ (key : ℕ × ℕ) (info : StartingInfo), s.startingInfos[key]? = some info →
        (key.1, info.previousPeriod) ∈ s.historicalRewards) ∧
      (∀ (key : ℕ × ℕ × ℕ) (event : SlashEvent), s.slashEvents[key]? = some event →
        (key.1, event.validatorPeriod) ∈ s.historicalRewards) ∧
      (∀ (key : ℕ × ℕ) (historical : HistoricalRewards), s.historicalRewards[key]? = some historical →
        historical.referenceCount ≠ 0) ∧
      (∀ key ∈ s.historicalRewards, (incrementReferenceCount s key.1 key.2).isSome ∧
        (decrementReferenceCount s key.1 key.2).isSome) := by
  have hrc : s.ReferencesCounted := Reachable.rec_invariant ReferencesCounted
    ReferencesCounted.genesis (fun _ _ _ h hstep => h.step hstep) hs
  exact ⟨hrc.sumBy_referenceCount, fun _ _ h => hrc.current_recorded h,
    fun _ _ h => hrc.startingInfo_recorded h, fun _ _ h => hrc.slashEvent_recorded h,
    fun key historical h => (hrc.record key historical h).2.1.ne',
    fun _ hkey => ⟨hrc.incrementReferenceCount_isSome hkey, hrc.decrementReferenceCount_isSome hkey⟩⟩

theorem reachable_referenceCount_delegateAllocateWithdraw :
    ∃ s, delegateAllocateWithdraw.foldlM (step defaultValidateDenom) genesis = some s ∧
      Reachable defaultValidateDenom s ∧
      s.historicalRewards.sumBy (fun _ historical => (historical.referenceCount : ℤ)) =
        s.currentRewards.size + s.startingInfos.size + s.slashEvents.size := by
  obtain ⟨s, hrun⟩ := Option.isSome_iff_exists.mp delegateAllocateWithdraw_isSome
  have hs := Reachable.genesis.foldlM hrun
  exact ⟨s, hrun, hs, (reachable_referenceCount hs).1⟩

end State

end Initia.Distribution
