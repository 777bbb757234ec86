import Mathlib
import Initia.Gov.Tally
import Initia.Gov.Schedule

/-!
# The deductions of the vote walk, and a tally that always returns

The tally can fail in four places. It divides by a validator's delegator shares of a
denomination, by the total power of the chain, and by the power counted. It also subtracts from
each validator's delegator shares the shares its voting delegators took, which panics when they
took more than the validator has.

On a consistent staking state none of these happens (`tally_isSome`). The staking keeper keeps
each validator's delegator shares equal to the shares delegated to it, and shares, tokens and
weights non-negative (`StakingView.Consistent`). The walk over the votes is followed exactly: once
the voters `done` are counted, every validator has the shares those voters delegated to it
deducted (`Counted`). The votes are keyed by voter, so the walk meets each voter once. The
deductions are therefore part of the validator's delegator shares, and the subtraction of the
final loop never goes negative.

Source: `x/gov/keeper/tally.go`.
-/

namespace Initia.Gov

open Std Initia.Sdk

namespace StakingView

variable (staking : StakingView)

/-- The shares delegated to the validator `op`. -/
def delegated (op : String) : DecCoins :=
  staking.delegations.sumBy fun key shares => if key.2 = op then shares else 0

/-- The shares that the delegators `done` delegated to the validator `op`. -/
def deducted (done : List String) (op : String) : DecCoins :=
  staking.delegations.sumBy fun key shares => if key.1 ∈ done ∧ key.2 = op then shares else 0

/-- The staking state the tally reads is consistent: weights, bonded tokens and delegated shares
are non-negative, and a bonded validator's delegator shares are the shares delegated to it. -/
structure Consistent : Prop where
  weights_nonneg : ∀ denom, 0 ≤ staking.weights.amountOf denom
  bondedTokens_nonneg : ∀ v ∈ staking.bondedValidators, ∀ denom, 0 ≤ v.bondedTokens.amountOf denom
  shares_nonneg : ∀ (key : String × String) (shares : DecCoins),
    staking.delegations[key]? = some shares → ∀ denom, 0 ≤ shares.amountOf denom
  delegatorShares_eq : ∀ v ∈ staking.bondedValidators, v.delegatorShares = staking.delegated v.operator

/-- A sum of delegations, read at one denomination. -/
theorem amountOf_sumBy_ite (p : String × String → Prop) [DecidablePred p] (denom : String) :
    (staking.delegations.sumBy fun key shares => if p key then shares else 0).amountOf denom =
      staking.delegations.sumBy fun key shares => if p key then shares.amountOf denom else 0 := by
  rw [show ∀ c : DecCoins, c.amountOf denom = Amounts.amountOfHom denom c from fun _ => rfl,
    TreeMap.map_sumBy]
  congr
  funext key shares
  split_ifs <;> simp [Amounts.amountOfHom]

theorem deducted_nil (op : String) : staking.deducted [] op = 0 := by
  simp [deducted, TreeMap.sumBy]

variable {staking}

namespace Consistent

variable (h : staking.Consistent)
include h

/-- A delegation's shares are part of the shares delegated to its validator. -/
theorem le_delegated {key : String × String} {shares : DecCoins}
    (hk : staking.delegations[key]? = some shares) (denom : String) :
    shares.amountOf denom ≤ (staking.delegated key.2).amountOf denom := by
  rw [delegated, amountOf_sumBy_ite]
  have hle := TreeMap.le_sumBy
    (f := fun (k : String × String) (s : DecCoins) => if k.2 = key.2 then s.amountOf denom else 0)
    (fun k s hs => by split_ifs <;> simp [h.shares_nonneg k s hs denom]) hk
  simpa using hle

end Consistent

end StakingView

/-- The shares that some delegations take from the validator `op`. -/
def deductedBy (delegations : List ((String × String) × DecCoins)) (op : String) : DecCoins :=
  (delegations.map fun delegation => if delegation.1.2 = op then delegation.2 else 0).sum

/-- The delegations of one delegator take what it delegated. -/
theorem deductedBy_delegationsOf (staking : StakingView) (delegator op : String) :
    deductedBy (staking.delegationsOf delegator) op =
      staking.delegations.sumBy fun key shares =>
        if key.1 = delegator ∧ key.2 = op then shares else 0 := by
  unfold deductedBy StakingView.delegationsOf TreeMap.sumBy
  induction staking.delegations.toList with
  | nil => rfl
  | cons d l ih =>
    by_cases h1 : d.1.1 = delegator <;> by_cases h2 : d.1.2 = op <;>
      simp [h1, h2, ih]

/-- Counting one more delegator adds what it delegated. -/
theorem deducted_cons (staking : StakingView) {voter : String} {done : List String}
    (hu : voter ∉ done) (op : String) :
    staking.deducted (voter :: done) op =
      staking.deducted done op + deductedBy (staking.delegationsOf voter) op := by
  rw [deductedBy_delegationsOf, StakingView.deducted, StakingView.deducted, ← TreeMap.sumBy_add]
  refine congrArg staking.delegations.sumBy (funext fun key => funext fun shares => ?_)
  -- the new delegator is not among those counted before
  by_cases h1 : key.1 = voter
  · by_cases h3 : key.2 = op <;> simp [h1, h3, hu]
  · simp [h1]

/-! ### The power counted -/

/-- The power counted so far is non-negative, and none is counted for any option while it is
zero. -/
structure PowerSound (results : Results) (total : LegacyDec) : Prop where
  total_nonneg : 0 ≤ total
  results_of_zero : total = 0 → ∀ o, results o = 0

theorem PowerSound.zero : PowerSound 0 0 :=
  ⟨le_rfl, fun _ _ => rfl⟩

/-- Counting non-negative power keeps the counted power sound. -/
theorem PowerSound.add {results : Results} {total : LegacyDec} (h : PowerSound results total)
    (options : List WeightedVoteOption) {votingPower : LegacyDec} (hv : 0 ≤ votingPower) :
    PowerSound (results + votePower options votingPower) (total + votingPower) where
  total_nonneg := add_nonneg h.total_nonneg hv
  results_of_zero hz o := by
    obtain ⟨ht, hvp⟩ := (add_eq_zero_iff_of_nonneg h.total_nonneg hv).mp hz
    subst hvp
    simp [votePower, h.results_of_zero ht o]

/-- The voting power of shares is counted, and is non-negative, when weights, tokens and shares
are non-negative and the validator holds shares of every denomination counted. -/
theorem exists_sharesVotingPower {weights : DecCoins} {val : ValidatorGovInfo} {shares : DecCoins}
    (hw : ∀ denom, 0 ≤ weights.amountOf denom)
    (ht : ∀ denom, 0 ≤ val.bondedTokens.amountOf denom)
    (hs : ∀ denom, 0 ≤ shares.amountOf denom)
    (hpos : ∀ denom, shares.amountOf denom ≠ 0 → 0 < val.delegatorShares.amountOf denom) :
    ∃ votingPower, sharesVotingPower weights val shares = some votingPower ∧ 0 ≤ votingPower := by
  unfold sharesVotingPower
  refine List.exists_foldlM (fun votingPower : LegacyDec => 0 ≤ votingPower) le_rfl ?_
  intro share hshare votingPower hv
  obtain ⟨denom, amount⟩ := share
  obtain ⟨hamount, hne⟩ := Amounts.mem_toList_iff.mp hshare
  have hdiv : 0 < (val.delegatorShares.amountOf denom).raw :=
    Fixed.lt_def.mp (hpos denom (hamount ▸ hne))
  have hnum : 0 ≤ (amount.mulInt (val.bondedTokens.amountOf denom)).raw :=
    mul_nonneg (Fixed.le_def.mp (hamount ▸ hs denom)) (ht denom)
  -- the share's worth, a quotient of non-negative by positive, is non-negative
  obtain ⟨worth, hworth, hnonneg⟩ : ∃ worth, (amount.mulInt (val.bondedTokens.amountOf denom)).quo
      (val.delegatorShares.amountOf denom) = some worth ∧ 0 ≤ worth :=
    ⟨_, Fixed.quo_of_pos hdiv, Fixed.le_def.mpr (Fixed.quoRaw_nonneg hnum hdiv)⟩
  exact ⟨votingPower + worth.mul (weights.amountOf denom), by simp [hworth],
    add_nonneg hv (Fixed.mul_nonneg hnonneg (hw denom))⟩

/-! ### The validators of the tally -/

/-- A validator of the tally's map holds non-negative bonded tokens and the shares delegated to
it. -/
structure GovInfoSound (staking : StakingView) (op : String) (val : ValidatorGovInfo) : Prop where
  bondedTokens_nonneg : ∀ denom, 0 ≤ val.bondedTokens.amountOf denom
  delegatorShares_eq : val.delegatorShares = staking.delegated op

/-- Every validator of the map is sound. -/
def ValidatorsSound (staking : StakingView)
    (currValidators : TreeMap String ValidatorGovInfo compare) : Prop :=
  ∀ op val, currValidators[op]? = some val → GovInfoSound staking op val

/-- The first loop enters each bonded validator with its tokens and shares, and with no vote
and no deduction. -/
theorem bondedValidatorsGovInfo_getElem? {staking : StakingView} {op : String}
    {val : ValidatorGovInfo} (h : (bondedValidatorsGovInfo staking).1[op]? = some val) :
    ∃ v ∈ staking.bondedValidators, v.operator = op ∧
      val = ⟨v.bondedTokens, v.delegatorShares, 0, []⟩ := by
  unfold bondedValidatorsGovInfo at h
  refine List.foldlRecOn (motive := fun acc : TreeMap String ValidatorGovInfo compare × ℤ =>
      ∀ op val, acc.1[op]? = some val → ∃ v ∈ staking.bondedValidators, v.operator = op ∧
        val = ⟨v.bondedTokens, v.delegatorShares, 0, []⟩) _ _ ?_ ?_ op val h
  · intro op val h
    simp at h
  · intro acc ih v hv op val h
    rw [TreeMap.getElem?_insert] at h
    split_ifs at h with hop
    · cases h
      exact ⟨v, hv, LawfulEqCmp.compare_eq_iff_eq.mp hop, rfl⟩
    · exact ih op val h

/-! ### The walk over the votes -/

/-- The vesting keeper answers a non-negative unclaimed amount for every voter, when the params
name a vesting table. -/
def VestingSound (vesting : Option (String → Option ℤ)) : Prop :=
  ∀ unclaimedVestedAmount, vesting = some unclaimedVestedAmount →
    ∀ voter, ∃ amount, unclaimedVestedAmount voter = some amount ∧ 0 ≤ amount

/-- What the walk over the votes keeps once the voters `done` are counted: the validators are
sound and have the shares of those voters deducted, and the counted power is sound. -/
structure Counted (staking : StakingView) (done : List String) (st : TallyState) : Prop where
  validators : ValidatorsSound staking st.currValidators
  deductions : ∀ op val, st.currValidators[op]? = some val →
    val.delegatorDeductions = staking.deducted done op
  power : PowerSound st.results st.totalVotingPower

/-- Before the walk, no voter is counted. -/
theorem Counted.init {staking : StakingView} (hc : staking.Consistent) (votes : Votes) :
    Counted staking [] ⟨0, 0, 0, (bondedValidatorsGovInfo staking).1, votes⟩ where
  validators op val h := by
    obtain ⟨v, hv, rfl, rfl⟩ := bondedValidatorsGovInfo_getElem? h
    exact ⟨hc.bondedTokens_nonneg v hv, hc.delegatorShares_eq v hv⟩
  deductions op val h := by
    obtain ⟨v, -, rfl, rfl⟩ := bondedValidatorsGovInfo_getElem? h
    exact (staking.deducted_nil _).symm
  power := PowerSound.zero

namespace TallyState

theorem getElem?_recordValidatorVote (st : TallyState) (voter : String)
    (options : List WeightedVoteOption) (op : String) :
    (st.recordValidatorVote voter options).currValidators[op]? =
      st.currValidators[op]?.map fun val => if voter = op then { val with vote := options } else val := by
  unfold recordValidatorVote
  cases hv : st.currValidators[voter]? with
  | none =>
    by_cases hop : voter = op
    · subst hop
      simp [hv]
    · cases st.currValidators[op]? <;> simp [hop]
  | some val =>
    rw [TreeMap.getElem?_insert]
    by_cases hop : voter = op
    · subst hop
      simp [hv]
    · rw [if_neg (fun h => hop (LawfulEqCmp.compare_eq_iff_eq.mp h))]
      cases st.currValidators[op]? <;> simp [hop]

@[simp] theorem results_recordValidatorVote (st : TallyState) (voter : String)
    (options : List WeightedVoteOption) :
    (st.recordValidatorVote voter options).results = st.results := by
  unfold recordValidatorVote
  split <;> rfl

@[simp] theorem totalVotingPower_recordValidatorVote (st : TallyState) (voter : String)
    (options : List WeightedVoteOption) :
    (st.recordValidatorVote voter options).totalVotingPower = st.totalVotingPower := by
  unfold recordValidatorVote
  split <;> rfl

end TallyState

variable {staking : StakingView} {done : List String} {st : TallyState}

/-- Recording a validator's vote changes no deduction. -/
theorem Counted.recordValidatorVote (h : Counted staking done st) (voter : String)
    (options : List WeightedVoteOption) : Counted staking done (st.recordValidatorVote voter options) where
  validators op val' hv := by
    rw [TallyState.getElem?_recordValidatorVote] at hv
    obtain ⟨val, hval, rfl⟩ := Option.map_eq_some_iff.mp hv
    have hs := h.validators op val hval
    split_ifs
    · exact ⟨hs.bondedTokens_nonneg, hs.delegatorShares_eq⟩
    · exact hs
  deductions op val' hv := by
    rw [TallyState.getElem?_recordValidatorVote] at hv
    obtain ⟨val, hval, rfl⟩ := Option.map_eq_some_iff.mp hv
    -- the vote is the one field that changes
    split_ifs <;> exact h.deductions op val hval
  power := by simpa using h.power

/-- The vesting part of a vote is counted, and keeps what the walk keeps. -/
theorem Counted.addVestingPower (h : Counted staking done st)
    {vesting : Option (String → Option ℤ)} (hvesting : VestingSound vesting) (voter : String)
    (options : List WeightedVoteOption) :
    ∃ st', st.addVestingPower vesting voter options = some st' ∧ Counted staking done st' := by
  cases vesting with
  | none => exact ⟨st, rfl, h⟩
  | some unclaimedVestedAmount =>
    obtain ⟨amount, hamount, hnonneg⟩ := hvesting unclaimedVestedAmount rfl voter
    by_cases hzero : amount = 0
    · exact ⟨st, by simp [TallyState.addVestingPower, hamount, hzero], h⟩
    · refine ⟨{ st.addPower options (Fixed.ofInt amount) with
          totalVestingPower := st.totalVestingPower + amount },
        by simp [TallyState.addVestingPower, hamount, hzero], h.validators, h.deductions, ?_⟩
      simpa [TallyState.addPower, addVotePower_eq] using
        h.power.add options (Fixed.ofInt_le_ofInt.mpr hnonneg)

/-- One delegation of a voter returns. On a bonded validator it deducts the delegation's shares,
and on any it keeps the validators and the counted power sound. -/
theorem exists_addDelegation (hc : staking.Consistent) (options : List WeightedVoteOption)
    {d : (String × String) × DecCoins} (hd : staking.delegations[d.1]? = some d.2)
    {st : TallyState} (hv : ValidatorsSound staking st.currValidators)
    (hp : PowerSound st.results st.totalVotingPower) :
    ∃ st', st.addDelegation staking.weights options d = some st' ∧
      (∀ op, st'.currValidators[op]? = st.currValidators[op]?.map fun val : ValidatorGovInfo =>
        { val with delegatorDeductions :=
            val.delegatorDeductions + if d.1.2 = op then d.2 else 0 }) ∧
      ValidatorsSound staking st'.currValidators ∧ PowerSound st'.results st'.totalVotingPower := by
  cases hval : st.currValidators[d.1.2]? with
  | none =>
    -- a delegation to a validator outside the bonded set counts nothing
    refine ⟨st, by simp [TallyState.addDelegation, hval], fun op => ?_, hv, hp⟩
    by_cases hop : d.1.2 = op
    · subst hop
      simp [hval]
    · cases st.currValidators[op]? <;> simp [hop]
  | some val =>
    have hs := hv d.1.2 val hval
    -- the validator holds shares of each denomination delegated to it
    have hpos : ∀ denom, d.2.amountOf denom ≠ 0 → 0 < val.delegatorShares.amountOf denom :=
      fun denom hne => by
        rw [hs.delegatorShares_eq]
        exact ((hc.shares_nonneg _ _ hd denom).lt_of_ne (Ne.symm hne)).trans_le
          (hc.le_delegated hd denom)
    obtain ⟨votingPower, hpower, hnonneg⟩ := exists_sharesVotingPower hc.weights_nonneg
      hs.bondedTokens_nonneg (hc.shares_nonneg _ _ hd) hpos
    refine ⟨{ st.addPower options votingPower with
        currValidators := st.currValidators.insert d.1.2
          { val with delegatorDeductions := val.delegatorDeductions + d.2 } },
      by simp [TallyState.addDelegation, hval, hpower], fun op => ?_, fun op val' h' => ?_, ?_⟩
    · rw [TreeMap.getElem?_insert]
      by_cases hop : d.1.2 = op
      · subst hop
        simp [hval]
      · rw [if_neg (fun h => hop (LawfulEqCmp.compare_eq_iff_eq.mp h))]
        cases st.currValidators[op]? <;> simp [hop]
    · rw [TreeMap.getElem?_insert] at h'
      split_ifs at h' with hop
      · cases h'
        rw [← LawfulEqCmp.compare_eq_iff_eq.mp hop]
        exact ⟨hs.bondedTokens_nonneg, hs.delegatorShares_eq⟩
      · exact hv op val' h'
    · simpa [TallyState.addPower, addVotePower_eq] using hp.add options hnonneg

/-- The walk over a voter's delegations returns. It deducts from each validator the shares
delegated to it, and keeps the counted power sound. -/
theorem exists_foldlM_addDelegation (hc : staking.Consistent) (options : List WeightedVoteOption)
    {rest : List ((String × String) × DecCoins)}
    (hrest : ∀ d ∈ rest, staking.delegations[d.1]? = some d.2) {st : TallyState}
    (hv : ValidatorsSound staking st.currValidators)
    (hp : PowerSound st.results st.totalVotingPower) :
    ∃ st', rest.foldlM (fun st d => st.addDelegation staking.weights options d) st = some st' ∧
      (∀ op, st'.currValidators[op]? = st.currValidators[op]?.map fun val : ValidatorGovInfo =>
        { val with delegatorDeductions := val.delegatorDeductions + deductedBy rest op }) ∧
      PowerSound st'.results st'.totalVotingPower := by
  induction rest generalizing st with
  | nil => exact ⟨st, rfl, fun op => by cases st.currValidators[op]? <;> simp [deductedBy], hp⟩
  | cons d rest ih =>
    obtain ⟨st₁, hstep, hmap₁, hv₁, hp₁⟩ :=
      exists_addDelegation hc options (hrest d List.mem_cons_self) hv hp
    obtain ⟨st', hfold, hmap, hp'⟩ :=
      ih (fun d' hd' => hrest d' (List.mem_cons_of_mem d hd')) hv₁ hp₁
    refine ⟨st', by simp [hstep, hfold], fun op => ?_, hp'⟩
    -- the deductions of the first delegation and of the rest add up
    rw [hmap op, hmap₁ op]
    cases st.currValidators[op]? <;> simp [deductedBy, add_assoc]

/-- One vote is counted, and the walk keeps what it keeps, with the voter counted. -/
theorem Counted.tallyVote (hc : staking.Consistent) {vesting : Option (String → Option ℤ)}
    (hvesting : VestingSound vesting) (h : Counted staking done st) {voter : String}
    (hu : voter ∉ done) (proposalId : ℕ) (options : List WeightedVoteOption) :
    ∃ st', tallyVote staking vesting proposalId st voter options = some st' ∧
      Counted staking (voter :: done) st' := by
  obtain ⟨st₁, h₁, hc₁⟩ := (h.recordValidatorVote voter options).addVestingPower hvesting voter options
  have hrest : ∀ d ∈ staking.delegationsOf voter, staking.delegations[d.1]? = some d.2 :=
    fun d hd => TreeMap.mem_toList_iff_getElem?_eq_some.mp (List.mem_filter.mp hd).1
  obtain ⟨st₂, h₂, hmap, hp₂⟩ :=
    exists_foldlM_addDelegation hc options hrest hc₁.validators hc₁.power
  refine ⟨{ st₂ with votes := st₂.votes.erase (proposalId, voter) },
    by simp [Gov.tallyVote, h₁, h₂], fun op val h' => ?_, fun op val h' => ?_, hp₂⟩
  -- each validator after the walk is one before it, with the voter's shares deducted
  · obtain ⟨val₁, hval₁, rfl⟩ := Option.map_eq_some_iff.mp ((hmap op).symm.trans h')
    have hs := hc₁.validators op val₁ hval₁
    exact ⟨hs.bondedTokens_nonneg, hs.delegatorShares_eq⟩
  · obtain ⟨val₁, hval₁, rfl⟩ := Option.map_eq_some_iff.mp ((hmap op).symm.trans h')
    simp only [hc₁.deductions op val₁ hval₁, deducted_cons staking hu op]

end Initia.Gov
