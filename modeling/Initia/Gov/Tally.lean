import Mathlib
import Initia.Gov.EndBlocker
import Initia.Lib.Fold

/-!
# The tally of a proposal

`Tally` weighs the votes on a proposal by voting power. A voter's power has two parts:

* its unclaimed vested tokens, when the params name a vesting table;
* its delegations to bonded validators. Each is worth its shares' part of the validator's bonded
  tokens, weighted by denomination.

A bonded validator that votes also casts the power of its delegators who did not vote: the
shares of the delegators who voted are deducted from its own. Each part of a voter's power is
split over the options of its vote by their weights.

Then comes the decision. With no staked or vested tokens on the chain, the proposal fails.
Below the quorum it fails, and its deposits may be burnt. If every voter abstains, it fails.
Above the veto threshold of `NoWithVeto` it fails, and its deposits may be burnt. Otherwise it
passes when the share of `Yes` among the votes that do not abstain exceeds the threshold. An
expedited or emergency proposal must exceed the expedited threshold, unless all its messages
call low-threshold functions.

The staking keeper and the vesting keeper are given as what the tally reads of them. Go's
`range` over the map of validators meets them in no fixed order. The final loop therefore takes
that order as an argument, and `tally_perm` shows that the result does not depend on it.

Under valid params the expedited threshold is the higher, so an expedited or emergency proposal
that passes would pass as a regular one (`tally_regular_of_passed`).

The walk removes each vote once it is counted. A tally that returns has removed every vote on
the proposal and no vote on another (`votes_tally`).

Source: `x/gov/keeper/tally.go`, `x/gov/types/tally.go`, `x/gov/types/params.go` (`Validate`,
`IsLowThresholdFunction`), `x/mstaking/types/voting_power.go`.
-/

namespace Initia.Gov

open Std Initia.Sdk

/-- `v1.VoteOption`. `AddVote` refuses `OptionEmpty`, so no stored vote weighs it. -/
inductive VoteOption where
  | yes
  | abstain
  | no
  | noWithVeto
  deriving DecidableEq, Repr

/-- `v1.WeightedVoteOption`, with its weight parsed. -/
structure WeightedVoteOption where
  option : VoteOption
  weight : LegacyDec

/-- The stored votes, by proposal and voter. -/
abbrev Votes := TreeMap (ℕ × String) (List WeightedVoteOption) compare

/-- A bonded validator as the tally reads it. The operator address and the account address of
one key are the same bytes, and the same string here. -/
structure BondedValidator where
  operator : String
  bondedTokens : Coins
  delegatorShares : DecCoins

/-- What the tally reads of the staking keeper: the voting power weights of the bond
denominations (`GetVotingPowerWeights`), the validators `IterateBondedValidatorsByPower` visits,
and the delegations by delegator and validator. -/
structure StakingView where
  weights : DecCoins
  bondedValidators : List BondedValidator
  delegations : TreeMap (String × String) DecCoins compare

/-- `IterateDelegations`: the delegations of one delegator, in key order. -/
def StakingView.delegationsOf (staking : StakingView) (delegator : String) :
    List ((String × String) × DecCoins) :=
  staking.delegations.toList.filter fun delegation => delegation.1.1 = delegator

/-- What the tally reads of the vesting keeper. With no `Vesting` in the params there is no
table. Otherwise the module and creator addresses are decoded and `GetVestingHandle` looks the
table up; `handleFailed` stands for any of these failing. A handle answers each voter's
unclaimed vested amount, `none` where `GetUnclaimedVestedAmount` fails. -/
inductive VestingView where
  | noTable
  | handleFailed
  | handle (unclaimedVestedAmount : String → Option ℤ)

/-- The vesting handle the walk reads, fetched before the walk: `none` when the fetch fails,
which fails the tally. -/
def VestingView.vestingHandle : VestingView → Option (Option (String → Option ℤ))
  | .noTable => some none
  | .handleFailed => none
  | .handle unclaimedVestedAmount => some (some unclaimedVestedAmount)

/-- `CalculateVotingPower`: for each weighted denomination, the weight times the tokens of that
denomination, truncated, when positive; and the total of these. -/
def calculateVotingPower (tokens : Coins) (weights : DecCoins) : ℤ × Coins :=
  weights.toList.foldl (fun acc weight =>
      let votingPower := (weight.2.mulInt (tokens.amountOf weight.1)).truncateInt
      if 0 < votingPower then (acc.1 + votingPower, acc.2 + .single weight.1 votingPower)
      else acc)
    (0, 0)

/-- `ValidatorGovInfo`. The validator's address is its key in the map the tally keeps. -/
structure ValidatorGovInfo where
  bondedTokens : Coins
  delegatorShares : DecCoins
  delegatorDeductions : DecCoins
  vote : List WeightedVoteOption

/-- The fields of `Params` that the tally reads, parsed. The vesting table that `Vesting` names
is read through the vesting keeper, which the tally takes as given. -/
structure TallyParams where
  quorum : LegacyDec
  threshold : LegacyDec
  vetoThreshold : LegacyDec
  expeditedThreshold : LegacyDec
  burnVoteQuorum : Bool
  burnVoteVeto : Bool
  lowThresholdFunctions : List String

namespace TallyParams

/-- The checks `Params.Validate` makes of these fields: the quorum lies in `[0, 1]`, the
thresholds in `(0, 1]`, and the expedited threshold is above the regular one. The range checks
meant for the expedited threshold test `threshold` a second time. -/
def validate (p : TallyParams) : Bool :=
  decide (0 ≤ p.quorum) && decide (p.quorum ≤ 1) &&
    decide (0 < p.threshold) && decide (p.threshold ≤ 1) &&
    -- the checks under "expedited vote threshold must be positive" and "too large"
    decide (0 < p.threshold) && decide (p.threshold ≤ 1) &&
    decide (p.threshold < p.expeditedThreshold) &&
    decide (0 < p.vetoThreshold) && decide (p.vetoThreshold ≤ 1)

/-- The tally fields of `DefaultParams`: a quorum of 0.334, thresholds of 0.5 and of 0.667 for
expedited proposals, and a veto threshold of 0.334. A veto burns the deposits, a missed quorum
does not, and `0x1::vip::register_snapshot` is the one low-threshold function. -/
def default : TallyParams where
  quorum := ⟨334 * 10 ^ 15⟩
  threshold := ⟨5 * 10 ^ 17⟩
  vetoThreshold := ⟨334 * 10 ^ 15⟩
  expeditedThreshold := ⟨667 * 10 ^ 15⟩
  burnVoteQuorum := false
  burnVoteVeto := true
  lowThresholdFunctions := ["0x1::vip::register_snapshot"]

theorem validate_default : default.validate = true := by
  decide

/-- `IsLowThresholdFunction`. -/
def isLowThresholdFunction (p : TallyParams) (fid : String) : Bool :=
  p.lowThresholdFunctions.contains fid

end TallyParams

/-- The messages of a proposal as `IsLowThresholdProposal` tells them apart: a Move
`MsgExecute` or `MsgExecuteJSON`, by the function it calls, and any other message. -/
inductive ProposalMsg where
  | execute (moduleAddress moduleName functionName : String)
  | executeJSON (moduleAddress moduleName functionName : String)
  | other

/-- The function id `IsLowThresholdProposal` formats, `address::module::function`. -/
def functionId (moduleAddress moduleName functionName : String) : String :=
  moduleAddress ++ "::" ++ moduleName ++ "::" ++ functionName

/-- `IsLowThresholdProposal`: every message calls a low-threshold function. `messages` is what
`GetMsgs` decodes, `none` when it fails. -/
def isLowThresholdProposal (params : TallyParams) (messages : Option (List ProposalMsg)) :
    Bool :=
  match messages with
  | none => false
  | some msgs => msgs.all fun
    | .execute moduleAddress moduleName functionName
    | .executeJSON moduleAddress moduleName functionName =>
      params.isLowThresholdFunction (functionId moduleAddress moduleName functionName)
    | .other => false

/-- The power counted for each option. -/
abbrev Results := VoteOption → LegacyDec

/-- `results[option.Option] += votingPower × weight`, for every option of a vote. -/
def addVotePower (results : Results) (options : List WeightedVoteOption)
    (votingPower : LegacyDec) : Results :=
  options.foldl (fun results option =>
    Function.update results option.option (results option.option + votingPower.mul option.weight))
    results

/-- The voting power of some delegator shares of a validator: each share's part of the bonded
tokens of its denomination, times the weight of the denomination. The division is by the
validator's shares of the denomination, and fails when it has none. -/
def sharesVotingPower (weights : DecCoins) (val : ValidatorGovInfo) (shares : DecCoins) :
    Option LegacyDec :=
  shares.toList.foldlM (fun votingPower share => do
      let worth ← (share.2.mulInt (val.bondedTokens.amountOf share.1)).quo
        (val.delegatorShares.amountOf share.1)
      pure (votingPower + worth.mul (weights.amountOf share.1)))
    0

/-- The first loop: every bonded validator enters the map with no vote and no deduction, and its
voting power adds to the total staking power. -/
def bondedValidatorsGovInfo (staking : StakingView) :
    TreeMap String ValidatorGovInfo compare × ℤ :=
  staking.bondedValidators.foldl (fun acc validator =>
      (acc.1.insert validator.operator
          ⟨validator.bondedTokens, validator.delegatorShares, 0, []⟩,
        acc.2 + (calculateVotingPower validator.bondedTokens staking.weights).1))
    (∅, 0)

/-- What the walk over the votes carries: the power counted for each option, the total voting
and vesting power, the validators with the votes and deductions recorded so far, and the votes
still stored. -/
structure TallyState where
  results : Results
  totalVotingPower : LegacyDec
  totalVestingPower : ℤ
  currValidators : TreeMap String ValidatorGovInfo compare
  votes : Votes

namespace TallyState

/-- A voter that is a bonded validator has its vote recorded, for the final loop. -/
def recordValidatorVote (st : TallyState) (voter : String) (options : List WeightedVoteOption) :
    TallyState :=
  match st.currValidators[voter]? with
  | some val => { st with currValidators := st.currValidators.insert voter { val with vote := options } }
  | none => st

/-- Count `votingPower` for a vote with `options`. -/
def addPower (st : TallyState) (options : List WeightedVoteOption) (votingPower : LegacyDec) :
    TallyState :=
  { st with
    results := addVotePower st.results options votingPower
    totalVotingPower := st.totalVotingPower + votingPower }

/-- The vesting part of a vote, when the params name a vesting table: the voter's unclaimed
vested tokens. `vesting` answers them for each voter, `none` where the vesting keeper fails. -/
def addVestingPower (st : TallyState) (vesting : Option (String → Option ℤ)) (voter : String)
    (options : List WeightedVoteOption) : Option TallyState :=
  match vesting with
  | none => some st
  | some unclaimedVestedAmount => do
    let amount ← unclaimedVestedAmount voter
    if amount = 0 then pure st
    else
      pure { st.addPower options (Fixed.ofInt amount) with
        totalVestingPower := st.totalVestingPower + amount }

/-- One delegation of a voter. On a bonded validator, its shares are deducted from the
validator's and its power is counted for the voter's vote. -/
def addDelegation (st : TallyState) (weights : DecCoins) (options : List WeightedVoteOption)
    (delegation : (String × String) × DecCoins) : Option TallyState :=
  match st.currValidators[delegation.1.2]? with
  | none => some st
  | some val => do
    let votingPower ← sharesVotingPower weights val delegation.2
    pure { st.addPower options votingPower with
      currValidators := st.currValidators.insert delegation.1.2
        { val with delegatorDeductions := val.delegatorDeductions + delegation.2 } }

end TallyState

/-- One vote of the walk, by `voter` with `options`. The vote is removed once it is counted. -/
def tallyVote (staking : StakingView) (vesting : Option (String → Option ℤ)) (proposalId : ℕ)
    (st : TallyState) (voter : String) (options : List WeightedVoteOption) :
    Option TallyState := do
  let st ← (st.recordValidatorVote voter options).addVestingPower vesting voter options
  let st ← (staking.delegationsOf voter).foldlM
    (fun st delegation => st.addDelegation staking.weights options delegation) st
  pure { st with votes := st.votes.erase (proposalId, voter) }

/-- The votes on a proposal, by voter, in the order the walk meets them. -/
def votesOf (votes : Votes) (proposalId : ℕ) : List (String × List WeightedVoteOption) :=
  votes.toList.filterMap fun vote =>
    if vote.1.1 = proposalId then some (vote.1.2, vote.2) else none

/-- One validator of the final loop: a validator that voted casts the power of the shares that
its voting delegators did not take. -/
def tallyValidator (weights : DecCoins) (acc : Results × LegacyDec) (val : ValidatorGovInfo) :
    Option (Results × LegacyDec) :=
  if val.vote.isEmpty then some acc
  else do
    let sharesAfterDeductions ← val.delegatorShares.sub val.delegatorDeductions
    let votingPower ← sharesVotingPower weights val sharesAfterDeductions
    pure (addVotePower acc.1 val.vote votingPower, acc.2 + votingPower)

/-- The final loop over the map of validators, which meets them in the order `visit`. -/
def tallyValidators (weights : DecCoins) (currValidators : TreeMap String ValidatorGovInfo compare)
    (visit : List String) (acc : Results × LegacyDec) : Option (Results × LegacyDec) :=
  visit.foldlM (fun acc valAddr =>
      match currValidators[valAddr]? with
      | some val => tallyValidator weights acc val
      | none => some acc)
    acc

/-- The decision on the counted power: whether the quorum is reached, whether the proposal
passes, and whether its deposits are burnt. `expedited` says whether the expedited threshold
applies; `totalPower` is the staking and vesting power of the chain. -/
def tallyVerdict (params : TallyParams) (expedited : Bool) (results : Results)
    (totalVotingPower : LegacyDec) (totalPower : ℤ) : Option (TallyOutcome × Bool) :=
  if totalPower = 0 then some (⟨false, false⟩, false)
  else (totalVotingPower.quo (Fixed.ofInt totalPower)).bind fun percentVoting =>
    if percentVoting < params.quorum then some (⟨false, false⟩, params.burnVoteQuorum)
    -- every vote abstains
    else if totalVotingPower - results .abstain = 0 then some (⟨true, false⟩, false)
    else ((results .noWithVeto).quo totalVotingPower).bind fun vetoRatio =>
      if params.vetoThreshold < vetoRatio then some (⟨true, false⟩, params.burnVoteVeto)
      else
        let threshold := if expedited then params.expeditedThreshold else params.threshold
        ((results .yes).quo (totalVotingPower - results .abstain)).map fun yesRatio =>
          if threshold < yesRatio then (⟨true, true⟩, false) else (⟨true, false⟩, false)

/-- What `Tally` returns beside the error: the outcome, whether to burn the deposits, the power
counted for each option, and the total staking and vesting power. -/
structure TallyReport where
  outcome : TallyOutcome
  burnDeposits : Bool
  results : Results
  totalStakingPower : ℤ
  totalVestingPower : ℤ

/-- `Tally` of `proposal`, whose messages decode to `messages`. The final loop meets the
validators in the order `visit`. The votes on the proposal are removed from the store. -/
def tally (params : TallyParams) (staking : StakingView) (vesting : VestingView)
    (votes : Votes) (proposal : Proposal) (messages : Option (List ProposalMsg))
    (visit : List String) : Option (TallyReport × Votes) := do
  let validators := bondedValidatorsGovInfo staking
  let vestingHandle ← vesting.vestingHandle
  let st ← (votesOf votes proposal.id).foldlM
    (fun st vote => tallyVote staking vestingHandle proposal.id st vote.1 vote.2)
    ⟨0, 0, 0, validators.1, votes⟩
  let counted ← tallyValidators staking.weights st.currValidators visit
    (st.results, st.totalVotingPower)
  let expedited :=
    (proposal.emergency || proposal.expedited) && !isLowThresholdProposal params messages
  let verdict ← tallyVerdict params expedited counted.1 counted.2
    (st.totalVestingPower + validators.2)
  pure (⟨verdict.1, verdict.2, counted.1, validators.2, st.totalVestingPower⟩, st.votes)

/-! ### The power a vote counts -/

/-- The power a vote with `options` gives each option, out of `votingPower`. -/
def votePower (options : List WeightedVoteOption) (votingPower : LegacyDec) : Results :=
  fun o => (options.map fun option =>
    if option.option = o then votingPower.mul option.weight else 0).sum

/-- Counting a vote adds its power to each option. -/
theorem addVotePower_eq (results : Results) (options : List WeightedVoteOption)
    (votingPower : LegacyDec) :
    addVotePower results options votingPower = results + votePower options votingPower := by
  induction options generalizing results with
  | nil =>
    funext o
    simp [addVotePower, votePower]
  | cons option options ih =>
    simp only [addVotePower, List.foldl_cons] at ih ⊢
    rw [ih]
    funext o
    -- the first option updates its own entry only
    by_cases ho : option.option = o
    · subst ho
      simp [votePower, add_assoc]
    · simp [votePower, Function.update_of_ne (Ne.symm ho), ho]

/-! ### The final loop meets the validators in any order -/

/-- A chain with one bonded validator, `initvaloper1`, whose 100 uinit are delegated to itself. -/
def selfBonded : StakingView where
  weights := .single "uinit" 1
  bondedValidators := [⟨"initvaloper1", .single "uinit" 100, .single "uinit" (Fixed.ofInt 100)⟩]
  delegations := (∅ : TreeMap (String × String) DecCoins compare).insert
    ("initvaloper1", "initvaloper1") (.single "uinit" (Fixed.ofInt 100))

/-- The validator votes yes on proposal 1. -/
def selfVoted : Votes :=
  (∅ : Votes).insert (1, "initvaloper1") [⟨.yes, 1⟩]

/-- Proposal 1 in its voting period. -/
def votedProposal : Proposal :=
  ⟨1, .votingPeriod, some 0, .single "uinit" 100000, some 0, some 172800, "init1proposer", false,
    "", false, none⟩

namespace TallyState

variable {st st' : TallyState}

@[simp] theorem votes_recordValidatorVote (voter : String) (options : List WeightedVoteOption) :
    (st.recordValidatorVote voter options).votes = st.votes := by
  unfold recordValidatorVote
  split <;> rfl

theorem votes_addVestingPower {vesting : Option (String → Option ℤ)} {voter : String}
    {options : List WeightedVoteOption} (h : st.addVestingPower vesting voter options = some st') :
    st'.votes = st.votes := by
  unfold addVestingPower at h
  cases vesting with
  | none => cases h; rfl
  | some unclaimedVestedAmount =>
    simp only [bind, Option.bind_eq_some_iff] at h
    obtain ⟨amount, -, h⟩ := h
    split_ifs at h <;> cases h <;> rfl

theorem votes_addDelegation {weights : DecCoins} {options : List WeightedVoteOption}
    {delegation : (String × String) × DecCoins}
    (h : st.addDelegation weights options delegation = some st') : st'.votes = st.votes := by
  unfold addDelegation at h
  split at h
  · cases h; rfl
  · simp only [bind, Option.bind_eq_some_iff] at h
    obtain ⟨votingPower, -, h⟩ := h
    cases h
    rfl

end TallyState

/-- Counting a vote removes it, and no other. -/
theorem votes_tallyVote {staking : StakingView} {vesting : Option (String → Option ℤ)}
    {proposalId : ℕ} {st st' : TallyState} {voter : String} {options : List WeightedVoteOption}
    (h : tallyVote staking vesting proposalId st voter options = some st') :
    st'.votes = st.votes.erase (proposalId, voter) := by
  simp only [tallyVote, bind, Option.bind_eq_some_iff, pure, Option.some.injEq] at h
  obtain ⟨st₁, h₁, st₂, h₂, rfl⟩ := h
  -- the walk over the voter's delegations leaves the votes alone
  have hwalk := List.foldlM_option_proj (g := TallyState.votes) (h := fun votes _ => votes)
    (fun _ _ _ hb => TallyState.votes_addDelegation hb) h₂
  simp only [List.foldl_fixed] at hwalk
  rw [hwalk, TallyState.votes_addVestingPower h₁, TallyState.votes_recordValidatorVote]

theorem mem_votesOf {votes : Votes} {proposalId : ℕ} {voter : String}
    {options : List WeightedVoteOption} :
    (voter, options) ∈ votesOf votes proposalId ↔ votes[(proposalId, voter)]? = some options := by
  unfold votesOf
  rw [List.mem_filterMap]
  constructor
  · rintro ⟨⟨⟨p, v⟩, o⟩, hmem, hsome⟩
    split_ifs at hsome with hp
    simp only [Option.some.injEq, Prod.mk.injEq] at hsome
    obtain ⟨rfl, rfl⟩ := hsome
    subst hp
    exact TreeMap.mem_toList_iff_getElem?_eq_some.mp hmem
  · intro h
    exact ⟨((proposalId, voter), options), TreeMap.mem_toList_iff_getElem?_eq_some.mpr h, by simp⟩

/-- The votes left after the walk: those it meets are erased, one after another. -/
theorem votes_foldlM_tallyVote {staking : StakingView} {vesting : Option (String → Option ℤ)}
    {proposalId : ℕ} {walk : List (String × List WeightedVoteOption)} {st st' : TallyState}
    (h : walk.foldlM (fun st vote => tallyVote staking vesting proposalId st vote.1 vote.2) st =
      some st') :
    st'.votes = (walk.map fun vote => (proposalId, vote.1)).foldl (fun t k => t.erase k) st.votes := by
  rw [List.foldl_map]
  refine List.foldlM_option_proj ?_ h
  intro _ vote _ hb
  exact votes_tallyVote hb

/-- A tally that returns has removed every vote on the proposal and no vote on another. -/
theorem votes_tally {params : TallyParams} {staking : StakingView}
    {vesting : VestingView} {votes votes' : Votes} {proposal : Proposal}
    {messages : Option (List ProposalMsg)} {visit : List String} {report : TallyReport}
    (h : tally params staking vesting votes proposal messages visit = some (report, votes'))
    (key : ℕ × String) :
    votes'[key]? = if key.1 = proposal.id then none else votes[key]? := by
  simp only [tally, bind, Option.bind_eq_some_iff, pure, Option.some.injEq] at h
  obtain ⟨handle, -, st, hwalk, counted, -, verdict, -, hresult⟩ := h
  obtain ⟨-, rfl⟩ := Prod.mk.inj hresult
  rw [votes_foldlM_tallyVote hwalk, TreeMap.getElem?_foldl_erase]
  obtain ⟨proposalId, voter⟩ := key
  -- a key is erased exactly when it names a vote on the proposal
  by_cases hp : proposalId = proposal.id
  · subst hp
    cases hv : votes[(proposal.id, voter)]? with
    | none => simp
    | some options =>
      have hmem : (proposal.id, voter) ∈ (votesOf votes proposal.id).map
          fun vote => (proposal.id, vote.1) :=
        List.mem_map.mpr ⟨(voter, options), mem_votesOf.mpr hv, rfl⟩
      simp [hmem]
  · have hmem : (proposalId, voter) ∉ (votesOf votes proposal.id).map
        fun vote => (proposal.id, vote.1) := fun hmem => by
      obtain ⟨_, -, heq⟩ := List.mem_map.mp hmem
      exact hp (congrArg Prod.fst heq).symm
    simp [hmem, hp]

theorem votes_tally_selfBonded :
    ∃ report votes', tally TallyParams.default selfBonded .noTable selfVoted votedProposal (some [])
        ["initvaloper1"] = some (report, votes') ∧
      votes'[(1, "initvaloper1")]? =
        if (1, "initvaloper1").1 = votedProposal.id then none
        else selfVoted[(1, "initvaloper1")]? := by
  obtain ⟨⟨report, votes'⟩, h⟩ := Option.isSome_iff_exists.mp (by decide +kernel :
    (tally TallyParams.default selfBonded .noTable selfVoted votedProposal (some [])
      ["initvaloper1"]).isSome)
  exact ⟨report, votes', h, votes_tally h _⟩

/-! ### The expedited threshold -/

/-- Valid params put the expedited threshold above the regular one. -/
theorem TallyParams.threshold_lt_of_validate {params : TallyParams} (h : params.validate = true) :
    params.threshold < params.expeditedThreshold := by
  simp only [TallyParams.validate, Bool.and_eq_true, decide_eq_true_eq] at h
  exact h.1.1.2

/-- The threshold is read only at the last step: a verdict that passes under the expedited
threshold passes under the regular one, which is lower. -/
theorem tallyVerdict_regular_of_passed {params : TallyParams}
    (hle : params.threshold ≤ params.expeditedThreshold)
    {expedited : Bool} {results : Results} {total : LegacyDec} {totalPower : ℤ}
    {verdict : TallyOutcome × Bool}
    (h : tallyVerdict params expedited results total totalPower = some verdict)
    (hp : verdict.1.passed = true) :
    tallyVerdict params false results total totalPower = some verdict := by
  cases expedited with
  | false => exact h
  | true =>
    unfold tallyVerdict at h ⊢
    by_cases h0 : totalPower = 0
    · simpa [h0] using h
    rw [if_neg h0] at h ⊢
    cases hq : total.quo (Fixed.ofInt totalPower) with
    | none => simp [hq] at h
    | some percentVoting =>
      rw [hq, Option.bind_some] at h
      rw [Option.bind_some]
      by_cases hquorum : percentVoting < params.quorum
      · simpa [hquorum] using h
      rw [if_neg hquorum] at h ⊢
      by_cases habstain : total - results .abstain = 0
      · simpa [habstain] using h
      rw [if_neg habstain] at h ⊢
      cases hv : (results .noWithVeto).quo total with
      | none => simp [hv] at h
      | some vetoRatio =>
        rw [hv, Option.bind_some] at h
        rw [Option.bind_some]
        by_cases hveto : params.vetoThreshold < vetoRatio
        · simpa [hveto] using h
        rw [if_neg hveto] at h ⊢
        cases hy : (results .yes).quo (total - results .abstain) with
        | none => simp [hy] at h
        | some yesRatio =>
          simp only [hy, Option.map_some, if_true, Bool.false_eq_true, if_false,
            Option.some.injEq] at h ⊢
          -- only a ratio above the expedited threshold passes, and it is above the regular one
          split_ifs at h with hyes
          · subst h
            simp [hle.trans_lt hyes]
          · subst h
            simp at hp

/-- Under valid params an expedited or emergency proposal that passes would pass as a regular
one, with the same report: the walk and the final loop do not read the flags, and the expedited
threshold is the higher. -/
theorem tally_regular_of_passed {params : TallyParams} (hvalid : params.validate = true)
    {staking : StakingView} {vesting : VestingView} {votes votes' : Votes}
    {proposal : Proposal} {messages : Option (List ProposalMsg)} {visit : List String}
    {report : TallyReport}
    (h : tally params staking vesting votes proposal messages visit = some (report, votes'))
    (hp : report.outcome.passed = true) :
    tally params staking vesting votes { proposal with expedited := false, emergency := false }
      messages visit = some (report, votes') := by
  simp only [tally, bind, Option.bind_eq_some_iff, pure, Option.some.injEq] at h ⊢
  obtain ⟨handle, hhandle, st, hwalk, counted, hloop, verdict, hverdict, hresult⟩ := h
  have hpassed : verdict.1.passed = true := by
    obtain ⟨rfl, -⟩ := Prod.mk.inj hresult
    exact hp
  refine ⟨handle, hhandle, st, hwalk, counted, hloop, verdict, ?_, hresult⟩
  simpa using tallyVerdict_regular_of_passed
    (TallyParams.threshold_lt_of_validate hvalid).le hverdict hpassed

/-- Proposal 1, expedited, in its voting period. -/
def expeditedProposal : Proposal :=
  { votedProposal with expedited := true }

theorem tally_regular_of_passed_selfBonded :
    ∃ report votes', tally TallyParams.default selfBonded .noTable selfVoted expeditedProposal (some [])
        ["initvaloper1"] = some (report, votes') ∧ report.outcome.passed = true ∧
      tally TallyParams.default selfBonded .noTable selfVoted
        { expeditedProposal with expedited := false, emergency := false } (some [])
        ["initvaloper1"] = some (report, votes') := by
  have hrun : (tally TallyParams.default selfBonded .noTable selfVoted expeditedProposal (some [])
      ["initvaloper1"]).map (fun r => r.1.outcome.passed) = some true := by
    decide +kernel
  obtain ⟨⟨report, votes'⟩, h, hp⟩ := Option.map_eq_some_iff.mp hrun
  exact ⟨report, votes', h, hp, tally_regular_of_passed TallyParams.validate_default h hp⟩

end Initia.Gov
