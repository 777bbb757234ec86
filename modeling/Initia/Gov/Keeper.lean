import Mathlib
import Initia.Sdk.Coins
import Initia.Lib.OrderedMap

/-!
# Governance proposals, their queues and deposits

The gov keeper stores each proposal under its id. Beside the proposals it keeps three queues of
`(time, id)` keys, ordered by time:

* `InactiveProposalsQueue` holds proposals in the deposit period, keyed by the end of it;
* `ActiveProposalsQueue` holds proposals in the voting period, keyed by its end;
* `EmergencyProposalsQueue` holds emergency proposals, keyed by their next tally.

Two key sets, `EmergencyProposals` and `VotingPeriodProposals`, name the emergency proposals
and the proposals in the voting period. Deposits are kept by proposal and depositor.

This module models the keeper functions that move a proposal between these
(`SetProposal`, `DeleteProposal`, `ActivateVotingPeriod`, `ActivateEmergencyProposal`,
`AddDeposit`). It also models the message handlers built on them: `SubmitProposal`, `Deposit`,
`ActivateEmergencyProposal`, `Vote` and `CancelProposal`.

A request that fails returns `none`, and a transaction that fails leaves the store as it was.
A nil time that the source dereferences panics, and returns `none` too. Bank transfers are not
modelled: a deposit is what the gov store records of it. The proposal's messages and the votes
are left to the tally, which `Initia.Gov.EndBlocker` takes as given.

Source: `x/gov/keeper/proposal.go`, `x/gov/keeper/deposit.go`, `x/gov/keeper/msg_server.go`,
`x/gov/keeper/custom_msg_server.go`, `x/gov/keeper/vote.go`, `x/gov/types/proposal.go`.
-/

namespace Initia.Gov

open Std Initia.Sdk

/-- Block time in seconds; a duration is a difference of block times. -/
abbrev Time := ℤ

/-- `ProposalStatus`. -/
inductive ProposalStatus where
  | unspecified
  | depositPeriod
  | votingPeriod
  | passed
  | rejected
  | failed
  deriving DecidableEq, Repr

/-- `Params` of the gov module, with the fields the modelled functions read. The ratios are
the decimals the source parses from their strings. -/
structure Params where
  minDeposit : Coins
  maxDepositPeriod : Time
  votingPeriod : Time
  minInitialDepositRatio : LegacyDec
  expeditedVotingPeriod : Time
  expeditedMinDeposit : Coins
  minDepositRatio : LegacyDec
  emergencyMinDeposit : Coins
  emergencyTallyInterval : Time
  emergencySubmitters : List String

/-- `Params.Validate`, for the fields modelled here: the minimum deposits are non-empty and valid,
the expedited one above the regular one and the emergency one at least the expedited one; the
periods are positive, the expedited voting period and the emergency tally interval shorter than
the voting period; the initial deposit ratio lies between zero and one. -/
def Params.validate (p : Params) : Bool :=
  !p.minDeposit.isZero && Coins.isValid p.minDeposit &&
    !p.expeditedMinDeposit.isZero && Coins.isValid p.expeditedMinDeposit &&
    Coins.isAllGT p.expeditedMinDeposit p.minDeposit &&
    decide (0 < p.maxDepositPeriod) &&
    decide (0 < p.votingPeriod) && decide (0 < p.expeditedVotingPeriod) &&
    decide (p.expeditedVotingPeriod < p.votingPeriod) &&
    decide (0 ≤ p.minInitialDepositRatio) && decide (p.minInitialDepositRatio ≤ 1) &&
    !p.emergencyMinDeposit.isZero && Coins.isValid p.emergencyMinDeposit &&
    decide (0 < p.emergencyTallyInterval) &&
    decide (p.emergencyTallyInterval < p.votingPeriod) &&
    Coins.isAllGTE p.emergencyMinDeposit p.expeditedMinDeposit

/-- `DefaultParams`, in seconds, with the bond denomination `sdk.DefaultBondDenom` as a
parameter. It names no emergency submitter. -/
def Params.default (bondDenom : String) : Params where
  minDeposit := .single bondDenom 10000000
  maxDepositPeriod := 172800
  votingPeriod := 172800
  minInitialDepositRatio := 0
  expeditedVotingPeriod := 86400
  expeditedMinDeposit := .single bondDenom 50000000
  minDepositRatio := ⟨10 ^ 16⟩
  emergencyMinDeposit := .single bondDenom 100000000
  emergencyTallyInterval := 300
  emergencySubmitters := []

/-- The default parameters pass `Validate`, whatever the bond denomination. -/
theorem Params.validate_default (bondDenom : String) :
    (Params.default bondDenom).validate = true := by
  have hne : ∀ x : ℤ, x ≠ 0 → (Amounts.single bondDenom x : Coins) ≠ 0 := fun x hx h =>
    hx (by simpa using congrArg (fun c : Coins => c.amountOf bondDenom) h)
  have hzero : ∀ x : ℤ, x ≠ 0 → (Amounts.single bondDenom x : Coins).isZero = false :=
    fun x hx => Bool.eq_false_iff.mpr fun h => hne x hx (Amounts.isZero_iff.mp h)
  have h01 : (0 : LegacyDec) ≤ 1 := by decide
  simp [Params.validate, Params.default, Coins.isValid, Coins.isAllGT, Coins.isAllGTE,
    List.all_eq_true, Amounts.mem_toList_iff, Amounts.isAllLE_iff, hzero, h01]

/-- `Proposal`, with the fields the modelled functions read or write. The times the source
keeps behind pointers are options. -/
structure Proposal where
  id : ℕ
  status : ProposalStatus
  depositEndTime : Option Time
  totalDeposit : Coins
  votingStartTime : Option Time
  votingEndTime : Option Time
  proposer : String
  expedited : Bool
  failedReason : String
  emergency : Bool
  emergencyNextTallyTime : Option Time

namespace Proposal

/-- `GetMinDepositFromParams`. -/
def getMinDepositFromParams (p : Proposal) (params : Params) : Coins :=
  if p.expedited then params.expeditedMinDeposit else params.minDeposit

end Proposal

/-- The gov store: the proposals by id, the `ProposalID` sequence, the three queues, the key
sets `EmergencyProposals` and `VotingPeriodProposals`, and the deposits by proposal and
depositor. Every proposal is stored under its own id. -/
structure Store where
  proposals : TreeMap ℕ Proposal compare
  proposalID : ℕ
  inactiveProposalsQueue : TreeSet (Time × ℕ) compare
  activeProposalsQueue : TreeSet (Time × ℕ) compare
  emergencyProposalsQueue : TreeSet (Time × ℕ) compare
  emergencyProposals : TreeSet ℕ compare
  votingPeriodProposals : TreeSet ℕ compare
  deposits : TreeMap (ℕ × String) Coins compare
  proposals_id : proposals.AllBindings fun k p => p.id = k

namespace Store

/-- The store of a new chain: no proposals, and the sequence at `startingProposalId`. -/
def init (startingProposalId : ℕ) : Store where
  proposals := ∅
  proposalID := startingProposalId
  inactiveProposalsQueue := ∅
  activeProposalsQueue := ∅
  emergencyProposalsQueue := ∅
  emergencyProposals := ∅
  votingPeriodProposals := ∅
  deposits := ∅
  proposals_id := TreeMap.allBindings_emptyc

/-- A stored proposal carries the id it is stored under. -/
theorem id_of_getElem? {s : Store} {k : ℕ} {p : Proposal} (h : s.proposals[k]? = some p) :
    p.id = k :=
  s.proposals_id.of_getElem? h

/-! ### Writing and deleting proposals -/

/-- `Proposals.Set`: store a proposal under its id. -/
def putProposal (s : Store) (proposal : Proposal) : Store :=
  { s with
    proposals := s.proposals.insert proposal.id proposal
    proposals_id := s.proposals_id.insert rfl }

/-- `SetProposal`: store a proposal, listed in `VotingPeriodProposals` exactly while it is in
the voting period. -/
def setProposal (s : Store) (proposal : Proposal) : Store :=
  putProposal
    { s with
      votingPeriodProposals :=
        if proposal.status = .votingPeriod then s.votingPeriodProposals.insert proposal.id
        else s.votingPeriodProposals.erase proposal.id }
    proposal

section SetProposal

variable (s : Store) (proposal : Proposal)

@[simp] theorem getElem?_proposals_setProposal (k : ℕ) :
    (s.setProposal proposal).proposals[k]? =
      if proposal.id = k then some proposal else s.proposals[k]? := by
  simp [setProposal, putProposal, TreeMap.getElem?_insert]

@[simp] theorem mem_votingPeriodProposals_setProposal (k : ℕ) :
    k ∈ (s.setProposal proposal).votingPeriodProposals ↔
      if proposal.id = k then proposal.status = .votingPeriod
      else k ∈ s.votingPeriodProposals := by
  unfold setProposal putProposal
  split_ifs with hs <;> by_cases hk : proposal.id = k <;> simp [hs, hk]

@[simp] theorem proposalID_setProposal :
    (s.setProposal proposal).proposalID = s.proposalID := rfl
@[simp] theorem inactiveProposalsQueue_setProposal :
    (s.setProposal proposal).inactiveProposalsQueue = s.inactiveProposalsQueue := rfl
@[simp] theorem activeProposalsQueue_setProposal :
    (s.setProposal proposal).activeProposalsQueue = s.activeProposalsQueue := rfl
@[simp] theorem emergencyProposalsQueue_setProposal :
    (s.setProposal proposal).emergencyProposalsQueue = s.emergencyProposalsQueue := rfl
@[simp] theorem emergencyProposals_setProposal :
    (s.setProposal proposal).emergencyProposals = s.emergencyProposals := rfl
@[simp] theorem deposits_setProposal : (s.setProposal proposal).deposits = s.deposits := rfl

end SetProposal

/-- The inactive-queue key `DeleteProposal` removes: the one at the end of the deposit
period, if that is set. -/
def removeInactiveKey (s : Store) (proposal : Proposal) (proposalID : ℕ) : Store :=
  match proposal.depositEndTime with
  | some depositEndTime =>
    { s with
      inactiveProposalsQueue := s.inactiveProposalsQueue.erase (depositEndTime, proposalID) }
  | none => s

/-- The keys `DeleteProposal` removes for a proposal that reached the voting period: its key
on the active queue and in `VotingPeriodProposals`, and for an emergency proposal its key on
the emergency queue, read from `EmergencyNextTallyTime`, and in `EmergencyProposals`. -/
def removeVotingKeys (s : Store) (proposal : Proposal) (proposalID : ℕ) : Option Store :=
  match proposal.votingEndTime with
  | some votingEndTime =>
    let s := { s with
      activeProposalsQueue := s.activeProposalsQueue.erase (votingEndTime, proposalID)
      votingPeriodProposals := s.votingPeriodProposals.erase proposalID }
    if proposal.emergency then
      proposal.emergencyNextTallyTime.map fun nextTallyTime =>
        { s with
          emergencyProposalsQueue := s.emergencyProposalsQueue.erase (nextTallyTime, proposalID)
          emergencyProposals := s.emergencyProposals.erase proposalID }
    else some s
  | none => some s

/-- `Proposals.Remove`. -/
def eraseProposal (s : Store) (proposalID : ℕ) : Store :=
  { s with
    proposals := s.proposals.erase proposalID
    proposals_id := s.proposals_id.erase }

/-- `DeleteProposal`: take a stored proposal off every queue and key set it is on, then
remove it. -/
def deleteProposal (s : Store) (proposalID : ℕ) : Option Store := do
  let proposal ← s.proposals[proposalID]?
  let s ← (s.removeInactiveKey proposal proposalID).removeVotingKeys proposal proposalID
  pure (s.eraseProposal proposalID)

/-- `ActivateVotingPeriod`: the voting period starts now and lasts the expedited or the
regular voting period; the proposal moves from the inactive to the active queue. -/
def activateVotingPeriod (s : Store) (params : Params) (now : Time) (proposal : Proposal) :
    Option Store := do
  let votingPeriod :=
    if proposal.expedited then params.expeditedVotingPeriod else params.votingPeriod
  let endTime := now + votingPeriod
  let proposal := { proposal with
    votingStartTime := some now
    votingEndTime := some endTime
    status := .votingPeriod }
  let s := s.setProposal proposal
  let depositEndTime ← proposal.depositEndTime
  pure { s with
    inactiveProposalsQueue := s.inactiveProposalsQueue.erase (depositEndTime, proposal.id)
    activeProposalsQueue := s.activeProposalsQueue.insert (endTime, proposal.id) }

/-- `ActivateEmergencyProposal` of the keeper: the proposal becomes an emergency proposal,
first tallied one `EmergencyTallyInterval` from now. -/
def activateEmergencyProposal (s : Store) (params : Params) (now : Time)
    (proposal : Proposal) : Store :=
  let emergencyNextTallyTime := now + params.emergencyTallyInterval
  let proposal := { proposal with
    emergency := true
    emergencyNextTallyTime := some emergencyNextTallyTime }
  let s := { s with
    emergencyProposalsQueue :=
      s.emergencyProposalsQueue.insert (emergencyNextTallyTime, proposal.id)
    emergencyProposals := s.emergencyProposals.insert proposal.id }
  s.setProposal proposal

/-! ### Deposits -/

/-- `RefundAndDeleteDeposits` and `DeleteAndBurnDeposits`: the deposits on a proposal are
deleted. Whether their coins go back to the depositors or are burnt is a bank transfer. -/
def deleteDeposits (s : Store) (proposalID : ℕ) : Store :=
  { s with deposits := s.deposits.filter fun key _ => key.1 != proposalID }

section DeleteDeposits

variable (s : Store) (proposalID : ℕ)

@[simp] theorem proposals_deleteDeposits : (s.deleteDeposits proposalID).proposals = s.proposals :=
  rfl
@[simp] theorem proposalID_deleteDeposits :
    (s.deleteDeposits proposalID).proposalID = s.proposalID := rfl
@[simp] theorem inactiveProposalsQueue_deleteDeposits :
    (s.deleteDeposits proposalID).inactiveProposalsQueue = s.inactiveProposalsQueue := rfl
@[simp] theorem activeProposalsQueue_deleteDeposits :
    (s.deleteDeposits proposalID).activeProposalsQueue = s.activeProposalsQueue := rfl
@[simp] theorem emergencyProposalsQueue_deleteDeposits :
    (s.deleteDeposits proposalID).emergencyProposalsQueue = s.emergencyProposalsQueue := rfl
@[simp] theorem emergencyProposals_deleteDeposits :
    (s.deleteDeposits proposalID).emergencyProposals = s.emergencyProposals := rfl
@[simp] theorem votingPeriodProposals_deleteDeposits :
    (s.deleteDeposits proposalID).votingPeriodProposals = s.votingPeriodProposals := rfl

end DeleteDeposits

/-- A deposit of another proposal is kept, those of the proposal are gone. -/
@[simp]
theorem getElem?_deposits_deleteDeposits (s : Store) (proposalID : ℕ) (key : ℕ × String) :
    (s.deleteDeposits proposalID).deposits[key]? =
      if key.1 = proposalID then none else s.deposits[key]? := by
  simp [deleteDeposits]
  split_ifs with h
  · cases s.deposits[key]? <;> simp [h]
  · cases s.deposits[key]? <;> simp [h]

/-- The deposit record of `AddDeposit`: the depositor's deposit on the proposal grows by the
amount, or is created with it. -/
def recordDeposit (s : Store) (proposalID : ℕ) (depositor : String) (depositAmount : Coins) :
    Store :=
  { s with
    deposits := s.deposits.insert (proposalID, depositor)
      ((s.deposits[(proposalID, depositor)]?.getD 0) + depositAmount) }

/-- `validateDepositDenom`: every denomination deposited is one that `MinDeposit` lists. -/
def validateDepositDenom (params : Params) (depositAmount : Coins) : Bool :=
  depositAmount.toList.all fun coin => params.minDeposit.amountOf coin.1 != 0

/-- The `MinDepositRatio` check of `AddDeposit`: unless the ratio is zero, some denomination of
the minimum deposit is deposited at or above its minimum times the ratio, truncated. -/
def depositThresholdMet (minDepositAmount : Coins) (minDepositRatio : LegacyDec)
    (depositAmount : Coins) : Bool :=
  decide (minDepositRatio = 0) || minDepositAmount.toList.any fun minDep =>
    depositAmount.amountOf minDep.1 != 0 &&
      decide (((Fixed.ofInt minDep.2).mul minDepositRatio).truncateInt ≤
        depositAmount.amountOf minDep.1)

/-- The voting-period transition of `AddDeposit`: a proposal in the deposit period whose total
covers its minimum deposit enters the voting period and is read back from the store. Returns
whether the voting period was activated, the store and the proposal as it now stands. -/
def activateIfCovered (s : Store) (params : Params) (now : Time) (proposalID : ℕ)
    (proposal : Proposal) (minDepositAmount : Coins) : Option (Bool × Store × Proposal) :=
  if proposal.status = .depositPeriod ∧ Coins.isAllGTE proposal.totalDeposit minDepositAmount
  then do
    let s ← s.activateVotingPeriod params now proposal
    let proposal ← s.proposals[proposalID]?
    pure (true, s, proposal)
  else some (false, s, proposal)

/-- Past the deposit period there is no voting-period transition. -/
theorem activateIfCovered_of_ne {s : Store} {params : Params} {now : Time} {proposalID : ℕ}
    {proposal : Proposal} {minDepositAmount : Coins} (h : proposal.status ≠ .depositPeriod) :
    s.activateIfCovered params now proposalID proposal minDepositAmount =
      some (false, s, proposal) := by
  simp [activateIfCovered, h]

/-- The emergency transition of `AddDeposit`: a proposal in the voting period, not yet an
emergency proposal, whose total covers `EmergencyMinDeposit` becomes one when the depositor is
an emergency submitter. -/
def convertToEmergency (s : Store) (params : Params) (now : Time) (proposal : Proposal)
    (depositor : String) : Store :=
  if proposal.emergency = false ∧ proposal.status = .votingPeriod ∧
      Coins.isAllGTE proposal.totalDeposit params.emergencyMinDeposit = true ∧
      depositor ∈ params.emergencySubmitters
  then s.activateEmergencyProposal params now proposal
  else s

/-- An emergency proposal is not made one again. -/
theorem convertToEmergency_of_emergency {s : Store} {params : Params} {now : Time}
    {proposal : Proposal} {depositor : String} (h : proposal.emergency = true) :
    s.convertToEmergency params now proposal depositor = s := by
  simp [convertToEmergency, h]

/-- `AddDeposit`: a deposit on a proposal in the deposit or voting period, of accepted
denominations and, under a `MinDepositRatio`, large enough. The total grows, the proposal may
enter the voting period and then become an emergency proposal, and the deposit is recorded.
Returns whether the voting period was activated. -/
def addDeposit (s : Store) (params : Params) (now : Time) (proposalID : ℕ) (depositor : String)
    (depositAmount : Coins) : Option (Bool × Store) := do
  let proposal ← s.proposals[proposalID]?
  guard (proposal.status = .depositPeriod ∨ proposal.status = .votingPeriod)
  let minDepositAmount := proposal.getMinDepositFromParams params
  guard (validateDepositDenom params depositAmount = true)
  guard (depositThresholdMet minDepositAmount params.minDepositRatio depositAmount = true)
  let proposal := { proposal with totalDeposit := proposal.totalDeposit + depositAmount }
  let s := s.setProposal proposal
  let (activatedVotingPeriod, s, proposal) ←
    s.activateIfCovered params now proposalID proposal minDepositAmount
  let s := s.convertToEmergency params now proposal depositor
  pure (activatedVotingPeriod, s.recordDeposit proposalID depositor depositAmount)

/-- What a successful `AddDeposit` did: the checks passed, the total grew, the voting-period
transition ran, and the emergency transition and the deposit record followed. -/
theorem addDeposit_eq_some {s s' : Store} {params : Params} {now : Time} {proposalID : ℕ}
    {depositor : String} {depositAmount : Coins} {b : Bool} :
    s.addDeposit params now proposalID depositor depositAmount = some (b, s') ↔
      ∃ proposal, s.proposals[proposalID]? = some proposal ∧
        (proposal.status = .depositPeriod ∨ proposal.status = .votingPeriod) ∧
        validateDepositDenom params depositAmount = true ∧
        depositThresholdMet (proposal.getMinDepositFromParams params) params.minDepositRatio
          depositAmount = true ∧
        ∃ s₁ proposal₁,
          (s.setProposal { proposal with totalDeposit := proposal.totalDeposit + depositAmount
            }).activateIfCovered params now proposalID
            { proposal with totalDeposit := proposal.totalDeposit + depositAmount }
            (proposal.getMinDepositFromParams params) = some (b, s₁, proposal₁) ∧
          s' = (s₁.convertToEmergency params now proposal₁ depositor).recordDeposit proposalID
            depositor depositAmount := by
  simp only [addDeposit, bind, Option.bind_eq_some_iff, pure, Option.some.injEq,
    Option.guard_eq_some', exists_const, Prod.exists, Prod.mk.injEq]
  constructor
  · rintro ⟨proposal, hp, hstatus, hdenom, hthreshold, _, s₁, proposal₁, h₁, rfl, rfl⟩
    exact ⟨proposal, hp, hstatus, hdenom, hthreshold, s₁, proposal₁, h₁, rfl⟩
  · rintro ⟨proposal, hp, hstatus, hdenom, hthreshold, s₁, proposal₁, h₁, rfl⟩
    exact ⟨proposal, hp, hstatus, hdenom, hthreshold, _, s₁, proposal₁, h₁, rfl, rfl⟩

/-! ### Submitting, voting and cancelling -/

/-- `SubmitProposal` of the keeper, past the checks of the proposal's messages: a new proposal
in the deposit period under the next id of the sequence, on the inactive queue at the end of
its deposit period. Returns the store and the new id. -/
def submitProposal (s : Store) (params : Params) (now : Time) (proposer : String)
    (expedited : Bool) : Store × ℕ :=
  let proposalID := s.proposalID
  let depositEndTime := now + params.maxDepositPeriod
  let proposal : Proposal :=
    { id := proposalID
      status := .depositPeriod
      depositEndTime := some depositEndTime
      totalDeposit := 0
      votingStartTime := none
      votingEndTime := none
      proposer := proposer
      expedited := expedited
      failedReason := ""
      emergency := false
      emergencyNextTallyTime := none }
  let s := { s with proposalID := proposalID + 1 }.setProposal proposal
  ({ s with
      inactiveProposalsQueue := s.inactiveProposalsQueue.insert (depositEndTime, proposalID) },
    proposalID)

/-- `AddVote`, as far as the store modelled here goes: a vote is taken only on a proposal listed
in `VotingPeriodProposals`. The vote itself is kept for the tally. -/
def addVote (s : Store) (proposalID : ℕ) : Option Store :=
  if proposalID ∈ s.votingPeriodProposals then some s else none

theorem addVote_eq_some {s s' : Store} {proposalID : ℕ} :
    s.addVote proposalID = some s' ↔ proposalID ∈ s.votingPeriodProposals ∧ s' = s := by
  unfold addVote
  split_ifs with h <;> simp [h, eq_comm]

/-- `CancelProposal` of the keeper: the proposer of a proposal in the deposit or voting period
may cancel it until its voting period has ended. The deposits are charged the cancellation
fee and deleted, then the proposal is deleted. -/
def cancelProposal (s : Store) (now : Time) (proposalID : ℕ) (proposer : String) :
    Option Store := do
  let proposal ← s.proposals[proposalID]?
  guard (proposal.proposer ≠ "")
  guard (proposal.proposer = proposer)
  guard (proposal.status = .depositPeriod ∨ proposal.status = .votingPeriod)
  guard (proposal.votingEndTime.all fun votingEndTime => !decide (votingEndTime < now))
  -- `ChargeDeposit`: the fee and the rest are bank transfers; the deposits are deleted
  let s := s.deleteDeposits proposal.id
  s.deleteProposal proposal.id

/-- What a successful `CancelProposal` did: the checks passed, and the deposits and then the
proposal were deleted. -/
theorem cancelProposal_eq_some {s s' : Store} {now : Time} {proposalID : ℕ}
    {proposer : String} :
    s.cancelProposal now proposalID proposer = some s' ↔
      ∃ proposal, s.proposals[proposalID]? = some proposal ∧ proposal.proposer ≠ "" ∧
        proposal.proposer = proposer ∧
        (proposal.status = .depositPeriod ∨ proposal.status = .votingPeriod) ∧
        (proposal.votingEndTime.all fun votingEndTime => !decide (votingEndTime < now)) = true ∧
        (s.deleteDeposits proposal.id).deleteProposal proposal.id = some s' := by
  simp only [cancelProposal, bind, Option.bind_eq_some_iff, Option.guard_eq_some',
    exists_const]

end Store

/-! ### Message handlers -/

namespace MsgServer

/-- `validateDeposit`: a non-empty deposit of positive amounts. -/
def validateDeposit (amount : Coins) : Bool :=
  !amount.isZero && amount.toList.all fun coin => decide (0 < coin.2)

/-- `validateInitialDeposit`: a deposit with no negative amount that, under a non-zero
`MinInitialDepositRatio`, covers the minimum deposit times the ratio, rounded. As in the
source the scaled minimum keeps every denomination of the minimum, so that it is empty only
when the minimum is, and an empty deposit covers no non-empty minimum. -/
def validateInitialDeposit (params : Params) (initialDeposit : Coins) (expedited : Bool) :
    Bool :=
  let minDepositCoins := if expedited then params.expeditedMinDeposit else params.minDeposit
  let scaled := minDepositCoins.mapNonzero fun _ amount =>
    ((Fixed.ofInt amount).mul params.minInitialDepositRatio).roundInt
  !initialDeposit.isAnyNegative &&
    (decide (params.minInitialDepositRatio = 0) || minDepositCoins.isZero ||
      (!initialDeposit.isZero && scaled.isAllLE initialDeposit))

/-- `SubmitProposal`: a titled and summarised proposal whose initial deposit is valid is stored
by the keeper, and its proposer's initial deposit added. Returns the new id and the store. -/
def submitProposal (s : Store) (params : Params) (now : Time) (proposer title summary : String)
    (expedited : Bool) (initialDeposit : Coins) : Option (ℕ × Store) := do
  guard (title ≠ "")
  guard (summary ≠ "")
  guard (validateInitialDeposit params initialDeposit expedited = true)
  guard (Store.validateDepositDenom params initialDeposit = true)
  let (s, proposalID) := s.submitProposal params now proposer expedited
  let (_, s) ← s.addDeposit params now proposalID proposer initialDeposit
  pure (proposalID, s)

/-- What a successful `SubmitProposal` did: the checks passed, the keeper stored the proposal
under the next id, and the initial deposit was added. -/
theorem submitProposal_eq_some {s s' : Store} {params : Params} {now : Time}
    {proposer title summary : String} {expedited : Bool} {initialDeposit : Coins}
    {proposalID : ℕ} :
    submitProposal s params now proposer title summary expedited initialDeposit =
        some (proposalID, s') ↔
      title ≠ "" ∧ summary ≠ "" ∧
        validateInitialDeposit params initialDeposit expedited = true ∧
        Store.validateDepositDenom params initialDeposit = true ∧ proposalID = s.proposalID ∧
        ∃ b, (s.submitProposal params now proposer expedited).1.addDeposit params now
          s.proposalID proposer initialDeposit = some (b, s') := by
  simp only [submitProposal, Store.submitProposal, bind, Option.bind_eq_some_iff, pure,
    Option.some.injEq, Option.guard_eq_some', exists_const, Prod.exists, Prod.mk.injEq]
  constructor
  · rintro ⟨ht, hs, hi, hd, b, s₁, h₁, rfl, rfl⟩
    exact ⟨ht, hs, hi, hd, rfl, b, h₁⟩
  · rintro ⟨ht, hs, hi, hd, rfl, b, h₁⟩
    exact ⟨ht, hs, hi, hd, b, s', h₁, rfl, rfl⟩

/-- `Deposit`: a valid deposit is added to the proposal. -/
def deposit (s : Store) (params : Params) (now : Time) (proposalID : ℕ) (depositor : String)
    (amount : Coins) : Option Store := do
  guard (validateDeposit amount = true)
  let (_, s) ← s.addDeposit params now proposalID depositor amount
  pure s

theorem deposit_eq_some {s s' : Store} {params : Params} {now : Time} {proposalID : ℕ}
    {depositor : String} {amount : Coins} :
    deposit s params now proposalID depositor amount = some s' ↔
      validateDeposit amount = true ∧
        ∃ b, s.addDeposit params now proposalID depositor amount = some (b, s') := by
  simp only [deposit, bind, Option.bind_eq_some_iff, pure, Option.some.injEq,
    Option.guard_eq_some', exists_const, Prod.exists]
  constructor
  · rintro ⟨hv, b, s₁, h₁, rfl⟩
    exact ⟨hv, b, h₁⟩
  · rintro ⟨hv, b, h₁⟩
    exact ⟨hv, b, s', h₁, rfl⟩

/-- `ActivateEmergencyProposal`: an emergency submitter makes a proposal in the voting period
whose total covers `EmergencyMinDeposit` an emergency proposal, unless it already is one. -/
def activateEmergencyProposal (s : Store) (params : Params) (now : Time) (proposalID : ℕ)
    (sender : String) : Option Store := do
  let proposal ← s.proposals[proposalID]?
  guard (proposal.emergency = false)
  guard (proposal.status = .votingPeriod)
  guard (Coins.isAllGTE proposal.totalDeposit params.emergencyMinDeposit = true)
  guard (sender ∈ params.emergencySubmitters)
  pure (s.activateEmergencyProposal params now proposal)

/-- What a successful `ActivateEmergencyProposal` message did: the checks passed and the keeper
made the proposal an emergency proposal. -/
theorem activateEmergencyProposal_eq_some {s s' : Store} {params : Params} {now : Time}
    {proposalID : ℕ} {sender : String} :
    activateEmergencyProposal s params now proposalID sender = some s' ↔
      ∃ proposal, s.proposals[proposalID]? = some proposal ∧ proposal.emergency = false ∧
        proposal.status = .votingPeriod ∧
        Coins.isAllGTE proposal.totalDeposit params.emergencyMinDeposit = true ∧
        sender ∈ params.emergencySubmitters ∧
        s.activateEmergencyProposal params now proposal = s' := by
  simp only [activateEmergencyProposal, bind, Option.bind_eq_some_iff, pure, Option.some.injEq,
    Option.guard_eq_some', exists_const]

end MsgServer

end Initia.Gov
