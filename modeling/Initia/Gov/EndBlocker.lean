import Mathlib
import Initia.Gov.Keeper

/-!
# The gov end of block, and the runs of the gov store

At the end of every block `EndBlocker` walks the three queues. Each walk covers the keys whose
time is at most the block time.

1. The inactive walk deletes the proposals whose deposit period ended, with their deposits.
2. The active walk tallies the proposals whose voting period ended and hands the result to
   `handleTallyResult`. It skips emergency proposals.
3. The emergency walk tallies emergency proposals at their next tally time. Without quorum and
   before the end of the voting period, such a proposal is rescheduled one
   `EmergencyTallyInterval` later. Otherwise its result is handled as well.

`handleTallyResult` settles the deposits and takes the proposal off the queues. It then records
the outcome. A passed proposal runs its messages and becomes `Passed` or `Failed`. A failed
expedited proposal turns into a regular one, back on the active queue until the end of the
regular voting period. Any other proposal becomes `Rejected`.

The tally and the execution of the messages are left open: `EndBlocker` takes them as
functions, so a run may have any outcome at each of them. A walk visits the keys due when it
starts. The stores the chain iterates over are snapshots, and keys written during a walk are
not visited by it.

A run of the gov store interleaves the message handlers of `Initia.Gov.Keeper` and
`EndBlocker`, at block times that never decrease (`Step`). Each step takes its own parameters,
so a run also covers parameter changes.

Source: `x/gov/abci.go`.
-/

namespace Initia.Gov

open Std Initia.Sdk

/-- What `Tally` reports of a proposal: whether the quorum was reached and whether it passed.
Whether the deposits are burnt is left out, since they are deleted either way. -/
structure TallyOutcome where
  quorumReached : Bool
  passed : Bool

namespace Store

/-- The deposits of a tallied proposal are settled, refunded or burnt and deleted either way,
except when an expedited proposal failed: it stays open as a regular proposal. -/
def settleDeposits (s : Store) (proposal : Proposal) (passed : Bool) : Store :=
  if !proposal.expedited || passed then s.deleteDeposits proposal.id else s

/-- The first part of `handleTallyResult`. The deposits are settled and the proposal leaves the
active queue. An emergency proposal also leaves the emergency queue and `EmergencyProposals`,
and its voting end moves to its emergency tally time. -/
def dequeueTallied (s : Store) (proposal : Proposal) (passed : Bool) :
    Option (Store × Proposal) := do
  let s := s.settleDeposits proposal passed
  let votingEndTime ← proposal.votingEndTime
  let s := { s with
    activeProposalsQueue := s.activeProposalsQueue.erase (votingEndTime, proposal.id) }
  if proposal.emergency then
    proposal.emergencyNextTallyTime.map fun nextTallyTime =>
      ({ s with
          emergencyProposalsQueue := s.emergencyProposalsQueue.erase (nextTallyTime, proposal.id)
          emergencyProposals := s.emergencyProposals.erase proposal.id },
        { proposal with votingEndTime := some nextTallyTime })
  else some (s, proposal)

/-- The second part of `handleTallyResult`, the outcome. A passed proposal has its messages run
by `execute`; it becomes `Passed` when they all succeed and `Failed` with the error otherwise.
A failed expedited proposal becomes a regular one, back on the active queue at the end of the
regular voting period. Any other proposal is `Rejected`. -/
def recordTally (s : Store) (params : Params) (execute : Proposal → Except String Unit)
    (proposal : Proposal) (passed : Bool) : Option Store :=
  if passed then
    match execute proposal with
    | .ok () => some (s.setProposal { proposal with status := .passed })
    | .error err => some (s.setProposal { proposal with status := .failed, failedReason := err })
  else if proposal.expedited then
    proposal.votingStartTime.map fun votingStartTime =>
      let endTime := votingStartTime + params.votingPeriod
      let s := { s with
        activeProposalsQueue := s.activeProposalsQueue.insert (endTime, proposal.id) }
      s.setProposal { proposal with expedited := false, votingEndTime := some endTime }
  else
    some (s.setProposal { proposal with
      status := .rejected
      failedReason := "proposal did not get enough votes to pass" })

/-- `handleTallyResult`. -/
def handleTallyResult (s : Store) (params : Params) (execute : Proposal → Except String Unit)
    (proposal : Proposal) (passed : Bool) : Option Store := do
  let (s, proposal) ← s.dequeueTallied proposal passed
  s.recordTally params execute proposal passed

/-- One key of the inactive walk: the proposal, whose deposit period ended, is deleted with its
deposits. -/
def dropInactive (s : Store) (key : Time × ℕ) : Option Store := do
  let proposal ← s.proposals[key.2]?
  let s ← s.deleteProposal proposal.id
  -- refunded, or burnt under `BurnProposalDepositPrevote`: the deposits are deleted either way
  pure (s.deleteDeposits proposal.id)

/-- One key of the active walk: the proposal, whose voting period ended, is tallied and its
result handled, unless it is an emergency proposal. -/
def tallyActive (s : Store) (params : Params) (tally : Proposal → TallyOutcome)
    (execute : Proposal → Except String Unit) (key : Time × ℕ) : Option Store := do
  let proposal ← s.proposals[key.2]?
  -- emergency proposals are handled separately
  if proposal.emergency then pure s
  else s.handleTallyResult params execute proposal (tally proposal).passed

/-- The active walk leaves an emergency proposal as it is. -/
theorem tallyActive_of_emergency {s : Store} {params : Params} {tally : Proposal → TallyOutcome}
    {execute : Proposal → Except String Unit} {key : Time × ℕ} {proposal : Proposal}
    (hp : s.proposals[key.2]? = some proposal) (he : proposal.emergency = true) :
    s.tallyActive params tally execute key = some s := by
  simp [tallyActive, hp, he]

/-- The rescheduling branch of the emergency walk: the next tally is one
`EmergencyTallyInterval` from now, or the end of the voting period if that comes first. The
new key is written before the visited one is removed. -/
def rescheduleEmergency (s : Store) (params : Params) (now : Time) (proposal : Proposal)
    (votingEndTime : Time) (key : Time × ℕ) : Store :=
  let nextTallyTime :=
    if votingEndTime < now + params.emergencyTallyInterval then votingEndTime
    else now + params.emergencyTallyInterval
  let s := { s with
    emergencyProposalsQueue :=
      (s.emergencyProposalsQueue.insert (nextTallyTime, proposal.id)).erase key }
  s.putProposal { proposal with emergencyNextTallyTime := some nextTallyTime }

/-- One key of the emergency walk: the proposal is tallied; without quorum and before the end
of its voting period it is rescheduled, otherwise its result is handled. The end of the voting
period is dereferenced on either branch, so a nil one panics. -/
def tallyEmergency (s : Store) (params : Params) (tally : Proposal → TallyOutcome)
    (execute : Proposal → Except String Unit) (now : Time) (key : Time × ℕ) :
    Option Store := do
  let proposal ← s.proposals[key.2]?
  let outcome := tally proposal
  let votingEndTime ← proposal.votingEndTime
  if !outcome.quorumReached && decide (now < votingEndTime) then
    pure (s.rescheduleEmergency params now proposal votingEndTime key)
  else s.handleTallyResult params execute proposal outcome.passed

/-- The keys of a queue that are due at block time `now`, in key order:
`NewPrefixUntilPairRange(now)` covers every key whose time is at most `now`. -/
def dueKeys (queue : TreeSet (Time × ℕ) compare) (now : Time) : List (Time × ℕ) :=
  queue.toList.filter fun key => decide (key.1 ≤ now)

theorem mem_dueKeys {queue : TreeSet (Time × ℕ) compare} {now : Time} {key : Time × ℕ} :
    key ∈ dueKeys queue now ↔ key ∈ queue ∧ key.1 ≤ now := by
  simp [dueKeys]

/-- `EndBlocker`: the inactive, the active and the emergency walk, in this order. -/
def endBlocker (s : Store) (params : Params) (tally : Proposal → TallyOutcome)
    (execute : Proposal → Except String Unit) (now : Time) : Option Store := do
  let s ← (dueKeys s.inactiveProposalsQueue now).foldlM dropInactive s
  let s ← (dueKeys s.activeProposalsQueue now).foldlM
    (fun s key => s.tallyActive params tally execute key) s
  (dueKeys s.emergencyProposalsQueue now).foldlM
    (fun s key => s.tallyEmergency params tally execute now key) s

end Store

/-- One step of a run of the gov store, from the block time and store before it to those after
it: a message handler that succeeds, or the end of a block. Block times never decrease. -/
inductive Step : Time × Store → Time × Store → Prop
  | submitProposal {t now : Time} {s s' : Store} {proposalID : ℕ} (params : Params)
      (proposer title summary : String) (expedited : Bool) (initialDeposit : Coins)
      (hnow : t ≤ now)
      (h : MsgServer.submitProposal s params now proposer title summary expedited
        initialDeposit = some (proposalID, s')) :
      Step (t, s) (now, s')
  | deposit {t now : Time} {s s' : Store} (params : Params) (proposalID : ℕ)
      (depositor : String) (amount : Coins) (hnow : t ≤ now)
      (h : MsgServer.deposit s params now proposalID depositor amount = some s') :
      Step (t, s) (now, s')
  | activateEmergencyProposal {t now : Time} {s s' : Store} (params : Params)
      (proposalID : ℕ) (sender : String) (hnow : t ≤ now)
      (h : MsgServer.activateEmergencyProposal s params now proposalID sender = some s') :
      Step (t, s) (now, s')
  | vote {t now : Time} {s s' : Store} (proposalID : ℕ) (hnow : t ≤ now)
      (h : s.addVote proposalID = some s') :
      Step (t, s) (now, s')
  | cancelProposal {t now : Time} {s s' : Store} (proposalID : ℕ) (proposer : String)
      (hnow : t ≤ now) (h : s.cancelProposal now proposalID proposer = some s') :
      Step (t, s) (now, s')
  | endBlocker {t now : Time} {s s' : Store} (params : Params)
      (tally : Proposal → TallyOutcome) (execute : Proposal → Except String Unit)
      (hnow : t ≤ now) (h : s.endBlocker params tally execute now = some s') :
      Step (t, s) (now, s')

end Initia.Gov
