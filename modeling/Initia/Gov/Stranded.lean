import Mathlib
import Initia.Gov.Frame

/-!
# An emergency proposal that is never tallied

`handleTallyResult` takes an emergency proposal off the emergency queue and out of
`EmergencyProposals`, but it leaves the proposal's `Emergency` flag set. On the path of a failed
expedited proposal the proposal stays in the voting period, back on the active queue at the end
of the regular voting period. From then on nothing ends its voting period:

* the active walk skips it, as an emergency proposal;
* the emergency walk never reaches it, since it has no key on the emergency queue;
* `ActivateEmergencyProposal` and the emergency path of `AddDeposit` refuse it, as it is
  already an emergency proposal;
* `CancelProposal` refuses it once its voting period has ended.

`Stranded id now s` is that situation at block time `now`. Every step keeps it
(`Stranded.step`), so every run does (`Stranded.run`): a stranded proposal stays in the voting
period, with its deposits locked, for ever.

A run from a new chain gets there (`expedited_emergency_proposal_stranded`). An emergency
submitter submits an expedited proposal with the emergency deposit. It enters the voting period
and becomes an emergency proposal at once. Ten seconds later the first emergency tally reaches
quorum and rejects it, and it turns into a regular proposal whose voting period ends at 1000.
The end of block at 1001 skips it, and it is stranded.

Source: `x/gov/abci.go` (`EndBlocker`, `handleTallyResult`), `x/gov/keeper/proposal.go`,
`x/gov/keeper/deposit.go` (`AddDeposit`), `x/gov/keeper/custom_msg_server.go`.
-/

namespace Initia.Gov

open Std Initia.Sdk

/-- The proposal `id` is stranded by block time `now`. It is stored in the voting period as an
emergency proposal whose voting period ended before `now`, and it has no key on the inactive
queue or the emergency queue. Its id is below the sequence, so no new proposal takes it. -/
structure Stranded (id : ℕ) (now : Time) (s : Store) : Prop where
  lt_proposalID : id < s.proposalID
  stored : ∃ proposal, s.proposals[id]? = some proposal ∧
    proposal.status = .votingPeriod ∧ proposal.emergency = true ∧
    ∃ votingEndTime, proposal.votingEndTime = some votingEndTime ∧ votingEndTime < now
  not_inactive : ∀ t, (t, id) ∉ s.inactiveProposalsQueue
  not_emergencyQueue : ∀ t, (t, id) ∉ s.emergencyProposalsQueue

/-- Every depositor with a deposit on the proposal `id` in `s` still has one in `s'`. -/
def DepositsKept (id : ℕ) (s s' : Store) : Prop :=
  ∀ d : String, (s.deposits[(id, d)]?).isSome → (s'.deposits[(id, d)]?).isSome

theorem DepositsKept.refl (id : ℕ) (s : Store) : DepositsKept id s s := fun _ h => h

theorem DepositsKept.trans {id : ℕ} {s₁ s₂ s₃ : Store} (h₁ : DepositsKept id s₁ s₂)
    (h₂ : DepositsKept id s₂ s₃) : DepositsKept id s₁ s₃ :=
  fun d h => h₂ d (h₁ d h)

theorem Untouched.depositsKept {id : ℕ} {s s' : Store} (h : Untouched id s s') :
    DepositsKept id s s' := fun d hd => by rwa [h.deposits d]

namespace Stranded

variable {id : ℕ} {now now' : Time} {s s' : Store}

theorem mono (h : Stranded id now s) (hnow : now ≤ now') : Stranded id now' s := by
  obtain ⟨proposal, hp, hstatus, he, votingEndTime, hend, hlt⟩ := h.stored
  exact ⟨h.lt_proposalID, ⟨proposal, hp, hstatus, he, votingEndTime, hend, hlt.trans_le hnow⟩,
    h.not_inactive, h.not_emergencyQueue⟩

theorem of_untouched (h : Stranded id now s) (hu : Untouched id s s') : Stranded id now s' where
  lt_proposalID := h.lt_proposalID.trans_le hu.proposalID_le
  stored := by
    rw [hu.proposal]
    exact h.stored
  not_inactive t := by
    rw [hu.inactive]
    exact h.not_inactive t
  not_emergencyQueue t := by
    rw [hu.emergencyQueue]
    exact h.not_emergencyQueue t

/-- A key on the inactive queue belongs to another proposal. -/
theorem ne_of_mem_inactive (h : Stranded id now s) {key : Time × ℕ}
    (hk : key ∈ s.inactiveProposalsQueue) : key.2 ≠ id := by
  obtain ⟨t, k⟩ := key
  rintro rfl
  exact h.not_inactive t hk

/-- A key on the emergency queue belongs to another proposal. -/
theorem ne_of_mem_emergencyQueue (h : Stranded id now s) {key : Time × ℕ}
    (hk : key ∈ s.emergencyProposalsQueue) : key.2 ≠ id := by
  obtain ⟨t, k⟩ := key
  rintro rfl
  exact h.not_emergencyQueue t hk

/-! ### The message handlers on the stranded proposal -/

/-- A deposit on the stranded proposal only adds to its total and to the depositor's deposit:
the proposal is past the deposit period, and already an emergency proposal. -/
theorem addDeposit_self (h : Stranded id now s) {params : Params} {now' : Time}
    {depositor : String} {amount : Coins} {b : Bool}
    (hs : s.addDeposit params now' id depositor amount = some (b, s')) :
    Stranded id now s' ∧ DepositsKept id s s' := by
  obtain ⟨proposal, hp, -, -, -, s₁, proposal₁, h₁, rfl⟩ := Store.addDeposit_eq_some.mp hs
  obtain ⟨stored, hstored, hstatus, he, votingEndTime, hend, hlt⟩ := h.stored
  obtain rfl : proposal = stored := Option.some.inj (hp.symm.trans hstored)
  rw [Store.activateIfCovered_of_ne (by simp [hstatus])] at h₁
  simp only [Option.some.injEq, Prod.mk.injEq] at h₁
  obtain ⟨-, rfl, rfl⟩ := h₁
  rw [Store.convertToEmergency_of_emergency
    (show ({ proposal with totalDeposit := proposal.totalDeposit + amount } : Proposal).emergency
      = true from he)]
  have hid := Store.id_of_getElem? hp
  refine ⟨⟨h.lt_proposalID, ⟨{ proposal with totalDeposit := proposal.totalDeposit + amount },
    ?_, hstatus, he, votingEndTime, hend, hlt⟩, ?_, ?_⟩, fun d hd => ?_⟩
  · simp [Store.recordDeposit, hid]
  · simpa [Store.recordDeposit] using h.not_inactive
  · simpa [Store.recordDeposit] using h.not_emergencyQueue
  · -- the depositor's deposit is written, the others are kept
    by_cases hd' : depositor = d
    · simp [Store.recordDeposit, hd']
    · simpa [Store.recordDeposit, TreeMap.getElem?_insert, hd'] using hd

/-- The message `ActivateEmergencyProposal` refuses the stranded proposal. -/
theorem msgActivateEmergencyProposal_ne (h : Stranded id now s) {params : Params}
    {now' : Time} {sender : String} :
    MsgServer.activateEmergencyProposal s params now' id sender ≠ some s' := by
  intro hs
  obtain ⟨proposal, hp, hfalse, -⟩ := MsgServer.activateEmergencyProposal_eq_some.mp hs
  obtain ⟨stored, hstored, -, he, -⟩ := h.stored
  obtain rfl : proposal = stored := Option.some.inj (hp.symm.trans hstored)
  simp [he] at hfalse

/-- `CancelProposal` refuses the stranded proposal: its voting period has ended. -/
theorem cancelProposal_ne (h : Stranded id now s) (hnow : now ≤ now') {proposer : String} :
    s.cancelProposal now' id proposer ≠ some s' := by
  intro hs
  obtain ⟨proposal, hp, -, -, -, hended, -⟩ := Store.cancelProposal_eq_some.mp hs
  obtain ⟨stored, hstored, -, -, votingEndTime, hend, hlt⟩ := h.stored
  obtain rfl : proposal = stored := Option.some.inj (hp.symm.trans hstored)
  rw [hend] at hended
  simp only [Option.all_some, Bool.not_eq_eq_eq_not, Bool.not_true, decide_eq_false_iff_not]
    at hended
  exact hended (hlt.trans_le hnow)

/-! ### The end of block -/

/-- The end of block leaves a stranded proposal untouched. The inactive and the emergency walk
visit only keys of other proposals, and the active walk skips it as an emergency proposal. -/
theorem untouched_endBlocker (h : Stranded id now s) {params : Params}
    {tally : Proposal → TallyOutcome} {execute : Proposal → Except String Unit}
    (hs : s.endBlocker params tally execute now' = some s') : Untouched id s s' := by
  simp only [Store.endBlocker, bind, Option.bind_eq_some_iff] at hs
  obtain ⟨s₁, h₁, s₂, h₂, h₃⟩ := hs
  have hu₁ : Untouched id s s₁ := Untouched.foldlM (fun _ _ hkey _ _ hb =>
    Untouched.dropInactive (h.ne_of_mem_inactive (Store.mem_dueKeys.mp hkey).1) hb) h₁
  have hs₁ := h.of_untouched hu₁
  have hu₂ : Untouched id s₁ s₂ := by
    refine Untouched.foldlM (fun b key _ hu b' hb => ?_) h₂
    by_cases hk : key.2 = id
    · -- the visit of the stranded proposal itself changes nothing
      obtain ⟨stored, hstored, -, he, -⟩ := hs₁.stored
      have hp : b.proposals[key.2]? = some stored := by rw [hk, hu.proposal, hstored]
      rw [Store.tallyActive_of_emergency hp he, Option.some.injEq] at hb
      subst hb
      exact Untouched.refl b
    · exact Untouched.tallyActive hk hb
  have hs₂ := hs₁.of_untouched hu₂
  exact hu₁.trans (hu₂.trans (Untouched.foldlM (fun _ _ hkey _ _ hb =>
    Untouched.tallyEmergency (hs₂.ne_of_mem_emergencyQueue (Store.mem_dueKeys.mp hkey).1) hb) h₃))

/-! ### Runs -/

/-- A step that leaves a stranded proposal untouched keeps it stranded and its deposits. -/
theorem keep (h : Stranded id now s) (hu : Untouched id s s') (hnow : now ≤ now') :
    Stranded id now' s' ∧ DepositsKept id s s' :=
  ⟨(h.mono hnow).of_untouched hu, hu.depositsKept⟩

/-- Every step keeps a proposal stranded, with its deposits. -/
theorem step {a b : Time × Store} (h : Stranded id a.1 a.2) (hs : Step a b) :
    Stranded id b.1 b.2 ∧ DepositsKept id a.2 b.2 := by
  cases hs with
  | submitProposal params proposer title summary expedited initialDeposit hnow hs =>
    exact h.keep (Untouched.msgSubmitProposal h.lt_proposalID.ne' hs) hnow
  | deposit params proposalID depositor amount hnow hs =>
    by_cases hk : proposalID = id
    · subst hk
      obtain ⟨-, b, hs⟩ := MsgServer.deposit_eq_some.mp hs
      exact (h.mono hnow).addDeposit_self hs
    · exact h.keep (Untouched.msgDeposit hk hs) hnow
  | activateEmergencyProposal params proposalID sender hnow hs =>
    by_cases hk : proposalID = id
    · subst hk
      exact absurd hs h.msgActivateEmergencyProposal_ne
    · exact h.keep (Untouched.msgActivateEmergencyProposal hk hs) hnow
  | vote proposalID hnow hs =>
    obtain ⟨-, rfl⟩ := Store.addVote_eq_some.mp hs
    exact h.keep (Untouched.refl _) hnow
  | cancelProposal proposalID proposer hnow hs =>
    by_cases hk : proposalID = id
    · subst hk
      exact absurd hs (h.cancelProposal_ne hnow)
    · exact h.keep (Untouched.cancelProposal hk hs) hnow
  | endBlocker params tally execute hnow hs =>
    exact h.keep (h.untouched_endBlocker hs) hnow

/-- Every run keeps a proposal stranded, with its deposits. -/
theorem run {a b : Time × Store} (h : Stranded id a.1 a.2)
    (hr : Relation.ReflTransGen Step a b) : Stranded id b.1 b.2 ∧ DepositsKept id a.2 b.2 := by
  induction hr with
  | refl => exact ⟨h, DepositsKept.refl id _⟩
  | tail _ hs ih =>
    obtain ⟨hb, hkept⟩ := ih
    obtain ⟨hc, hkept'⟩ := hb.step hs
    exact ⟨hc, hkept.trans hkept'⟩

end Stranded

/-! ### A run that strands a proposal -/

/-- The parameters of the run. The minimum deposits are 100, 200 (expedited) and 300 (emergency)
uinit, and no deposit ratio applies. The deposit period is 100 s, the voting periods 1000 s and
500 s (expedited), emergency tallies come every 10 s, and there is one emergency submitter. -/
def strandingParams : Params where
  minDeposit := .single "uinit" 100
  maxDepositPeriod := 100
  votingPeriod := 1000
  minInitialDepositRatio := 0
  expeditedVotingPeriod := 500
  expeditedMinDeposit := .single "uinit" 200
  minDepositRatio := 0
  emergencyMinDeposit := .single "uinit" 300
  emergencyTallyInterval := 10
  emergencySubmitters := ["init1council"]

/-- The scenario's params pass `Validate`: the run below is one under valid params. -/
theorem validate_strandingParams : strandingParams.validate = true := by
  decide +kernel

/-- A tally that reaches quorum and rejects. -/
def rejectingTally : Proposal → TallyOutcome := fun _ => ⟨true, false⟩

/-- Messages that all succeed. -/
def executeAll : Proposal → Except String Unit := fun _ => .ok ()

/-- The store after the submission at time 0: the emergency submitter submits an expedited
proposal with the emergency deposit of 300 uinit. -/
def strandingSubmitted : Store :=
  match MsgServer.submitProposal (Store.init 1) strandingParams 0 "init1council" "title"
      "summary" true (.single "uinit" 300) with
  | some (_, s) => s
  | none => Store.init 1

/-- The store after the end of block at time 10, whose emergency tally rejects the proposal. -/
def strandingTallied : Store :=
  (strandingSubmitted.endBlocker strandingParams rejectingTally executeAll 10).getD
    strandingSubmitted

/-- The store after the end of block at time 1001, past the proposal's new voting end. -/
def strandingSkipped : Store :=
  (strandingTallied.endBlocker strandingParams rejectingTally executeAll 1001).getD
    strandingTallied

/-- From a new chain, a submission and an end of block leave proposal 1 in the voting period as
an emergency proposal that is neither in `EmergencyProposals` nor on the emergency queue. After
one more end of block, at 1001, every run keeps it in the voting period, with the submitter's
deposit on it. -/
theorem expedited_emergency_proposal_stranded :
    strandingParams.validate = true ∧
    Relation.ReflTransGen Step (0, Store.init 1) (10, strandingTallied) ∧
      (∃ proposal, strandingTallied.proposals[1]? = some proposal ∧
        proposal.status = .votingPeriod ∧ proposal.emergency = true) ∧
      1 ∉ strandingTallied.emergencyProposals ∧
      (∀ t, (t, 1) ∉ strandingTallied.emergencyProposalsQueue) ∧
      Relation.ReflTransGen Step (10, strandingTallied) (1001, strandingSkipped) ∧
      ∀ t s, Relation.ReflTransGen Step (1001, strandingSkipped) (t, s) →
        (∃ proposal, s.proposals[1]? = some proposal ∧ proposal.status = .votingPeriod) ∧
        (s.deposits[(1, "init1council")]?).isSome := by
  have hsubmit : MsgServer.submitProposal (Store.init 1) strandingParams 0 "init1council"
      "title" "summary" true (.single "uinit" 300) = some (1, strandingSubmitted) := by rfl
  have htally : strandingSubmitted.endBlocker strandingParams rejectingTally executeAll 10 =
      some strandingTallied := by rfl
  have hskip : strandingTallied.endBlocker strandingParams rejectingTally executeAll 1001 =
      some strandingSkipped := by rfl
  have hrun₁ : Relation.ReflTransGen Step (0, Store.init 1) (10, strandingTallied) :=
    .tail (.single (Step.submitProposal _ _ _ _ _ _ (by decide) hsubmit))
      (Step.endBlocker _ _ _ (by decide) htally)
  have hrun₂ : Relation.ReflTransGen Step (10, strandingTallied) (1001, strandingSkipped) :=
    .single (Step.endBlocker _ _ _ (by decide) hskip)
  -- what the two ends of block leave of proposal 1
  have hp₁ : (strandingTallied.proposals[1]?.map fun p => (p.status, p.emergency)) =
      some (.votingPeriod, true) := by decide +kernel
  have hp₂ : (strandingSkipped.proposals[1]?.map fun p =>
      (p.status, p.emergency, p.votingEndTime)) = some (.votingPeriod, true, some 1000) := by
    decide +kernel
  have hempty₁ : strandingTallied.emergencyProposalsQueue.isEmpty = true := by decide +kernel
  have hempty₂ : strandingSkipped.emergencyProposalsQueue.isEmpty = true := by decide +kernel
  have hempty₃ : strandingSkipped.inactiveProposalsQueue.isEmpty = true := by decide +kernel
  have hdeposit : (strandingSkipped.deposits[(1, "init1council")]?).isSome = true := by
    decide +kernel
  have hstranded : Stranded 1 1001 strandingSkipped := by
    obtain ⟨proposal, hp, hfields⟩ := Option.map_eq_some_iff.mp hp₂
    simp only [Prod.mk.injEq] at hfields
    obtain ⟨hstatus, he, hend⟩ := hfields
    refine ⟨by decide +kernel, ⟨proposal, hp, hstatus, he, 1000, hend, by decide⟩, fun t => ?_,
      fun t => ?_⟩
    · exact TreeSet.isEmpty_iff_forall_not_mem.mp hempty₃ _
    · exact TreeSet.isEmpty_iff_forall_not_mem.mp hempty₂ _
  obtain ⟨proposal, hp, hfields⟩ := Option.map_eq_some_iff.mp hp₁
  simp only [Prod.mk.injEq] at hfields
  refine ⟨validate_strandingParams, hrun₁, ⟨proposal, hp, hfields⟩, by decide +kernel,
    fun t => TreeSet.isEmpty_iff_forall_not_mem.mp hempty₁ _, hrun₂, fun t s hr => ?_⟩
  obtain ⟨hs, hkept⟩ := hstranded.run hr
  obtain ⟨stored, hstored, hstatus, -⟩ := hs.stored
  exact ⟨⟨stored, hstored, hstatus⟩, hkept _ hdeposit⟩

end Initia.Gov
