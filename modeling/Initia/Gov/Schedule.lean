import Mathlib
import Initia.Gov.Frame

/-!
# The queues kept in step with the proposals

The gov store keeps the schedule of each proposal twice: in its record, as a status and times,
and in the keys of the three queues and the two key sets. `Scheduling s` says that the two agree
at every id.

* A proposal in the deposit period has one key, on the inactive queue at the end of its
  deposit period.
* A proposal in the voting period has one key on the active queue, at the end of its voting
  period, and is listed in `VotingPeriodProposals`. It has a key on the emergency queue, at its
  next tally time, exactly when it is listed in `EmergencyProposals`, and then it is an
  emergency proposal.
* A proposal that is over, or deleted, has no key and no deposit left.
* No proposal is stored at or above the id sequence.

An emergency proposal need not be listed: a failed expedited emergency proposal keeps its flag
and leaves both emergency lists (`Initia.Gov.Stranded`).

Each keeper function works on one proposal and leaves the others untouched
(`Initia.Gov.Frame`). Its effect on its own proposal is proved here, one lemma per function. The
walks of the end of block visit keys of distinct proposals, so `List.exists_foldlM_of_owners`
carries the invariant through them.

Every step whose parameters pass `Validate` keeps `Scheduling`, so it holds along every such run
from a new chain (`scheduling_of_validRun`). The parameters matter at one place. The emergency
walk writes a proposal's next key before it removes the visited one, and only a positive
`EmergencyTallyInterval` keeps the two apart.

Two facts about the end of block follow. It never fails on a scheduled store
(`endBlocker_isSome`). After it, nothing that was due is left behind (`endBlocker_settles`).
The exceptions are emergency proposals that no emergency list names, and expedited proposals
that have just turned regular.

Source: `x/gov/abci.go`, `x/gov/keeper/proposal.go`, `x/gov/keeper/deposit.go`,
`x/gov/keeper/msg_server.go`, `x/gov/keeper/custom_msg_server.go`, `x/gov/types/params.go`.
-/

namespace Initia.Gov

open Std Initia.Sdk

/-! ### The fields of the keeper's writes -/

namespace Store

section PutProposal

variable (s : Store) (proposal : Proposal)

@[simp] theorem getElem?_proposals_putProposal (k : ℕ) :
    (s.putProposal proposal).proposals[k]? =
      if proposal.id = k then some proposal else s.proposals[k]? := by
  simp [putProposal, TreeMap.getElem?_insert]

@[simp] theorem proposalID_putProposal :
    (s.putProposal proposal).proposalID = s.proposalID := rfl
@[simp] theorem inactiveProposalsQueue_putProposal :
    (s.putProposal proposal).inactiveProposalsQueue = s.inactiveProposalsQueue := rfl
@[simp] theorem activeProposalsQueue_putProposal :
    (s.putProposal proposal).activeProposalsQueue = s.activeProposalsQueue := rfl
@[simp] theorem emergencyProposalsQueue_putProposal :
    (s.putProposal proposal).emergencyProposalsQueue = s.emergencyProposalsQueue := rfl
@[simp] theorem emergencyProposals_putProposal :
    (s.putProposal proposal).emergencyProposals = s.emergencyProposals := rfl
@[simp] theorem votingPeriodProposals_putProposal :
    (s.putProposal proposal).votingPeriodProposals = s.votingPeriodProposals := rfl

end PutProposal

section RecordDeposit

variable (s : Store) (proposalID : ℕ) (depositor : String) (amount : Coins)

@[simp] theorem proposals_recordDeposit :
    (s.recordDeposit proposalID depositor amount).proposals = s.proposals := rfl
@[simp] theorem proposalID_recordDeposit :
    (s.recordDeposit proposalID depositor amount).proposalID = s.proposalID := rfl
@[simp] theorem inactiveProposalsQueue_recordDeposit :
    (s.recordDeposit proposalID depositor amount).inactiveProposalsQueue =
      s.inactiveProposalsQueue := rfl
@[simp] theorem activeProposalsQueue_recordDeposit :
    (s.recordDeposit proposalID depositor amount).activeProposalsQueue =
      s.activeProposalsQueue := rfl
@[simp] theorem emergencyProposalsQueue_recordDeposit :
    (s.recordDeposit proposalID depositor amount).emergencyProposalsQueue =
      s.emergencyProposalsQueue := rfl
@[simp] theorem emergencyProposals_recordDeposit :
    (s.recordDeposit proposalID depositor amount).emergencyProposals =
      s.emergencyProposals := rfl
@[simp] theorem votingPeriodProposals_recordDeposit :
    (s.recordDeposit proposalID depositor amount).votingPeriodProposals =
      s.votingPeriodProposals := rfl

end RecordDeposit

section SettleDeposits

variable (s : Store) (proposal : Proposal) (passed : Bool)

/-- Settling the deposits writes nothing but deposits. -/
theorem settleDeposits_eq :
    s.settleDeposits proposal passed =
      { s with deposits := (if !proposal.expedited || passed then
          s.deleteDeposits proposal.id else s).deposits } := by
  unfold settleDeposits
  split_ifs <;> rfl

@[simp] theorem proposals_settleDeposits :
    (s.settleDeposits proposal passed).proposals = s.proposals := by
  rw [settleDeposits_eq]
@[simp] theorem proposalID_settleDeposits :
    (s.settleDeposits proposal passed).proposalID = s.proposalID := by
  rw [settleDeposits_eq]
@[simp] theorem inactiveProposalsQueue_settleDeposits :
    (s.settleDeposits proposal passed).inactiveProposalsQueue = s.inactiveProposalsQueue := by
  rw [settleDeposits_eq]
@[simp] theorem activeProposalsQueue_settleDeposits :
    (s.settleDeposits proposal passed).activeProposalsQueue = s.activeProposalsQueue := by
  rw [settleDeposits_eq]
@[simp] theorem emergencyProposalsQueue_settleDeposits :
    (s.settleDeposits proposal passed).emergencyProposalsQueue = s.emergencyProposalsQueue := by
  rw [settleDeposits_eq]
@[simp] theorem emergencyProposals_settleDeposits :
    (s.settleDeposits proposal passed).emergencyProposals = s.emergencyProposals := by
  rw [settleDeposits_eq]

/-- The deposits of a proposal that passed, or that was not expedited, are gone. -/
theorem deposits_settleDeposits (h : (!proposal.expedited || passed) = true) (d : String) :
    (s.settleDeposits proposal passed).deposits[(proposal.id, d)]? = none := by
  simp [settleDeposits, h]

end SettleDeposits

section RemoveKeys

variable (s : Store) (proposal : Proposal) (proposalID : ℕ)

@[simp] theorem activeProposalsQueue_removeInactiveKey :
    (s.removeInactiveKey proposal proposalID).activeProposalsQueue = s.activeProposalsQueue := by
  unfold removeInactiveKey
  split <;> rfl
@[simp] theorem emergencyProposalsQueue_removeInactiveKey :
    (s.removeInactiveKey proposal proposalID).emergencyProposalsQueue =
      s.emergencyProposalsQueue := by
  unfold removeInactiveKey
  split <;> rfl
@[simp] theorem emergencyProposals_removeInactiveKey :
    (s.removeInactiveKey proposal proposalID).emergencyProposals = s.emergencyProposals := by
  unfold removeInactiveKey
  split <;> rfl
@[simp] theorem votingPeriodProposals_removeInactiveKey :
    (s.removeInactiveKey proposal proposalID).votingPeriodProposals =
      s.votingPeriodProposals := by
  unfold removeInactiveKey
  split <;> rfl
@[simp] theorem deposits_removeInactiveKey :
    (s.removeInactiveKey proposal proposalID).deposits = s.deposits := by
  unfold removeInactiveKey
  split <;> rfl

/-- `DeleteProposal` only removes inactive keys. -/
theorem mem_of_mem_removeInactiveKey {key : Time × ℕ}
    (h : key ∈ (s.removeInactiveKey proposal proposalID).inactiveProposalsQueue) :
    key ∈ s.inactiveProposalsQueue := by
  unfold removeInactiveKey at h
  split at h
  · exact (TreeSet.mem_erase.mp h).2
  · exact h

variable {s proposal proposalID} in
/-- Removing the voting keys leaves the deposits. -/
theorem deposits_removeVotingKeys {s' : Store}
    (h : s.removeVotingKeys proposal proposalID = some s') : s'.deposits = s.deposits := by
  unfold removeVotingKeys at h
  split at h
  · split_ifs at h
    · obtain ⟨nextTallyTime, -, rfl⟩ := Option.map_eq_some_iff.mp h
      rfl
    · cases h
      rfl
  · cases h
    rfl

end RemoveKeys

end Store

/-! ### Where the keys of a proposal stand -/

/-- The id has no key on the three queues and is not listed in `EmergencyProposals`. -/
structure OffQueues (id : ℕ) (s : Store) : Prop where
  not_inactive : ∀ t, (t, id) ∉ s.inactiveProposalsQueue
  not_active : ∀ t, (t, id) ∉ s.activeProposalsQueue
  not_emergencyQueue : ∀ t, (t, id) ∉ s.emergencyProposalsQueue
  not_emergency : id ∉ s.emergencyProposals

/-- The id has no key on the queues and no entry in the key sets. -/
structure Unlisted (id : ℕ) (s : Store) : Prop extends OffQueues id s where
  not_votingPeriod : id ∉ s.votingPeriodProposals

/-- A proposal that is over: unlisted, and with no deposit left on it. -/
structure Closed (id : ℕ) (s : Store) : Prop extends Unlisted id s where
  no_deposits : ∀ d : String, s.deposits[(id, d)]? = none

/-- A proposal in the deposit period. Its only key is on the inactive queue, at the end of the
deposit period; it has no voting period yet and is no emergency proposal. -/
structure DepositScheduled (s : Store) (p : Proposal) : Prop where
  inactive : ∀ t, (t, p.id) ∈ s.inactiveProposalsQueue ↔ p.depositEndTime = some t
  depositEndTime_isSome : p.depositEndTime.isSome
  votingEndTime_eq_none : p.votingEndTime = none
  emergency_eq_false : p.emergency = false
  not_active : ∀ t, (t, p.id) ∉ s.activeProposalsQueue
  not_emergencyQueue : ∀ t, (t, p.id) ∉ s.emergencyProposalsQueue
  not_emergency : p.id ∉ s.emergencyProposals
  not_votingPeriod : p.id ∉ s.votingPeriodProposals

/-- A proposal in the voting period. Its key on the active queue is at the end of the voting
period, and it is listed in `VotingPeriodProposals`. It is on the emergency queue, at its next
tally time, exactly when `EmergencyProposals` lists it, and then it is an emergency proposal. An
emergency proposal has a next tally time. -/
structure VotingScheduled (s : Store) (p : Proposal) : Prop where
  not_inactive : ∀ t, (t, p.id) ∉ s.inactiveProposalsQueue
  votingStartTime_isSome : p.votingStartTime.isSome
  votingEndTime_isSome : p.votingEndTime.isSome
  active : ∀ t, (t, p.id) ∈ s.activeProposalsQueue ↔ p.votingEndTime = some t
  emergencyQueue : ∀ t, (t, p.id) ∈ s.emergencyProposalsQueue ↔
    p.id ∈ s.emergencyProposals ∧ p.emergencyNextTallyTime = some t
  emergency_of_mem : p.id ∈ s.emergencyProposals → p.emergency = true
  nextTallyTime_isSome : p.emergency = true → p.emergencyNextTallyTime.isSome
  votingPeriod : p.id ∈ s.votingPeriodProposals

/-- Where the keys of a stored proposal stand, by its status. No proposal is stored with an
unspecified status. -/
def Scheduled (s : Store) (p : Proposal) : Prop :=
  match p.status with
  | .unspecified => False
  | .depositPeriod => DepositScheduled s p
  | .votingPeriod => VotingScheduled s p
  | .passed | .rejected | .failed => Closed p.id s

/-- The invariant at one id. No proposal is stored at or above the sequence, a stored proposal
is scheduled as its status says, and an id with no proposal is closed. -/
structure Slot (id : ℕ) (s : Store) : Prop where
  fresh : s.proposalID ≤ id → s.proposals[id]? = none
  stored : ∀ p, s.proposals[id]? = some p → Scheduled s p
  absent : s.proposals[id]? = none → Closed id s

/-- The queues and key sets agree with the records at every id. -/
def Scheduling (s : Store) : Prop := ∀ id, Slot id s

section Scheduled

variable {s : Store} {p : Proposal}

theorem scheduled_iff_of_depositPeriod (h : p.status = .depositPeriod) :
    Scheduled s p ↔ DepositScheduled s p := by
  simp [Scheduled, h]

theorem scheduled_iff_of_votingPeriod (h : p.status = .votingPeriod) :
    Scheduled s p ↔ VotingScheduled s p := by
  simp [Scheduled, h]

theorem scheduled_iff_of_over (h : p.status = .passed ∨ p.status = .rejected ∨
    p.status = .failed) : Scheduled s p ↔ Closed p.id s := by
  rcases h with h | h | h <;> simp [Scheduled, h]

/-- What `Scheduled` can say of a proposal, by its status. -/
theorem Scheduled.cases (h : Scheduled s p) :
    (p.status = .depositPeriod ∧ DepositScheduled s p) ∨
      (p.status = .votingPeriod ∧ VotingScheduled s p) ∨
      ((p.status = .passed ∨ p.status = .rejected ∨ p.status = .failed) ∧ Closed p.id s) := by
  unfold Scheduled at h
  split at h <;> simp_all

end Scheduled

/-! ### What the invariant says of the queues -/

namespace Slot

variable {k : ℕ} {t : Time} {s : Store} {p : Proposal}

theorem of_stored (hlt : k < s.proposalID) (hp : s.proposals[k]? = some p)
    (h : Scheduled s p) : Slot k s where
  fresh hle := absurd (hlt.trans_le hle) (lt_irrefl k)
  stored p' hp' := by
    obtain rfl : p = p' := Option.some.inj (hp.symm.trans hp')
    exact h
  absent hnone := by simp [hp] at hnone

theorem of_closed (hp : s.proposals[k]? = none) (h : Closed k s) : Slot k s :=
  ⟨fun _ => hp, fun p' hp' => by simp [hp] at hp', fun _ => h⟩

theorem lt_of_getElem? (h : Slot k s) (hp : s.proposals[k]? = some p) : k < s.proposalID := by
  by_contra hle
  simp [h.fresh (Nat.not_lt.mp hle)] at hp

/-- A key on the inactive queue names a stored proposal in the deposit period. -/
theorem of_mem_inactive (h : Slot k s) (hk : (t, k) ∈ s.inactiveProposalsQueue) :
    ∃ p, s.proposals[k]? = some p ∧ p.status = .depositPeriod ∧ DepositScheduled s p := by
  cases hp : s.proposals[k]? with
  | none => exact absurd hk ((h.absent hp).not_inactive t)
  | some p =>
    obtain rfl := Store.id_of_getElem? hp
    rcases (h.stored p hp).cases with ⟨hst, hd⟩ | ⟨-, hv⟩ | ⟨-, hc⟩
    · exact ⟨p, rfl, hst, hd⟩
    · exact absurd hk (hv.not_inactive t)
    · exact absurd hk (hc.not_inactive t)

/-- A key on the active queue names a stored proposal in the voting period. -/
theorem of_mem_active (h : Slot k s) (hk : (t, k) ∈ s.activeProposalsQueue) :
    ∃ p, s.proposals[k]? = some p ∧ p.status = .votingPeriod ∧ VotingScheduled s p := by
  cases hp : s.proposals[k]? with
  | none => exact absurd hk ((h.absent hp).not_active t)
  | some p =>
    obtain rfl := Store.id_of_getElem? hp
    rcases (h.stored p hp).cases with ⟨-, hd⟩ | ⟨hst, hv⟩ | ⟨-, hc⟩
    · exact absurd hk (hd.not_active t)
    · exact ⟨p, rfl, hst, hv⟩
    · exact absurd hk (hc.not_active t)

/-- A key on the emergency queue names a stored proposal in the voting period. -/
theorem of_mem_emergencyQueue (h : Slot k s) (hk : (t, k) ∈ s.emergencyProposalsQueue) :
    ∃ p, s.proposals[k]? = some p ∧ p.status = .votingPeriod ∧ VotingScheduled s p := by
  cases hp : s.proposals[k]? with
  | none => exact absurd hk ((h.absent hp).not_emergencyQueue t)
  | some p =>
    obtain rfl := Store.id_of_getElem? hp
    rcases (h.stored p hp).cases with ⟨-, hd⟩ | ⟨hst, hv⟩ | ⟨-, hc⟩
    · exact absurd hk (hd.not_emergencyQueue t)
    · exact ⟨p, rfl, hst, hv⟩
    · exact absurd hk (hc.not_emergencyQueue t)

end Slot

/-! ### Carried over an untouched id -/

/-- `s'` holds the same keys for `id` as `s`. -/
structure SameKeys (id : ℕ) (s s' : Store) : Prop where
  inactive : ∀ t, (t, id) ∈ s'.inactiveProposalsQueue ↔ (t, id) ∈ s.inactiveProposalsQueue
  active : ∀ t, (t, id) ∈ s'.activeProposalsQueue ↔ (t, id) ∈ s.activeProposalsQueue
  emergencyQueue :
    ∀ t, (t, id) ∈ s'.emergencyProposalsQueue ↔ (t, id) ∈ s.emergencyProposalsQueue
  emergency : id ∈ s'.emergencyProposals ↔ id ∈ s.emergencyProposals
  votingPeriod : id ∈ s'.votingPeriodProposals ↔ id ∈ s.votingPeriodProposals

theorem Untouched.sameKeys {id : ℕ} {s s' : Store} (h : Untouched id s s') : SameKeys id s s' :=
  ⟨h.inactive, h.active, h.emergencyQueue, h.emergency, h.votingPeriod⟩

section SameKeys

variable {id : ℕ} {s s' : Store} {p : Proposal}

theorem Unlisted.of_sameKeys (h : Unlisted id s) (hk : SameKeys id s s') : Unlisted id s' where
  not_inactive t := by simpa [hk.inactive] using h.not_inactive t
  not_active t := by simpa [hk.active] using h.not_active t
  not_emergencyQueue t := by simpa [hk.emergencyQueue] using h.not_emergencyQueue t
  not_emergency := by simpa [hk.emergency] using h.not_emergency
  not_votingPeriod := by simpa [hk.votingPeriod] using h.not_votingPeriod

theorem DepositScheduled.of_sameKeys (h : DepositScheduled s p) (hk : SameKeys p.id s s') :
    DepositScheduled s' p :=
  { h with
    inactive := fun t => (hk.inactive t).trans (h.inactive t)
    not_active := fun t => by simpa [hk.active] using h.not_active t
    not_emergencyQueue := fun t => by simpa [hk.emergencyQueue] using h.not_emergencyQueue t
    not_emergency := by simpa [hk.emergency] using h.not_emergency
    not_votingPeriod := by simpa [hk.votingPeriod] using h.not_votingPeriod }

theorem VotingScheduled.of_sameKeys (h : VotingScheduled s p) (hk : SameKeys p.id s s') :
    VotingScheduled s' p :=
  { h with
    not_inactive := fun t => by simpa [hk.inactive] using h.not_inactive t
    active := fun t => (hk.active t).trans (h.active t)
    emergencyQueue := fun t => by rw [hk.emergencyQueue, hk.emergency]; exact h.emergencyQueue t
    emergency_of_mem := fun hm => h.emergency_of_mem (hk.emergency.mp hm)
    votingPeriod := hk.votingPeriod.mpr h.votingPeriod }

/-- Keys kept, the schedule of an open proposal is kept. -/
theorem Scheduled.of_sameKeys (h : Scheduled s p) (hk : SameKeys p.id s s')
    (hopen : p.status = .depositPeriod ∨ p.status = .votingPeriod) : Scheduled s' p := by
  rcases hopen with hst | hst
  · rw [scheduled_iff_of_depositPeriod hst] at h ⊢
    exact h.of_sameKeys hk
  · rw [scheduled_iff_of_votingPeriod hst] at h ⊢
    exact h.of_sameKeys hk

theorem Closed.of_untouched (h : Closed id s) (hu : Untouched id s s') : Closed id s' :=
  { h.toUnlisted.of_sameKeys hu.sameKeys with
    no_deposits := fun d => (hu.deposits d).trans (h.no_deposits d) }

theorem Scheduled.of_untouched (h : Scheduled s p) (hu : Untouched p.id s s') :
    Scheduled s' p := by
  rcases h.cases with ⟨hst, -⟩ | ⟨hst, -⟩ | ⟨hst, hc⟩
  · exact h.of_sameKeys hu.sameKeys (.inl hst)
  · exact h.of_sameKeys hu.sameKeys (.inr hst)
  · exact (scheduled_iff_of_over hst).mpr (hc.of_untouched hu)

theorem Slot.of_untouched (h : Slot id s) (hu : Untouched id s s') : Slot id s' where
  fresh hle := by rw [hu.proposal]; exact h.fresh (hu.proposalID_le.trans hle)
  stored p hp := by
    rw [hu.proposal] at hp
    obtain rfl := Store.id_of_getElem? hp
    exact (h.stored p hp).of_untouched hu
  absent hnone := by
    rw [hu.proposal] at hnone
    exact (h.absent hnone).of_untouched hu

/-- A store change that leaves every id but `k` untouched keeps the invariant when it keeps the
slot of `k`. -/
theorem Scheduling.of_slot {k : ℕ} (h : Scheduling s) (hu : ∀ id, id ≠ k → Untouched id s s')
    (hk : Slot k s') : Scheduling s' := by
  intro id
  by_cases hid : id = k
  · subst hid
    exact hk
  · exact (h id).of_untouched (hu id hid)

end SameKeys

/-! ### The keeper's writes on their own proposal -/

/-- Depositing writes no key. -/
theorem sameKeys_recordDeposit {id k : ℕ} {s : Store} {depositor : String} {amount : Coins} :
    SameKeys id s (s.recordDeposit k depositor amount) :=
  ⟨fun _ => .rfl, fun _ => .rfl, fun _ => .rfl, .rfl, .rfl⟩

/-- Deleting deposits writes no key. -/
theorem sameKeys_deleteDeposits {id k : ℕ} {s : Store} : SameKeys id s (s.deleteDeposits k) :=
  ⟨fun _ => .rfl, fun _ => .rfl, fun _ => .rfl, .rfl, .rfl⟩

/-- The proposal `p` is stored under its id, below the sequence, in the deposit or the voting
period, and scheduled. -/
structure OpenAt (s : Store) (p : Proposal) : Prop where
  stored : s.proposals[p.id]? = some p
  lt_proposalID : p.id < s.proposalID
  status : p.status = .depositPeriod ∨ p.status = .votingPeriod
  scheduled : Scheduled s p

namespace OpenAt

variable {s s' : Store} {p : Proposal} {params : Params} {now : Time}

theorem slot (h : OpenAt s p) : Slot p.id s :=
  Slot.of_stored h.lt_proposalID h.stored h.scheduled

theorem recordDeposit (h : OpenAt s p) {k : ℕ} {depositor : String} {amount : Coins} :
    OpenAt (s.recordDeposit k depositor amount) p :=
  ⟨by simpa using h.stored, by simpa using h.lt_proposalID, h.status,
    h.scheduled.of_sameKeys sameKeys_recordDeposit h.status⟩

theorem deleteDeposits (h : OpenAt s p) {k : ℕ} : OpenAt (s.deleteDeposits k) p :=
  ⟨by simpa using h.stored, by simpa using h.lt_proposalID, h.status,
    h.scheduled.of_sameKeys sameKeys_deleteDeposits h.status⟩

/-- `AddDeposit` writes the new total back; the schedule does not read it. -/
theorem setProposal (h : OpenAt s p) (totalDeposit : Coins) :
    OpenAt (s.setProposal { p with totalDeposit := totalDeposit })
      { p with totalDeposit := totalDeposit } := by
  refine ⟨by simp, by simpa using h.lt_proposalID, h.status, ?_⟩
  rcases h.status with hst | hst
  · have hd := (scheduled_iff_of_depositPeriod hst).mp h.scheduled
    simp only [Scheduled, hst]
    exact { hd with not_votingPeriod := by simp }
  · have hv := (scheduled_iff_of_votingPeriod hst).mp h.scheduled
    simp only [Scheduled, hst]
    exact { hv with votingPeriod := by simp }

/-- `ActivateVotingPeriod` moves a proposal of the deposit period from the inactive to the
active queue and lists it in `VotingPeriodProposals`. -/
theorem activateVotingPeriod (h : OpenAt s p) (hst : p.status = .depositPeriod)
    (hs : s.activateVotingPeriod params now p = some s') :
    ∃ q, OpenAt s' q ∧ q.id = p.id ∧ q.status = .votingPeriod ∧ q.emergency = false := by
  have hd := (scheduled_iff_of_depositPeriod hst).mp h.scheduled
  simp only [Store.activateVotingPeriod, bind, Option.bind_eq_some_iff, pure,
    Option.some.injEq] at hs
  obtain ⟨depositEndTime, hend, rfl⟩ := hs
  refine ⟨{ p with
      votingStartTime := some now
      votingEndTime := some (now +
        if p.expedited then params.expeditedVotingPeriod else params.votingPeriod)
      status := .votingPeriod },
    ⟨by simp, by simpa using h.lt_proposalID, .inr rfl, ?_⟩, rfl, rfl, hd.emergency_eq_false⟩
  simp only [Scheduled]
  constructor
  · -- the one inactive key, at the end of the deposit period, is removed
    intro t ht
    obtain ⟨hne, hmem⟩ := TreeSet.mem_erase.mp ht
    have ht' : p.depositEndTime = some t := (hd.inactive t).mp hmem
    rw [hend, Option.some.injEq] at ht'
    subst ht'
    exact hne compare_self
  · simp
  · simp
  · intro t
    simp [hd.not_active]
  · intro t
    simp [hd.not_emergencyQueue, hd.not_emergency]
  · simp [hd.not_emergency]
  · simp [hd.emergency_eq_false]
  · simp

/-- The voting-period transition of `AddDeposit` leaves the proposal, read back from the store,
open and scheduled. -/
theorem activateIfCovered (h : OpenAt s p) {b : Bool} {p' : Proposal} {minDepositAmount : Coins}
    (hs : s.activateIfCovered params now p.id p minDepositAmount = some (b, s', p')) :
    OpenAt s' p' ∧ p'.id = p.id := by
  unfold Store.activateIfCovered at hs
  split_ifs at hs with hc
  · simp only [bind, Option.bind_eq_some_iff, pure, Option.some.injEq, Prod.mk.injEq] at hs
    obtain ⟨s₁, h₁, p₁, hp₁, -, rfl, rfl⟩ := hs
    obtain ⟨q, hq, hid, -⟩ := h.activateVotingPeriod hc.1 h₁
    rw [← hid] at hp₁
    obtain rfl : q = p₁ := Option.some.inj (hq.stored.symm.trans hp₁)
    exact ⟨hq, hid⟩
  · simp only [Option.some.injEq, Prod.mk.injEq] at hs
    obtain ⟨-, rfl, rfl⟩ := hs
    exact ⟨h, rfl⟩

/-- The keeper's `ActivateEmergencyProposal` puts a proposal of the voting period, not yet an
emergency proposal, on the emergency queue and in `EmergencyProposals`. -/
theorem activateEmergencyProposal (h : OpenAt s p) (hst : p.status = .votingPeriod)
    (he : p.emergency = false) :
    OpenAt (s.activateEmergencyProposal params now p)
      { p with
        emergency := true
        emergencyNextTallyTime := some (now + params.emergencyTallyInterval) } := by
  have hv := (scheduled_iff_of_votingPeriod hst).mp h.scheduled
  -- a proposal that is no emergency proposal is on no emergency list
  have hnot : p.id ∉ s.emergencyProposals := fun hm => by simp [hv.emergency_of_mem hm] at he
  refine ⟨by simp [Store.activateEmergencyProposal],
    by simpa [Store.activateEmergencyProposal] using h.lt_proposalID, .inr hst, ?_⟩
  simp only [Scheduled, hst]
  constructor
  · simpa [Store.activateEmergencyProposal] using hv.not_inactive
  · exact hv.votingStartTime_isSome
  · exact hv.votingEndTime_isSome
  · simpa [Store.activateEmergencyProposal] using hv.active
  · intro t
    simp [Store.activateEmergencyProposal, hv.emergencyQueue, hnot]
  · intro _
    rfl
  · intro _
    rfl
  · simp [Store.activateEmergencyProposal, hst]

/-- The emergency transition of `AddDeposit` leaves the proposal open and scheduled. -/
theorem convertToEmergency (h : OpenAt s p) (params : Params) (now : Time)
    (depositor : String) :
    ∃ q, OpenAt (s.convertToEmergency params now p depositor) q ∧ q.id = p.id := by
  unfold Store.convertToEmergency
  split_ifs with hc
  · exact ⟨_, h.activateEmergencyProposal hc.2.1 hc.1, rfl⟩
  · exact ⟨p, h, rfl⟩

/-- `DeleteProposal` of an open proposal takes it off every queue and key set and removes its
record; the deposits are left to the caller. -/
theorem deleteProposal (h : OpenAt s p) (hs : s.deleteProposal p.id = some s') :
    Unlisted p.id s' ∧ s'.proposals[p.id]? = none ∧ s'.deposits = s.deposits := by
  simp only [Store.deleteProposal, bind, Option.bind_eq_some_iff, pure, Option.some.injEq] at hs
  obtain ⟨p', hp', s₁, h₁, rfl⟩ := hs
  obtain rfl : p = p' := Option.some.inj (h.stored.symm.trans hp')
  refine ⟨?_, by simp [Store.eraseProposal],
    by simp [Store.eraseProposal, Store.deposits_removeVotingKeys h₁]⟩
  rcases h.status with hst | hst
  · -- in the deposit period: the one inactive key goes, and there are no voting keys
    have hd := (scheduled_iff_of_depositPeriod hst).mp h.scheduled
    obtain ⟨depositEndTime, hend⟩ := Option.isSome_iff_exists.mp hd.depositEndTime_isSome
    simp only [Store.removeVotingKeys, hd.votingEndTime_eq_none, Option.some.injEq] at h₁
    subst h₁
    constructor
    · constructor
      · intro t
        simp [Store.removeInactiveKey, Store.eraseProposal, hend, hd.inactive]
      · simpa [Store.eraseProposal] using hd.not_active
      · simpa [Store.eraseProposal] using hd.not_emergencyQueue
      · simpa [Store.eraseProposal] using hd.not_emergency
    · simpa [Store.eraseProposal] using hd.not_votingPeriod
  · -- in the voting period: the active key and, for a listed emergency proposal, the
    -- emergency key go; an unlisted one has none
    have hv := (scheduled_iff_of_votingPeriod hst).mp h.scheduled
    obtain ⟨votingEndTime, hend⟩ := Option.isSome_iff_exists.mp hv.votingEndTime_isSome
    have hinactive : ∀ t, (t, p.id) ∉ (s.removeInactiveKey p p.id).inactiveProposalsQueue :=
      fun t ht => hv.not_inactive t (Store.mem_of_mem_removeInactiveKey _ _ _ ht)
    simp only [Store.removeVotingKeys, hend] at h₁
    split_ifs at h₁ with he
    · obtain ⟨nextTallyTime, hnext, rfl⟩ := Option.map_eq_some_iff.mp h₁
      constructor
      · constructor
        · simpa [Store.eraseProposal] using hinactive
        · intro t
          simp [Store.eraseProposal, hv.active, hend]
        · -- the one emergency key, at the next tally time, is removed
          intro t
          simp [Store.eraseProposal, hv.emergencyQueue, hnext]
          exact fun hne _ => hne
        · simp [Store.eraseProposal]
      · simp [Store.eraseProposal]
    · cases h₁
      have hnot : p.id ∉ s.emergencyProposals := fun hm => he (hv.emergency_of_mem hm)
      constructor
      · constructor
        · simpa [Store.eraseProposal] using hinactive
        · intro t
          simp [Store.eraseProposal, hv.active, hend]
        · intro t
          simp [Store.eraseProposal, hv.emergencyQueue, hnot]
        · simpa [Store.eraseProposal] using hnot
      · simp [Store.eraseProposal]

end OpenAt

theorem Slot.openAt {k : ℕ} {s : Store} {p : Proposal} (h : Slot k s)
    (hp : s.proposals[k]? = some p)
    (hopen : p.status = .depositPeriod ∨ p.status = .votingPeriod) : OpenAt s p := by
  obtain rfl := Store.id_of_getElem? hp
  exact ⟨hp, h.lt_of_getElem? hp, hopen, h.stored p hp⟩

/-! ### The message handlers on their own proposal -/

namespace Slot

variable {k : ℕ} {s s' : Store} {params : Params} {now : Time}

/-- `AddDeposit` keeps the slot of its proposal: the new total, the voting-period and the
emergency transition, and the deposit record each keep the proposal open and scheduled. -/
theorem addDeposit (h : Slot k s) {depositor : String} {amount : Coins} {b : Bool}
    (hs : s.addDeposit params now k depositor amount = some (b, s')) : Slot k s' := by
  obtain ⟨p, hp, hopen, -, -, s₁, p₁, h₁, rfl⟩ := Store.addDeposit_eq_some.mp hs
  obtain rfl := Store.id_of_getElem? hp
  have h₀ := (h.openAt hp hopen).setProposal (p.totalDeposit + amount)
  obtain ⟨h₁', hid₁⟩ := h₀.activateIfCovered h₁
  obtain ⟨q, hq, hid⟩ := h₁'.convertToEmergency params now depositor
  rw [show p.id = q.id from (hid.trans hid₁).symm]
  exact hq.recordDeposit.slot

/-- `SubmitProposal` of the keeper stores a new proposal under the sequence, open and
scheduled, and moves the sequence past it. -/
theorem submitProposal (h : Slot s.proposalID s) (params : Params) (now : Time)
    (proposer : String) (expedited : Bool) :
    ∃ p, OpenAt (s.submitProposal params now proposer expedited).1 p ∧ p.id = s.proposalID := by
  -- the id is fresh, so it has no key yet
  have hc := h.absent (h.fresh le_rfl)
  refine ⟨{ id := s.proposalID
            status := .depositPeriod
            depositEndTime := some (now + params.maxDepositPeriod)
            totalDeposit := 0
            votingStartTime := none
            votingEndTime := none
            proposer := proposer
            expedited := expedited
            failedReason := ""
            emergency := false
            emergencyNextTallyTime := none },
    ⟨by simp [Store.submitProposal], by simp [Store.submitProposal], .inl rfl, ?_⟩, rfl⟩
  simp only [Scheduled]
  constructor
  · intro t
    simp [Store.submitProposal, hc.not_inactive]
  · rfl
  · rfl
  · rfl
  · simpa [Store.submitProposal] using hc.not_active
  · simpa [Store.submitProposal] using hc.not_emergencyQueue
  · simpa [Store.submitProposal] using hc.not_emergency
  · simp [Store.submitProposal]

theorem msgSubmitProposal (h : Slot s.proposalID s) {proposer title summary : String}
    {expedited : Bool} {initialDeposit : Coins} {k : ℕ}
    (hs : MsgServer.submitProposal s params now proposer title summary expedited
      initialDeposit = some (k, s')) :
    Slot s.proposalID s' := by
  obtain ⟨-, -, -, -, -, b, h₁⟩ := MsgServer.submitProposal_eq_some.mp hs
  obtain ⟨p, hp, hid⟩ := h.submitProposal params now proposer expedited
  rw [← hid] at h₁ ⊢
  exact hp.slot.addDeposit h₁

theorem msgDeposit (h : Slot k s) {depositor : String} {amount : Coins}
    (hs : MsgServer.deposit s params now k depositor amount = some s') : Slot k s' := by
  obtain ⟨-, b, h₁⟩ := MsgServer.deposit_eq_some.mp hs
  exact h.addDeposit h₁

theorem msgActivateEmergencyProposal (h : Slot k s) {sender : String}
    (hs : MsgServer.activateEmergencyProposal s params now k sender = some s') : Slot k s' := by
  obtain ⟨p, hp, he, hst, -, -, rfl⟩ := MsgServer.activateEmergencyProposal_eq_some.mp hs
  obtain rfl := Store.id_of_getElem? hp
  exact ((h.openAt hp (.inr hst)).activateEmergencyProposal hst he).slot

/-- `CancelProposal` closes its proposal: the deposits and then the proposal are deleted. -/
theorem cancelProposal (h : Slot k s) {proposer : String}
    (hs : s.cancelProposal now k proposer = some s') : Slot k s' := by
  obtain ⟨p, hp, -, -, hopen, -, h₁⟩ := Store.cancelProposal_eq_some.mp hs
  obtain rfl := Store.id_of_getElem? hp
  obtain ⟨hu, hnone, hdeposits⟩ := (h.openAt hp hopen).deleteDeposits.deleteProposal h₁
  exact Slot.of_closed hnone ⟨hu, fun d => by simp [hdeposits]⟩

end Slot

namespace Scheduling

variable {s s' : Store} {params : Params} {now : Time}

theorem msgSubmitProposal (h : Scheduling s) {proposer title summary : String}
    {expedited : Bool} {initialDeposit : Coins} {k : ℕ}
    (hs : MsgServer.submitProposal s params now proposer title summary expedited
      initialDeposit = some (k, s')) :
    Scheduling s' :=
  h.of_slot (fun _ hid => Untouched.msgSubmitProposal (Ne.symm hid) hs)
    ((h s.proposalID).msgSubmitProposal hs)

theorem msgDeposit (h : Scheduling s) {k : ℕ} {depositor : String} {amount : Coins}
    (hs : MsgServer.deposit s params now k depositor amount = some s') : Scheduling s' :=
  h.of_slot (fun _ hid => Untouched.msgDeposit (Ne.symm hid) hs) ((h k).msgDeposit hs)

theorem msgActivateEmergencyProposal (h : Scheduling s) {k : ℕ} {sender : String}
    (hs : MsgServer.activateEmergencyProposal s params now k sender = some s') :
    Scheduling s' :=
  h.of_slot (fun _ hid => Untouched.msgActivateEmergencyProposal (Ne.symm hid) hs)
    ((h k).msgActivateEmergencyProposal hs)

theorem addVote (h : Scheduling s) {k : ℕ} (hs : s.addVote k = some s') : Scheduling s' := by
  obtain ⟨-, rfl⟩ := Store.addVote_eq_some.mp hs
  exact h

theorem cancelProposal (h : Scheduling s) {k : ℕ} {proposer : String}
    (hs : s.cancelProposal now k proposer = some s') : Scheduling s' :=
  h.of_slot (fun _ hid => Untouched.cancelProposal (Ne.symm hid) hs) ((h k).cancelProposal hs)

end Scheduling

/-! ### Tallying a proposal -/

/-- What a tallied proposal `q` is, of the proposal `p` in the voting period it was: it is over,
or `p` was expedited and `q` is a regular proposal in the voting period until the end of the
regular voting period from its start. -/
def Tallied (params : Params) (p q : Proposal) : Prop :=
  q.status = .passed ∨ q.status = .rejected ∨ q.status = .failed ∨
    (q.status = .votingPeriod ∧ p.expedited = true ∧ q.expedited = false ∧
      q.emergency = p.emergency ∧
      ∃ votingStartTime, q.votingStartTime = some votingStartTime ∧
        q.votingEndTime = some (votingStartTime + params.votingPeriod))

section Tally

variable {s s' : Store} {p : Proposal} {params : Params}
  {execute : Proposal → Except String Unit} {passed : Bool}

/-- What `dequeueTallied` leaves of a proposal in the voting period: it is off the queues and out
of `EmergencyProposals`, its deposits are settled, and the record handed on differs from the
stored one at most in its voting end. -/
theorem VotingScheduled.dequeueTallied (h : VotingScheduled s p) {p' : Proposal}
    (hs : s.dequeueTallied p passed = some (s', p')) :
    OffQueues p.id s' ∧ s'.proposals = s.proposals ∧ s'.proposalID = s.proposalID ∧
      ((!p.expedited || passed) = true → ∀ d : String, s'.deposits[(p.id, d)]? = none) ∧
      ∃ votingEndTime, p' = { p with votingEndTime := votingEndTime } := by
  simp only [Store.dequeueTallied, bind, Option.bind_eq_some_iff] at hs
  obtain ⟨votingEndTime, hend, hs⟩ := hs
  split_ifs at hs with he
  · -- an emergency proposal also leaves the emergency queue, at its next tally time
    obtain ⟨nextTallyTime, hnext, hs⟩ := Option.map_eq_some_iff.mp hs
    simp only [Prod.mk.injEq] at hs
    obtain ⟨rfl, rfl⟩ := hs
    refine ⟨⟨fun t => ?_, fun t => ?_, fun t => ?_, by simp⟩, by simp, by simp,
      fun hx d => Store.deposits_settleDeposits s p passed hx d, _, rfl⟩
    · simpa using h.not_inactive t
    · simp [h.active, hend]
    · simp [h.emergencyQueue, hnext]
      exact fun hne _ => hne
  · simp only [Option.some.injEq, Prod.mk.injEq] at hs
    obtain ⟨rfl, rfl⟩ := hs
    -- a proposal that is no emergency proposal is on no emergency list
    have hnot : p.id ∉ s.emergencyProposals := fun hm => he (h.emergency_of_mem hm)
    refine ⟨⟨fun t => ?_, fun t => ?_, fun t => ?_, by simpa using hnot⟩, by simp, by simp,
      fun hx d => Store.deposits_settleDeposits s p passed hx d, p.votingEndTime, rfl⟩
    · simpa using h.not_inactive t
    · simp [h.active, hend]
    · simp [h.emergencyQueue, hnot]

/-- Written back with a status past the voting period, a proposal off the queues whose deposits
are gone is closed. -/
theorem closed_setProposal (q : Proposal) (h : OffQueues q.id s)
    (hst : q.status ≠ .votingPeriod) (hdeposits : ∀ d : String, s.deposits[(q.id, d)]? = none) :
    Closed q.id (s.setProposal q) :=
  ⟨⟨⟨by simpa using h.not_inactive, by simpa using h.not_active,
    by simpa using h.not_emergencyQueue, by simpa using h.not_emergency⟩, by simp [hst]⟩,
    by simpa using hdeposits⟩

/-- What `recordTally` makes of a proposal off the queues: a passed proposal is over, a
rejected regular one too, and a rejected expedited one is back on the active queue as a
regular proposal. Either way it is scheduled. -/
theorem recordTally_scheduled (hs : s.recordTally params execute p passed = some s')
    (h : OffQueues p.id s) (hst : p.status = .votingPeriod)
    (hnext : p.emergency = true → p.emergencyNextTallyTime.isSome)
    (hdeposits : (!p.expedited || passed) = true → ∀ d : String, s.deposits[(p.id, d)]? = none) :
    ∃ q, s'.proposals[p.id]? = some q ∧ Scheduled s' q ∧ Tallied params p q ∧
      s'.proposalID = s.proposalID ∧ p.id ∉ s'.emergencyProposals := by
  unfold Store.recordTally at hs
  split_ifs at hs with hpassed hexpedited
  · -- passed: the messages ran, and the proposal is over either way
    have hgone := hdeposits (by simp [hpassed])
    cases hx : execute p with
    | ok u =>
      simp only [hx, Option.some.injEq] at hs
      subst hs
      refine ⟨{ p with status := .passed }, by simp, ?_, .inl rfl, by simp,
        by simpa using h.not_emergency⟩
      simp only [Scheduled]
      exact closed_setProposal { p with status := .passed } h (by simp) hgone
    | error err =>
      simp only [hx, Option.some.injEq] at hs
      subst hs
      refine ⟨{ p with status := .failed, failedReason := err }, by simp, ?_,
        .inr (.inr (.inl rfl)), by simp, by simpa using h.not_emergency⟩
      simp only [Scheduled]
      exact closed_setProposal { p with status := .failed, failedReason := err } h (by simp)
        hgone
  · -- a failed expedited proposal turns regular, back on the active queue
    obtain ⟨votingStartTime, hstart', rfl⟩ := Option.map_eq_some_iff.mp hs
    refine ⟨{ p with
        expedited := false
        votingEndTime := some (votingStartTime + params.votingPeriod) }, by simp, ?_,
      .inr (.inr (.inr ⟨hst, hexpedited, rfl, rfl, votingStartTime, hstart', rfl⟩)), by simp,
      by simpa using h.not_emergency⟩
    simp only [Scheduled, hst]
    constructor
    · simpa using h.not_inactive
    · simp [hstart']
    · simp
    · intro t
      simp [h.not_active]
    · intro t
      simp [h.not_emergencyQueue, h.not_emergency]
    · simp [h.not_emergency]
    · exact hnext
    · simp
  · -- rejected
    simp only [Option.some.injEq] at hs
    subst hs
    refine ⟨{ p with
        status := .rejected
        failedReason := "proposal did not get enough votes to pass" }, by simp, ?_,
      .inr (.inl rfl), by simp, by simpa using h.not_emergency⟩
    simp only [Scheduled]
    exact closed_setProposal { p with
        status := .rejected
        failedReason := "proposal did not get enough votes to pass" } h (by simp)
      (hdeposits (by simp [hexpedited]))

/-- `handleTallyResult` of a stored proposal in the voting period returns, keeps its slot and
leaves it tallied, out of `EmergencyProposals`. -/
theorem Slot.handleTallyResult (h : Slot p.id s) (hp : s.proposals[p.id]? = some p)
    (hst : p.status = .votingPeriod) (params : Params) (execute : Proposal → Except String Unit)
    (passed : Bool) :
    ∃ s', s.handleTallyResult params execute p passed = some s' ∧ Slot p.id s' ∧
      (∃ q, s'.proposals[p.id]? = some q ∧ Tallied params p q) ∧
      p.id ∉ s'.emergencyProposals := by
  have hv := (scheduled_iff_of_votingPeriod hst).mp (h.stored p hp)
  -- the voting end, and for an emergency proposal the next tally time, are set
  obtain ⟨⟨s₁, p₁⟩, h₁⟩ : ∃ r, s.dequeueTallied p passed = some r := by
    obtain ⟨votingEndTime, hend⟩ := Option.isSome_iff_exists.mp hv.votingEndTime_isSome
    by_cases he : p.emergency = true
    · obtain ⟨nextTallyTime, hnext⟩ := Option.isSome_iff_exists.mp (hv.nextTallyTime_isSome he)
      simp [Store.dequeueTallied, hend, he, hnext]
    · simp [Store.dequeueTallied, hend, he]
  obtain ⟨hoff, -, hid, hdeposits, votingEndTime, rfl⟩ := hv.dequeueTallied h₁
  -- the start of the voting period is set, for the expedited branch
  obtain ⟨s₂, h₂⟩ : ∃ s₂, s₁.recordTally params execute
      { p with votingEndTime := votingEndTime } passed = some s₂ := by
    obtain ⟨votingStartTime, hstart⟩ := Option.isSome_iff_exists.mp hv.votingStartTime_isSome
    unfold Store.recordTally
    split_ifs
    · split <;> simp
    · simp [hstart]
    · simp
  obtain ⟨q, hq, hsch, htallied, hid₂, hnot⟩ :=
    recordTally_scheduled h₂ hoff hst hv.nextTallyTime_isSome hdeposits
  refine ⟨s₂, by simp [Store.handleTallyResult, h₁, h₂], ?_, ⟨q, hq, htallied⟩, hnot⟩
  exact Slot.of_stored (by rw [hid₂, hid]; exact h.lt_of_getElem? hp) hq hsch

end Tally

/-! ### The visits of the end of block -/

/-- What the active walk leaves of a proposal it visited: it is past the deposit period, and it
is a regular proposal in the voting period only as an expedited proposal that has just turned
regular. -/
def ActiveSettled (params : Params) (k : ℕ) (s : Store) : Prop :=
  ∀ q, s.proposals[k]? = some q → q.status ≠ .depositPeriod ∧
    (q.status = .votingPeriod → q.emergency = false → q.expedited = false ∧
      ∃ votingStartTime, q.votingStartTime = some votingStartTime ∧
        q.votingEndTime = some (votingStartTime + params.votingPeriod))

/-- What the emergency walk leaves of a proposal it visited at block time `now`: still listed in
`EmergencyProposals`, it is next tallied after `now`; it is past the deposit period, and an
emergency proposal while in the voting period. -/
def EmergencySettled (now : Time) (k : ℕ) (s : Store) : Prop :=
  (k ∈ s.emergencyProposals →
    ∃ q, s.proposals[k]? = some q ∧ ∃ t, q.emergencyNextTallyTime = some t ∧ now < t) ∧
  ∀ q, s.proposals[k]? = some q → q.status ≠ .depositPeriod ∧
    (q.status = .votingPeriod → q.emergency = true)

section Visits

variable {k : ℕ} {t now : Time} {s s' : Store} {p q : Proposal} {params : Params}

theorem ActiveSettled.of_untouched (h : ActiveSettled params k s) (hu : Untouched k s s') :
    ActiveSettled params k s' := by
  intro q hq
  rw [hu.proposal] at hq
  exact h q hq

theorem EmergencySettled.of_untouched (h : EmergencySettled now k s) (hu : Untouched k s s') :
    EmergencySettled now k s' := by
  refine ⟨fun hm => ?_, fun q hq => ?_⟩
  · rw [hu.proposal]
    exact h.1 (hu.emergency.mp hm)
  · rw [hu.proposal] at hq
    exact h.2 q hq

theorem Tallied.activeSettled (h : Tallied params p q) (hq : s.proposals[k]? = some q) :
    ActiveSettled params k s := by
  intro q' hq'
  obtain rfl : q = q' := Option.some.inj (hq.symm.trans hq')
  rcases h with h | h | h | ⟨hst, -, hexpedited, -, votingStartTime, hstart, hend⟩
  all_goals first
    | exact ⟨by simp [h], fun hv => by simp [h] at hv⟩
    | exact ⟨by simp [hst], fun _ _ => ⟨hexpedited, votingStartTime, hstart, hend⟩⟩

/-- A tallied emergency proposal is still an emergency proposal if it is in the voting
period. -/
theorem Tallied.emergency (h : Tallied params p q) (he : p.emergency = true) :
    q.status ≠ .depositPeriod ∧ (q.status = .votingPeriod → q.emergency = true) := by
  rcases h with h | h | h | ⟨hst, -, -, hemergency, -⟩
  all_goals first
    | exact ⟨by simp [h], fun hv => by simp [h] at hv⟩
    | exact ⟨by simp [hst], fun _ => hemergency.trans he⟩

/-- The visit of an inactive key deletes its proposal, whose deposit period has ended. -/
theorem Slot.dropInactive (h : Slot k s) (hk : (t, k) ∈ s.inactiveProposalsQueue) :
    ∃ s', s.dropInactive (t, k) = some s' ∧ Slot k s' ∧ s'.proposals[k]? = none := by
  obtain ⟨p, hp, hst, hd⟩ := h.of_mem_inactive hk
  obtain rfl := Store.id_of_getElem? hp
  -- without a voting period there are no voting keys to read, so the deletion returns
  obtain ⟨s₁, h₁⟩ : ∃ s₁, s.deleteProposal p.id = some s₁ := by
    simp [Store.deleteProposal, hp, Store.removeVotingKeys, hd.votingEndTime_eq_none]
  obtain ⟨hu, hnone, -⟩ := (h.openAt hp (.inl hst)).deleteProposal h₁
  refine ⟨s₁.deleteDeposits p.id, by simp [Store.dropInactive, hp, h₁], ?_, by simpa using hnone⟩
  exact Slot.of_closed (by simpa using hnone)
    ⟨hu.of_sameKeys sameKeys_deleteDeposits, fun d => by simp⟩

/-- The visit of an active key tallies its proposal, or skips an emergency proposal. -/
theorem Slot.tallyActive (h : Slot k s) (hk : (t, k) ∈ s.activeProposalsQueue)
    (params : Params) (tally : Proposal → TallyOutcome)
    (execute : Proposal → Except String Unit) :
    ∃ s', s.tallyActive params tally execute (t, k) = some s' ∧ Slot k s' ∧
      ActiveSettled params k s' := by
  obtain ⟨p, hp, hst, -⟩ := h.of_mem_active hk
  obtain rfl := Store.id_of_getElem? hp
  by_cases he : p.emergency = true
  · -- an emergency proposal is left to the emergency walk
    refine ⟨s, Store.tallyActive_of_emergency hp he, h, fun q hq => ?_⟩
    obtain rfl : p = q := Option.some.inj (hp.symm.trans hq)
    exact ⟨by simp [hst], fun _ hfalse => by simp [he] at hfalse⟩
  · obtain ⟨s', hs', hslot, ⟨q, hq, htallied⟩, -⟩ :=
      h.handleTallyResult hp hst params execute (tally p).passed
    exact ⟨s', by simp [Store.tallyActive, hp, he, hs'], hslot, htallied.activeSettled hq⟩

/-- The rescheduling branch moves the proposal's one emergency key from the visited time to the
next tally time. That time lies after `now`, since the voting period has not ended and the
interval is positive, so the new key is not the visited one. -/
theorem Slot.rescheduleEmergency (h : Slot p.id s) (hp : s.proposals[p.id]? = some p)
    (hst : p.status = .votingPeriod) (hmem : p.id ∈ s.emergencyProposals)
    (hnext : p.emergencyNextTallyTime = some t) (ht : t ≤ now) {votingEndTime : Time}
    (hlt : now < votingEndTime) (hI : 0 < params.emergencyTallyInterval) :
    Slot p.id (s.rescheduleEmergency params now p votingEndTime (t, p.id)) ∧
      EmergencySettled now p.id (s.rescheduleEmergency params now p votingEndTime (t, p.id)) := by
  have hv := (scheduled_iff_of_votingPeriod hst).mp (h.stored p hp)
  have he := hv.emergency_of_mem hmem
  have hafter : now < if votingEndTime < now + params.emergencyTallyInterval
      then votingEndTime else now + params.emergencyTallyInterval := by
    split_ifs <;> linarith
  generalize hN : (if votingEndTime < now + params.emergencyTallyInterval
      then votingEndTime else now + params.emergencyTallyInterval) = next at hafter
  have hres : s.rescheduleEmergency params now p votingEndTime (t, p.id) =
      ({ s with emergencyProposalsQueue :=
          (s.emergencyProposalsQueue.insert (next, p.id)).erase (t, p.id) } : Store).putProposal
        { p with emergencyNextTallyTime := some next } := by
    rw [← hN]
    rfl
  rw [hres]
  have hsch : Scheduled (({ s with emergencyProposalsQueue :=
      (s.emergencyProposalsQueue.insert (next, p.id)).erase (t, p.id) } : Store).putProposal
        { p with emergencyNextTallyTime := some next })
      { p with emergencyNextTallyTime := some next } := by
    simp only [Scheduled, hst]
    constructor
    · simpa using hv.not_inactive
    · exact hv.votingStartTime_isSome
    · exact hv.votingEndTime_isSome
    · simpa using hv.active
    · intro t'
      simp [hv.emergencyQueue, hnext, hmem]
      -- the visited time is at most `now`, the next one after it
      grind
    · intro _
      exact he
    · intro _
      rfl
    · simpa using hv.votingPeriod
  refine ⟨Slot.of_stored (by simpa using h.lt_of_getElem? hp) (by simp) hsch,
    fun _ => ⟨{ p with emergencyNextTallyTime := some next }, by simp, next, rfl, hafter⟩,
    fun q hq => ?_⟩
  simp only [Store.getElem?_proposals_putProposal, if_true, Option.some.injEq] at hq
  subst hq
  exact ⟨by simp [hst], fun _ => he⟩

/-- The visit of a due emergency key tallies its proposal: without quorum and before the end of
the voting period it is rescheduled after `now`, otherwise its result is handled. -/
theorem Slot.tallyEmergency (h : Slot k s) (hk : (t, k) ∈ s.emergencyProposalsQueue)
    (ht : t ≤ now) (hI : 0 < params.emergencyTallyInterval) (tally : Proposal → TallyOutcome)
    (execute : Proposal → Except String Unit) :
    ∃ s', s.tallyEmergency params tally execute now (t, k) = some s' ∧ Slot k s' ∧
      EmergencySettled now k s' := by
  obtain ⟨p, hp, hst, hv⟩ := h.of_mem_emergencyQueue hk
  obtain rfl := Store.id_of_getElem? hp
  obtain ⟨hmem, hnext⟩ := (hv.emergencyQueue t).mp hk
  have he := hv.emergency_of_mem hmem
  obtain ⟨votingEndTime, hend⟩ := Option.isSome_iff_exists.mp hv.votingEndTime_isSome
  by_cases hre : (tally p).quorumReached = false ∧ now < votingEndTime
  · obtain ⟨hslot, hsettled⟩ := h.rescheduleEmergency hp hst hmem hnext ht hre.2 hI
    exact ⟨_, by simp [Store.tallyEmergency, hp, hend, hre], hslot, hsettled⟩
  · obtain ⟨s', hs', hslot, ⟨q, hq, htallied⟩, hnot⟩ :=
      h.handleTallyResult hp hst params execute (tally p).passed
    refine ⟨s', by simp [Store.tallyEmergency, hp, hend, hre, hs'], hslot,
      fun hm => absurd hm hnot, fun q' hq' => ?_⟩
    obtain rfl : q = q' := Option.some.inj (hq.symm.trans hq')
    exact htallied.emergency he

end Visits

/-! ### The walks of the end of block -/

/-- The due keys of a queue with at most one key per proposal name distinct proposals. -/
theorem pairwise_dueKeys {queue : TreeSet (Time × ℕ) compare}
    (huniq : ∀ {t t' : Time} {k : ℕ}, (t, k) ∈ queue → (t', k) ∈ queue → t = t') (now : Time) :
    (Store.dueKeys queue now).Pairwise fun a b => a.2 ≠ b.2 := by
  refine List.Pairwise.imp_of_mem ?_ (TreeSet.distinct_toList.filter _)
  rintro ⟨t, k⟩ ⟨t', k'⟩ ha hb hne (rfl : k = k')
  obtain rfl := huniq (Store.mem_dueKeys.mp ha).1 (Store.mem_dueKeys.mp hb).1
  exact hne compare_self

/-- A listed emergency proposal is stored, in the voting period. -/
theorem Slot.of_mem_emergency {k : ℕ} {s : Store} (h : Slot k s)
    (hk : k ∈ s.emergencyProposals) :
    ∃ p, s.proposals[k]? = some p ∧ p.status = .votingPeriod ∧ VotingScheduled s p := by
  cases hp : s.proposals[k]? with
  | none => exact absurd hk (h.absent hp).not_emergency
  | some p =>
    obtain rfl := Store.id_of_getElem? hp
    rcases (h.stored p hp).cases with ⟨-, hd⟩ | ⟨hst, hv⟩ | ⟨-, hc⟩
    · exact absurd hk hd.not_emergency
    · exact ⟨p, rfl, hst, hv⟩
    · exact absurd hk hc.not_emergency

namespace Scheduling

variable {s s' : Store} {params : Params} {now : Time}

theorem inactive_unique (h : Scheduling s) {t t' : Time} {k : ℕ}
    (h₁ : (t, k) ∈ s.inactiveProposalsQueue) (h₂ : (t', k) ∈ s.inactiveProposalsQueue) :
    t = t' := by
  obtain ⟨p, hp, -, hd⟩ := (h k).of_mem_inactive h₁
  obtain rfl := Store.id_of_getElem? hp
  exact Option.some.inj (((hd.inactive t).mp h₁).symm.trans ((hd.inactive t').mp h₂))

theorem active_unique (h : Scheduling s) {t t' : Time} {k : ℕ}
    (h₁ : (t, k) ∈ s.activeProposalsQueue) (h₂ : (t', k) ∈ s.activeProposalsQueue) :
    t = t' := by
  obtain ⟨p, hp, -, hv⟩ := (h k).of_mem_active h₁
  obtain rfl := Store.id_of_getElem? hp
  exact Option.some.inj (((hv.active t).mp h₁).symm.trans ((hv.active t').mp h₂))

theorem emergencyQueue_unique (h : Scheduling s) {t t' : Time} {k : ℕ}
    (h₁ : (t, k) ∈ s.emergencyProposalsQueue) (h₂ : (t', k) ∈ s.emergencyProposalsQueue) :
    t = t' := by
  obtain ⟨p, hp, -, hv⟩ := (h k).of_mem_emergencyQueue h₁
  obtain rfl := Store.id_of_getElem? hp
  exact Option.some.inj
    (((hv.emergencyQueue t).mp h₁).2.symm.trans ((hv.emergencyQueue t').mp h₂).2)

/-- The inactive walk returns and keeps the invariant, and leaves no proposal in the deposit
period whose deposit period has ended. -/
theorem inactiveWalk (h : Scheduling s) (now : Time) :
    ∃ s', (Store.dueKeys s.inactiveProposalsQueue now).foldlM Store.dropInactive s = some s' ∧
      Scheduling s' ∧ ∀ (k : ℕ) (p : Proposal), s'.proposals[k]? = some p →
        p.status = .depositPeriod → ∃ e, p.depositEndTime = some e ∧ now < e := by
  have hvisit : ∀ key ∈ Store.dueKeys s.inactiveProposalsQueue now, ∀ b, Scheduling b →
      key ∈ b.inactiveProposalsQueue → ∃ b', b.dropInactive key = some b' ∧ Scheduling b' ∧
        b'.proposals[key.2]? = none ∧ ∀ id, id ≠ key.2 → Untouched id b b' := by
    rintro ⟨t, k⟩ - b hb hk
    obtain ⟨b', h', hslot, hnone⟩ := (hb k).dropInactive hk
    have hu : ∀ id, id ≠ k → Untouched id b b' := fun id hid =>
      Untouched.dropInactive (Ne.symm hid) h'
    exact ⟨b', h', hb.of_slot hu hslot, hnone, hu⟩
  obtain ⟨s', hs', hsch, hdone, hframe⟩ := List.exists_foldlM_of_owners Prod.snd Untouched
    (fun _ b => Untouched.refl b) (fun h₁ h₂ => h₁.trans h₂) Scheduling
    (fun key b => key ∈ b.inactiveProposalsQueue) (fun key b => b.proposals[key.2]? = none)
    (fun hk hu => (hu.inactive _).mpr hk) (fun hk hu => hu.proposal.trans hk) hvisit h
    (fun _ hkey => (Store.mem_dueKeys.mp hkey).1) (pairwise_dueKeys h.inactive_unique now)
  refine ⟨s', hs', hsch, fun k p hp hst => ?_⟩
  by_cases hk : ∃ key ∈ Store.dueKeys s.inactiveProposalsQueue now, key.2 = k
  · obtain ⟨key, hkey, rfl⟩ := hk
    simp [hdone key hkey] at hp
  · -- not visited: still the proposal of `s`, whose inactive key was not due
    push Not at hk
    rw [(hframe k hk).proposal] at hp
    obtain rfl := Store.id_of_getElem? hp
    have hd := (scheduled_iff_of_depositPeriod hst).mp ((h p.id).stored p hp)
    obtain ⟨e, he⟩ := Option.isSome_iff_exists.mp hd.depositEndTime_isSome
    refine ⟨e, he, lt_of_not_ge fun hle => hk (e, p.id) ?_ rfl⟩
    exact Store.mem_dueKeys.mpr ⟨(hd.inactive e).mpr he, hle⟩

/-- The active walk returns and keeps the invariant. It makes no proposal of the deposit period,
and leaves no regular proposal in the voting period whose voting period has ended, but an
expedited one that has just turned regular. -/
theorem activeWalk (h : Scheduling s) (params : Params) (tally : Proposal → TallyOutcome)
    (execute : Proposal → Except String Unit) (now : Time) :
    ∃ s', (Store.dueKeys s.activeProposalsQueue now).foldlM
        (fun s key => s.tallyActive params tally execute key) s = some s' ∧
      Scheduling s' ∧ ∀ (k : ℕ) (q : Proposal), s'.proposals[k]? = some q →
        (q.status = .depositPeriod → s.proposals[k]? = some q) ∧
        (q.status = .votingPeriod → q.emergency = false → ∀ e, q.votingEndTime = some e →
          e ≤ now → q.expedited = false ∧
            ∃ votingStartTime, q.votingStartTime = some votingStartTime ∧
              e = votingStartTime + params.votingPeriod) := by
  have hvisit : ∀ key ∈ Store.dueKeys s.activeProposalsQueue now, ∀ b, Scheduling b →
      key ∈ b.activeProposalsQueue → ∃ b', b.tallyActive params tally execute key = some b' ∧
        Scheduling b' ∧ ActiveSettled params key.2 b' ∧ ∀ id, id ≠ key.2 → Untouched id b b' := by
    rintro ⟨t, k⟩ - b hb hk
    obtain ⟨b', h', hslot, hsettled⟩ := (hb k).tallyActive hk params tally execute
    have hu : ∀ id, id ≠ k → Untouched id b b' := fun id hid =>
      Untouched.tallyActive (Ne.symm hid) h'
    exact ⟨b', h', hb.of_slot hu hslot, hsettled, hu⟩
  obtain ⟨s', hs', hsch, hdone, hframe⟩ := List.exists_foldlM_of_owners Prod.snd Untouched
    (fun _ b => Untouched.refl b) (fun h₁ h₂ => h₁.trans h₂) Scheduling
    (fun key b => key ∈ b.activeProposalsQueue) (fun key b => ActiveSettled params key.2 b)
    (fun hk hu => (hu.active _).mpr hk) (fun hk hu => hk.of_untouched hu) hvisit h
    (fun _ hkey => (Store.mem_dueKeys.mp hkey).1) (pairwise_dueKeys h.active_unique now)
  refine ⟨s', hs', hsch, fun k q hq => ?_⟩
  by_cases hk : ∃ key ∈ Store.dueKeys s.activeProposalsQueue now, key.2 = k
  · obtain ⟨key, hkey, rfl⟩ := hk
    obtain ⟨hne, hregular⟩ := hdone key hkey q hq
    refine ⟨fun hst => absurd hst hne, fun hst he e hend _ => ?_⟩
    obtain ⟨hexpedited, votingStartTime, hstart, hend'⟩ := hregular hst he
    rw [hend, Option.some.injEq] at hend'
    exact ⟨hexpedited, votingStartTime, hstart, hend'⟩
  · -- not visited: still the proposal of `s`, whose active key was not due
    push Not at hk
    rw [(hframe k hk).proposal] at hq
    refine ⟨fun _ => hq, fun hst _ e hend hle => ?_⟩
    obtain rfl := Store.id_of_getElem? hq
    have hv := (scheduled_iff_of_votingPeriod hst).mp ((h q.id).stored q hq)
    exact absurd rfl (hk (e, q.id) (Store.mem_dueKeys.mpr ⟨(hv.active e).mpr hend, hle⟩))

/-- The emergency walk returns and keeps the invariant. Every proposal it leaves in
`EmergencyProposals` is next tallied after `now`, and it makes no proposal of the deposit period
nor a regular proposal of the voting period. -/
theorem emergencyWalk (h : Scheduling s) (hI : 0 < params.emergencyTallyInterval)
    (tally : Proposal → TallyOutcome) (execute : Proposal → Except String Unit) (now : Time) :
    ∃ s', (Store.dueKeys s.emergencyProposalsQueue now).foldlM
        (fun s key => s.tallyEmergency params tally execute now key) s = some s' ∧
      Scheduling s' ∧
      (∀ k ∈ s'.emergencyProposals, ∃ q, s'.proposals[k]? = some q ∧
        ∃ t, q.emergencyNextTallyTime = some t ∧ now < t) ∧
      ∀ (k : ℕ) (q : Proposal), s'.proposals[k]? = some q →
        (q.status = .depositPeriod ∨ (q.status = .votingPeriod ∧ q.emergency = false)) →
        s.proposals[k]? = some q := by
  have hvisit : ∀ key ∈ Store.dueKeys s.emergencyProposalsQueue now, ∀ b, Scheduling b →
      key ∈ b.emergencyProposalsQueue →
        ∃ b', b.tallyEmergency params tally execute now key = some b' ∧ Scheduling b' ∧
          EmergencySettled now key.2 b' ∧ ∀ id, id ≠ key.2 → Untouched id b b' := by
    rintro ⟨t, k⟩ hkey b hb hk
    obtain ⟨b', h', hslot, hsettled⟩ :=
      (hb k).tallyEmergency hk (Store.mem_dueKeys.mp hkey).2 hI tally execute
    have hu : ∀ id, id ≠ k → Untouched id b b' := fun id hid =>
      Untouched.tallyEmergency (Ne.symm hid) h'
    exact ⟨b', h', hb.of_slot hu hslot, hsettled, hu⟩
  obtain ⟨s', hs', hsch, hdone, hframe⟩ := List.exists_foldlM_of_owners Prod.snd Untouched
    (fun _ b => Untouched.refl b) (fun h₁ h₂ => h₁.trans h₂) Scheduling
    (fun key b => key ∈ b.emergencyProposalsQueue) (fun key b => EmergencySettled now key.2 b)
    (fun hk hu => (hu.emergencyQueue _).mpr hk) (fun hk hu => hk.of_untouched hu) hvisit h
    (fun _ hkey => (Store.mem_dueKeys.mp hkey).1) (pairwise_dueKeys h.emergencyQueue_unique now)
  refine ⟨s', hs', hsch, fun k hm => ?_, fun k q hq hopen => ?_⟩
  · by_cases hk : ∃ key ∈ Store.dueKeys s.emergencyProposalsQueue now, key.2 = k
    · obtain ⟨key, hkey, rfl⟩ := hk
      exact (hdone key hkey).1 hm
    · -- not visited: its emergency key, at the next tally time, was not due
      push Not at hk
      have hu := hframe k hk
      obtain ⟨p, hp, -, hv⟩ := (h k).of_mem_emergency (hu.emergency.mp hm)
      obtain rfl := Store.id_of_getElem? hp
      obtain ⟨t, hnext⟩ := Option.isSome_iff_exists.mp
        (hv.nextTallyTime_isSome (hv.emergency_of_mem (hu.emergency.mp hm)))
      refine ⟨p, by rw [hu.proposal]; exact hp, t, hnext, lt_of_not_ge fun hle => ?_⟩
      exact hk (t, p.id) (Store.mem_dueKeys.mpr
        ⟨(hv.emergencyQueue t).mpr ⟨hu.emergency.mp hm, hnext⟩, hle⟩) rfl
  · by_cases hk : ∃ key ∈ Store.dueKeys s.emergencyProposalsQueue now, key.2 = k
    · obtain ⟨key, hkey, rfl⟩ := hk
      obtain ⟨hne, hemergency⟩ := (hdone key hkey).2 q hq
      rcases hopen with hst | ⟨hst, he⟩
      · exact absurd hst hne
      · simp [hemergency hst] at he
    · push Not at hk
      rw [(hframe k hk).proposal] at hq
      exact hq

/-- The end of block returns and keeps the invariant. After it nothing that was due is left:
no proposal of the deposit period has a deposit period that has ended, every listed emergency
proposal is next tallied after `now`, and a regular proposal of the voting period whose voting
period has ended is an expedited one that has just turned regular. -/
theorem endBlocker (h : Scheduling s) (hI : 0 < params.emergencyTallyInterval)
    (tally : Proposal → TallyOutcome) (execute : Proposal → Except String Unit) (now : Time) :
    ∃ s', s.endBlocker params tally execute now = some s' ∧ Scheduling s' ∧
      ∀ (k : ℕ) (p : Proposal), s'.proposals[k]? = some p →
        (p.status = .depositPeriod → ∃ e, p.depositEndTime = some e ∧ now < e) ∧
        (k ∈ s'.emergencyProposals → ∃ t, p.emergencyNextTallyTime = some t ∧ now < t) ∧
        (p.status = .votingPeriod → p.emergency = false → ∀ e, p.votingEndTime = some e →
          e ≤ now → p.expedited = false ∧
            ∃ votingStartTime, p.votingStartTime = some votingStartTime ∧
              e = votingStartTime + params.votingPeriod) := by
  obtain ⟨s₁, h₁, hs₁, hdeposit⟩ := h.inactiveWalk now
  obtain ⟨s₂, h₂, hs₂, hactive⟩ := hs₁.activeWalk params tally execute now
  obtain ⟨s₃, h₃, hs₃, hemergency, hkept⟩ := hs₂.emergencyWalk hI tally execute now
  refine ⟨s₃, by simp [Store.endBlocker, h₁, h₂, h₃], hs₃, fun k p hp => ⟨fun hst => ?_,
    fun hm => ?_, fun hst he => ?_⟩⟩
  · -- a proposal of the deposit period is one the inactive walk left
    have hp₂ := hkept k p hp (.inl hst)
    exact hdeposit k p ((hactive k p hp₂).1 hst) hst
  · obtain ⟨q, hq, hnext⟩ := hemergency k hm
    obtain rfl : p = q := Option.some.inj (hp.symm.trans hq)
    exact hnext
  · exact (hactive k p (hkept k p hp (.inr ⟨hst, he⟩))).2 hst he

theorem endBlocker_eq_some (h : Scheduling s) (hI : 0 < params.emergencyTallyInterval)
    {tally : Proposal → TallyOutcome} {execute : Proposal → Except String Unit}
    (hs : s.endBlocker params tally execute now = some s') : Scheduling s' := by
  obtain ⟨s'', hs'', hsch, -⟩ := h.endBlocker hI tally execute now
  rw [hs] at hs''
  cases hs''
  exact hsch

end Scheduling

/-! ### Runs under valid parameters -/

/-- A step of a run, as in `Step`, whose handler runs under the parameters `params`. -/
inductive StepUnder (params : Params) : Time × Store → Time × Store → Prop
  | submitProposal {t now : Time} {s s' : Store} {proposalID : ℕ}
      (proposer title summary : String) (expedited : Bool) (initialDeposit : Coins)
      (hnow : t ≤ now)
      (h : MsgServer.submitProposal s params now proposer title summary expedited
        initialDeposit = some (proposalID, s')) :
      StepUnder params (t, s) (now, s')
  | deposit {t now : Time} {s s' : Store} (proposalID : ℕ) (depositor : String) (amount : Coins)
      (hnow : t ≤ now) (h : MsgServer.deposit s params now proposalID depositor amount = some s') :
      StepUnder params (t, s) (now, s')
  | activateEmergencyProposal {t now : Time} {s s' : Store} (proposalID : ℕ) (sender : String)
      (hnow : t ≤ now)
      (h : MsgServer.activateEmergencyProposal s params now proposalID sender = some s') :
      StepUnder params (t, s) (now, s')
  | vote {t now : Time} {s s' : Store} (proposalID : ℕ) (hnow : t ≤ now)
      (h : s.addVote proposalID = some s') :
      StepUnder params (t, s) (now, s')
  | cancelProposal {t now : Time} {s s' : Store} (proposalID : ℕ) (proposer : String)
      (hnow : t ≤ now) (h : s.cancelProposal now proposalID proposer = some s') :
      StepUnder params (t, s) (now, s')
  | endBlocker {t now : Time} {s s' : Store} (tally : Proposal → TallyOutcome)
      (execute : Proposal → Except String Unit) (hnow : t ≤ now)
      (h : s.endBlocker params tally execute now = some s') :
      StepUnder params (t, s) (now, s')

/-- A step under fixed parameters is a step of the gov store. -/
theorem StepUnder.step {params : Params} {a b : Time × Store} (h : StepUnder params a b) :
    Step a b := by
  cases h with
  | submitProposal proposer title summary expedited initialDeposit hnow h =>
    exact .submitProposal params proposer title summary expedited initialDeposit hnow h
  | deposit proposalID depositor amount hnow h =>
    exact .deposit params proposalID depositor amount hnow h
  | activateEmergencyProposal proposalID sender hnow h =>
    exact .activateEmergencyProposal params proposalID sender hnow h
  | vote proposalID hnow h => exact .vote proposalID hnow h
  | cancelProposal proposalID proposer hnow h => exact .cancelProposal proposalID proposer hnow h
  | endBlocker tally execute hnow h => exact .endBlocker params tally execute hnow h

/-- A step under parameters that pass `Validate`. `UpdateParams` refuses any others, and the
messages that add and remove emergency submitters change no field that `Validate` reads. -/
def ValidStep (a b : Time × Store) : Prop :=
  ∃ params : Params, params.validate = true ∧ StepUnder params a b

theorem Params.emergencyTallyInterval_pos {params : Params} (h : params.validate = true) :
    0 < params.emergencyTallyInterval := by
  simp only [Params.validate, Bool.and_eq_true, decide_eq_true_eq] at h
  exact h.1.1.2

/-- Every step under parameters with a positive emergency tally interval keeps the invariant. -/
theorem Scheduling.stepUnder {params : Params} {a b : Time × Store} (h : Scheduling a.2)
    (hI : 0 < params.emergencyTallyInterval) (hs : StepUnder params a b) : Scheduling b.2 := by
  cases hs with
  | submitProposal _ _ _ _ _ _ hs => exact h.msgSubmitProposal hs
  | deposit _ _ _ _ hs => exact h.msgDeposit hs
  | activateEmergencyProposal _ _ _ hs => exact h.msgActivateEmergencyProposal hs
  | vote _ _ hs => exact h.addVote hs
  | cancelProposal _ _ _ hs => exact h.cancelProposal hs
  | endBlocker _ _ _ hs => exact h.endBlocker_eq_some hI hs

/-- Every run of valid steps keeps the invariant. -/
theorem Scheduling.run {a b : Time × Store} (h : Scheduling a.2)
    (hr : Relation.ReflTransGen ValidStep a b) : Scheduling b.2 := by
  induction hr with
  | refl => exact h
  | tail _ hs ih =>
    obtain ⟨params, hp, hs⟩ := hs
    exact ih.stepUnder (Params.emergencyTallyInterval_pos hp) hs

/-- A new chain has no proposal, no key and no deposit. -/
theorem scheduling_init (n : ℕ) : Scheduling (Store.init n) := by
  intro id
  refine Slot.of_closed (by simp [Store.init]) ⟨⟨⟨?_, ?_, ?_, ?_⟩, ?_⟩, ?_⟩ <;>
    simp [Store.init]

/-- Along every run of valid steps from a new chain, the queues and key sets agree with the
proposals' records. -/
theorem scheduling_of_validRun {n : ℕ} {t₀ t : Time} {s : Store}
    (h : Relation.ReflTransGen ValidStep (t₀, Store.init n) (t, s)) : Scheduling s :=
  (scheduling_init n).run h

/-- The first proposal of a new chain under the default parameters, submitted at time 0 with the
least initial deposit that the deposit ratio admits, which leaves it in the deposit period. -/
def firstSubmitted : Store :=
  match MsgServer.submitProposal (Store.init 1) (Params.default "uinit") 0 "init1proposer"
      "title" "summary" false (.single "uinit" 100000) with
  | some (_, s) => s
  | none => Store.init 1

theorem submitProposal_firstSubmitted :
    MsgServer.submitProposal (Store.init 1) (Params.default "uinit") 0 "init1proposer" "title"
      "summary" false (.single "uinit" 100000) = some (1, firstSubmitted) := by
  rfl

/-- The submission is a valid step from a new chain. -/
theorem validRun_firstSubmitted :
    Relation.ReflTransGen ValidStep (0, Store.init 1) (0, firstSubmitted) :=
  .single ⟨Params.default "uinit", Params.validate_default "uinit",
    .submitProposal _ _ _ _ _ le_rfl submitProposal_firstSubmitted⟩

/-- Then, at time 100, a deposit by init1backer of the rest of the minimum deposit activates the
voting period, which ends at 172900. -/
def firstActivated : Store :=
  (MsgServer.deposit firstSubmitted (Params.default "uinit") 100 1 "init1backer"
    (.single "uinit" 9900000)).getD firstSubmitted

theorem deposit_firstActivated :
    MsgServer.deposit firstSubmitted (Params.default "uinit") 100 1 "init1backer"
      (.single "uinit" 9900000) = some firstActivated := by
  rfl

theorem validRun_firstActivated :
    Relation.ReflTransGen ValidStep (0, Store.init 1) (100, firstActivated) :=
  validRun_firstSubmitted.tail ⟨Params.default "uinit", Params.validate_default "uinit",
    .deposit _ _ _ (by decide) deposit_firstActivated⟩

/-- At the end of the block at 172900 the voting period has ended, and a tally that passes
passes the proposal. -/
def firstPassed : Store :=
  (firstActivated.endBlocker (Params.default "uinit") (fun _ => ⟨true, true⟩) (fun _ => .ok ())
    172900).getD firstActivated

theorem endBlocker_firstPassed :
    firstActivated.endBlocker (Params.default "uinit") (fun _ => ⟨true, true⟩) (fun _ => .ok ())
      172900 = some firstPassed := by
  rfl

theorem validRun_firstPassed :
    Relation.ReflTransGen ValidStep (0, Store.init 1) (172900, firstPassed) :=
  validRun_firstActivated.tail ⟨Params.default "uinit", Params.validate_default "uinit",
    .endBlocker _ _ (by decide) endBlocker_firstPassed⟩

example : (firstActivated.proposals[1]?).map (·.status) = some .votingPeriod := by decide +kernel
example : (firstPassed.proposals[1]?).map (·.status) = some .passed := by decide +kernel

theorem scheduling_firstPassed : Scheduling firstPassed :=
  scheduling_of_validRun validRun_firstPassed

/-- `VotingPeriodProposals` lists exactly the stored proposals in the voting period. -/
theorem Scheduling.mem_votingPeriodProposals_iff {s : Store} (h : Scheduling s) (k : ℕ) :
    k ∈ s.votingPeriodProposals ↔ ∃ p, s.proposals[k]? = some p ∧ p.status = .votingPeriod := by
  cases hp : s.proposals[k]? with
  | none => simpa using (h k |>.absent hp).not_votingPeriod
  | some p =>
    obtain rfl := Store.id_of_getElem? hp
    rcases (h p.id |>.stored p hp).cases with ⟨hst, hd⟩ | ⟨hst, hv⟩ | ⟨hst, hc⟩
    · simpa [hst] using hd.not_votingPeriod
    · simpa [hst] using hv.votingPeriod
    · have hne : p.status ≠ .votingPeriod := by rcases hst with hst | hst | hst <;> simp [hst]
      simpa [hne] using hc.not_votingPeriod

/-- Along every run of valid steps from a new chain, `AddVote` takes a vote exactly on a stored
proposal in the voting period. -/
theorem addVote_isSome_iff_of_validRun {n : ℕ} {t₀ t : Time} {s : Store}
    (h : Relation.ReflTransGen ValidStep (t₀, Store.init n) (t, s)) (k : ℕ) :
    (s.addVote k).isSome ↔ ∃ p, s.proposals[k]? = some p ∧ p.status = .votingPeriod := by
  rw [← ((scheduling_init n).run h).mem_votingPeriodProposals_iff k]
  unfold Store.addVote
  split_ifs with hk <;> simp [hk]

theorem addVote_isSome_iff_firstActivated :
    (firstActivated.addVote 1).isSome ↔
      ∃ p, firstActivated.proposals[1]? = some p ∧ p.status = .votingPeriod :=
  addVote_isSome_iff_of_validRun validRun_firstActivated 1

/-- A deposit is held only on a stored proposal in the deposit or voting period. -/
theorem Scheduling.open_of_deposit {s : Store} (h : Scheduling s) {k : ℕ} {d : String}
    (hd : (s.deposits[(k, d)]?).isSome) :
    ∃ p, s.proposals[k]? = some p ∧ (p.status = .depositPeriod ∨ p.status = .votingPeriod) := by
  cases hp : s.proposals[k]? with
  | none => simp [(h k |>.absent hp).no_deposits d] at hd
  | some p =>
    obtain rfl := Store.id_of_getElem? hp
    rcases (h p.id |>.stored p hp).cases with ⟨hst, -⟩ | ⟨hst, -⟩ | ⟨-, hc⟩
    · exact ⟨p, rfl, .inl hst⟩
    · exact ⟨p, rfl, .inr hst⟩
    · simp [hc.no_deposits d] at hd

/-- Along every run of valid steps from a new chain, every deposit the store holds is on a
stored proposal in the deposit or voting period: none is left behind on a proposal that is
over or deleted. -/
theorem deposits_open_of_validRun {n : ℕ} {t₀ t : Time} {s : Store}
    (h : Relation.ReflTransGen ValidStep (t₀, Store.init n) (t, s)) {k : ℕ} {d : String}
    (hd : (s.deposits[(k, d)]?).isSome) :
    ∃ p, s.proposals[k]? = some p ∧ (p.status = .depositPeriod ∨ p.status = .votingPeriod) :=
  ((scheduling_init n).run h).open_of_deposit hd

theorem deposits_open_firstActivated :
    ∃ p, firstActivated.proposals[1]? = some p ∧
      (p.status = .depositPeriod ∨ p.status = .votingPeriod) :=
  deposits_open_of_validRun validRun_firstActivated (d := "init1backer") (by decide +kernel)

/-- On a scheduled store the end of block never fails: every key it visits names a stored
proposal, and every time it reads is set. -/
theorem endBlocker_isSome {s : Store} {params : Params} (h : Scheduling s)
    (hI : 0 < params.emergencyTallyInterval) (tally : Proposal → TallyOutcome)
    (execute : Proposal → Except String Unit) (now : Time) :
    (s.endBlocker params tally execute now).isSome := by
  obtain ⟨s', hs, -⟩ := h.endBlocker hI tally execute now
  simp [hs]

theorem endBlocker_isSome_firstActivated :
    (firstActivated.endBlocker (Params.default "uinit") (fun _ => ⟨true, true⟩)
      (fun _ => .ok ()) 172900).isSome :=
  endBlocker_isSome ((scheduling_init 1).run validRun_firstActivated) (by decide) _ _ _

end Initia.Gov
