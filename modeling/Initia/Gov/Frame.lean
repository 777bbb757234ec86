import Mathlib
import Initia.Gov.EndBlocker
import Initia.Lib.Fold

/-!
# What a step leaves of another proposal

Every keeper function of the gov module works on one proposal. It writes the proposal under
its own id, and every key it adds to or removes from the queues and key sets carries that id.
So a function called on one proposal leaves the data of every other proposal as it was: the
record, its queue keys, its key-set entries and its deposits. `Untouched id s s'` says so for
the proposal `id`, and adds that the id sequence never goes back. It is reflexive and
transitive, and this module proves it for each keeper function at another id.

The walks of `EndBlocker` visit one key at a time, and each visit works on the proposal its key
names. A walk therefore leaves every proposal with no due key untouched
(`Untouched.foldlM`).
-/

namespace Initia.Gov

open Std Initia.Sdk

/-- `s'` holds for the proposal `id` what `s` holds: the record, its keys on the three queues,
its entries in the two key sets and its deposits; and the id sequence has not gone back. -/
structure Untouched (id : ℕ) (s s' : Store) : Prop where
  proposal : s'.proposals[id]? = s.proposals[id]?
  inactive : ∀ t, (t, id) ∈ s'.inactiveProposalsQueue ↔ (t, id) ∈ s.inactiveProposalsQueue
  active : ∀ t, (t, id) ∈ s'.activeProposalsQueue ↔ (t, id) ∈ s.activeProposalsQueue
  emergencyQueue :
    ∀ t, (t, id) ∈ s'.emergencyProposalsQueue ↔ (t, id) ∈ s.emergencyProposalsQueue
  emergency : id ∈ s'.emergencyProposals ↔ id ∈ s.emergencyProposals
  votingPeriod : id ∈ s'.votingPeriodProposals ↔ id ∈ s.votingPeriodProposals
  deposits : ∀ d : String, s'.deposits[(id, d)]? = s.deposits[(id, d)]?
  proposalID_le : s.proposalID ≤ s'.proposalID

namespace Untouched

variable {id k : ℕ} {s s₁ s₂ s' : Store} {proposal : Proposal}

@[refl]
theorem refl (s : Store) : Untouched id s s :=
  ⟨rfl, fun _ => .rfl, fun _ => .rfl, fun _ => .rfl, .rfl, .rfl, fun _ => rfl, le_rfl⟩

@[trans]
theorem trans (h₁ : Untouched id s s₁) (h₂ : Untouched id s₁ s₂) : Untouched id s s₂ where
  proposal := h₂.proposal.trans h₁.proposal
  inactive t := (h₂.inactive t).trans (h₁.inactive t)
  active t := (h₂.active t).trans (h₁.active t)
  emergencyQueue t := (h₂.emergencyQueue t).trans (h₁.emergencyQueue t)
  emergency := h₂.emergency.trans h₁.emergency
  votingPeriod := h₂.votingPeriod.trans h₁.votingPeriod
  deposits d := (h₂.deposits d).trans (h₁.deposits d)
  proposalID_le := h₁.proposalID_le.trans h₂.proposalID_le

/-! ### The keeper's writes at another id -/

theorem putProposal (h : proposal.id ≠ id) : Untouched id s (s.putProposal proposal) := by
  constructor <;> simp [Store.putProposal, TreeMap.getElem?_insert, h]

theorem setProposal (h : proposal.id ≠ id) : Untouched id s (s.setProposal proposal) := by
  constructor <;> simp [h]

theorem deleteDeposits (h : k ≠ id) : Untouched id s (s.deleteDeposits k) := by
  constructor <;> simp [Ne.symm h]

theorem recordDeposit (h : k ≠ id) {depositor : String} {amount : Coins} :
    Untouched id s (s.recordDeposit k depositor amount) := by
  constructor <;> simp [Store.recordDeposit, TreeMap.getElem?_insert, h]

theorem removeInactiveKey (h : k ≠ id) : Untouched id s (s.removeInactiveKey proposal k) := by
  unfold Store.removeInactiveKey
  split
  · constructor <;> simp [h]
  · exact refl s

theorem removeVotingKeys (h : k ≠ id) (hs : s.removeVotingKeys proposal k = some s') :
    Untouched id s s' := by
  unfold Store.removeVotingKeys at hs
  split at hs
  · split_ifs at hs
    · obtain ⟨nextTallyTime, -, rfl⟩ := Option.map_eq_some_iff.mp hs
      constructor <;> simp [h]
    · cases hs
      constructor <;> simp [h]
  · cases hs
    exact refl s

theorem eraseProposal (h : k ≠ id) : Untouched id s (s.eraseProposal k) := by
  constructor <;> simp [Store.eraseProposal, TreeMap.getElem?_erase, h]

theorem deleteProposal (h : k ≠ id) (hs : s.deleteProposal k = some s') :
    Untouched id s s' := by
  simp only [Store.deleteProposal, bind, Option.bind_eq_some_iff, pure, Option.some.injEq]
    at hs
  obtain ⟨proposal, -, s₁, hs₁, rfl⟩ := hs
  exact (removeInactiveKey h).trans ((removeVotingKeys h hs₁).trans (eraseProposal h))

theorem activateVotingPeriod (h : proposal.id ≠ id) {params : Params} {now : Time}
    (hs : s.activateVotingPeriod params now proposal = some s') : Untouched id s s' := by
  simp only [Store.activateVotingPeriod, bind, Option.bind_eq_some_iff, pure,
    Option.some.injEq] at hs
  obtain ⟨depositEndTime, -, rfl⟩ := hs
  constructor <;> simp [h]

theorem activateEmergencyProposal (h : proposal.id ≠ id) {params : Params} {now : Time} :
    Untouched id s (s.activateEmergencyProposal params now proposal) := by
  constructor <;> simp [Store.activateEmergencyProposal, h]

theorem activateIfCovered {params : Params} {now : Time} {minDepositAmount : Coins} {b : Bool}
    {proposal' : Proposal}
    (hs : s.activateIfCovered params now k proposal minDepositAmount = some (b, s', proposal'))
    (hk : k ≠ id) (h : proposal.id ≠ id) : Untouched id s s' ∧ proposal'.id ≠ id := by
  unfold Store.activateIfCovered at hs
  split_ifs at hs
  · simp only [bind, Option.bind_eq_some_iff, pure, Option.some.injEq, Prod.mk.injEq] at hs
    obtain ⟨s₁, h₁, proposal₁, hp₁, -, rfl, rfl⟩ := hs
    -- the proposal is read back from the store, under its id
    refine ⟨activateVotingPeriod h h₁, ?_⟩
    rw [Store.id_of_getElem? hp₁]
    exact hk
  · simp only [Option.some.injEq, Prod.mk.injEq] at hs
    obtain ⟨-, rfl, rfl⟩ := hs
    exact ⟨refl s, h⟩

theorem convertToEmergency (h : proposal.id ≠ id) {params : Params} {now : Time}
    {depositor : String} : Untouched id s (s.convertToEmergency params now proposal depositor) := by
  unfold Store.convertToEmergency
  split_ifs
  · exact activateEmergencyProposal h
  · exact refl s

theorem addDeposit (hk : k ≠ id) {params : Params} {now : Time} {depositor : String}
    {amount : Coins} {b : Bool} (hs : s.addDeposit params now k depositor amount = some (b, s')) :
    Untouched id s s' := by
  obtain ⟨proposal, hp, -, -, -, s₁, proposal₁, h₁, rfl⟩ := Store.addDeposit_eq_some.mp hs
  have hid : proposal.id ≠ id := by
    rw [Store.id_of_getElem? hp]
    exact hk
  obtain ⟨hs₁, hid₁⟩ := activateIfCovered h₁ hk hid
  have h₀ : Untouched id s
      (s.setProposal { proposal with totalDeposit := proposal.totalDeposit + amount }) :=
    setProposal hid
  exact h₀.trans (hs₁.trans ((convertToEmergency hid₁).trans (recordDeposit hk)))

theorem submitProposal (h : s.proposalID ≠ id) {params : Params} {now : Time}
    {proposer : String} {expedited : Bool} :
    Untouched id s (s.submitProposal params now proposer expedited).1 := by
  constructor <;> simp [Store.submitProposal, h]

theorem cancelProposal (hk : k ≠ id) {now : Time} {proposer : String}
    (hs : s.cancelProposal now k proposer = some s') : Untouched id s s' := by
  obtain ⟨proposal, hp, -, -, -, -, h₁⟩ := Store.cancelProposal_eq_some.mp hs
  have hid : proposal.id ≠ id := by
    rw [Store.id_of_getElem? hp]
    exact hk
  exact (deleteDeposits hid).trans (deleteProposal hid h₁)

/-! ### The message handlers at another id -/

theorem msgSubmitProposal (h : s.proposalID ≠ id) {params : Params} {now : Time}
    {proposer title summary : String} {expedited : Bool} {initialDeposit : Coins} {k : ℕ}
    (hs : MsgServer.submitProposal s params now proposer title summary expedited
      initialDeposit = some (k, s')) :
    Untouched id s s' := by
  obtain ⟨-, -, -, -, -, b, h₁⟩ := MsgServer.submitProposal_eq_some.mp hs
  exact (submitProposal h).trans (addDeposit h h₁)

theorem msgDeposit (hk : k ≠ id) {params : Params} {now : Time} {depositor : String}
    {amount : Coins} (hs : MsgServer.deposit s params now k depositor amount = some s') :
    Untouched id s s' := by
  obtain ⟨-, b, h₁⟩ := MsgServer.deposit_eq_some.mp hs
  exact addDeposit hk h₁

theorem msgActivateEmergencyProposal (hk : k ≠ id) {params : Params} {now : Time}
    {sender : String} (hs : MsgServer.activateEmergencyProposal s params now k sender = some s') :
    Untouched id s s' := by
  obtain ⟨proposal, hp, -, -, -, -, rfl⟩ := MsgServer.activateEmergencyProposal_eq_some.mp hs
  refine activateEmergencyProposal ?_
  rw [Store.id_of_getElem? hp]
  exact hk

/-! ### The end of block at another id -/

theorem settleDeposits (h : proposal.id ≠ id) (passed : Bool) :
    Untouched id s (s.settleDeposits proposal passed) := by
  unfold Store.settleDeposits
  split_ifs
  · exact deleteDeposits h
  · exact refl s

theorem dequeueTallied (h : proposal.id ≠ id) {passed : Bool} {proposal' : Proposal}
    (hs : s.dequeueTallied proposal passed = some (s', proposal')) :
    Untouched id s s' ∧ proposal'.id = proposal.id := by
  unfold Store.dequeueTallied at hs
  simp only [bind, Option.bind_eq_some_iff] at hs
  obtain ⟨votingEndTime, -, hs⟩ := hs
  refine ⟨(settleDeposits h passed).trans ?_, ?_⟩ <;> split_ifs at hs
  · obtain ⟨nextTallyTime, -, hs⟩ := Option.map_eq_some_iff.mp hs
    simp only [Prod.mk.injEq] at hs
    obtain ⟨rfl, -⟩ := hs
    constructor <;> simp [h]
  · simp only [Option.some.injEq, Prod.mk.injEq] at hs
    obtain ⟨rfl, -⟩ := hs
    constructor <;> simp [h]
  · obtain ⟨nextTallyTime, -, hs⟩ := Option.map_eq_some_iff.mp hs
    simp only [Prod.mk.injEq] at hs
    obtain ⟨-, rfl⟩ := hs
    rfl
  · simp only [Option.some.injEq, Prod.mk.injEq] at hs
    obtain ⟨-, rfl⟩ := hs
    rfl

theorem recordTally (h : proposal.id ≠ id) {params : Params}
    {execute : Proposal → Except String Unit} {passed : Bool}
    (hs : s.recordTally params execute proposal passed = some s') : Untouched id s s' := by
  unfold Store.recordTally at hs
  split_ifs at hs
  · split at hs <;>
    · simp only [Option.some.injEq] at hs
      subst hs
      exact setProposal h
  · -- the expedited proposal goes back on the active queue before it is stored
    obtain ⟨votingStartTime, -, rfl⟩ := Option.map_eq_some_iff.mp hs
    constructor <;> simp [h]
  · simp only [Option.some.injEq] at hs
    subst hs
    exact setProposal h

theorem handleTallyResult (h : proposal.id ≠ id) {params : Params}
    {execute : Proposal → Except String Unit} {passed : Bool}
    (hs : s.handleTallyResult params execute proposal passed = some s') : Untouched id s s' := by
  simp only [Store.handleTallyResult, bind, Option.bind_eq_some_iff] at hs
  obtain ⟨⟨s₁, proposal₁⟩, h₁, h₂⟩ := hs
  obtain ⟨hu, hid⟩ := dequeueTallied h h₁
  exact hu.trans (recordTally (hid ▸ h) h₂)

theorem dropInactive {key : Time × ℕ} (hk : key.2 ≠ id) (hs : s.dropInactive key = some s') :
    Untouched id s s' := by
  simp only [Store.dropInactive, bind, Option.bind_eq_some_iff, pure, Option.some.injEq] at hs
  obtain ⟨proposal, hp, s₁, h₁, rfl⟩ := hs
  have hid : proposal.id ≠ id := by
    rw [Store.id_of_getElem? hp]
    exact hk
  exact (deleteProposal hid h₁).trans (deleteDeposits hid)

theorem tallyActive {key : Time × ℕ} (hk : key.2 ≠ id) {params : Params}
    {tally : Proposal → TallyOutcome} {execute : Proposal → Except String Unit}
    (hs : s.tallyActive params tally execute key = some s') : Untouched id s s' := by
  simp only [Store.tallyActive, bind, Option.bind_eq_some_iff] at hs
  obtain ⟨proposal, hp, hs⟩ := hs
  have hid : proposal.id ≠ id := by
    rw [Store.id_of_getElem? hp]
    exact hk
  split_ifs at hs
  · simp only [pure, Option.some.injEq] at hs
    subst hs
    exact refl s
  · exact handleTallyResult hid hs

theorem rescheduleEmergency {key : Time × ℕ} (h : proposal.id ≠ id) (hk : key.2 ≠ id)
    {params : Params} {now votingEndTime : Time} :
    Untouched id s (s.rescheduleEmergency params now proposal votingEndTime key) := by
  obtain ⟨keyTime, keyID⟩ := key
  simp only at hk
  constructor <;> simp [Store.rescheduleEmergency, Store.putProposal, TreeMap.getElem?_insert, h,
    hk]

theorem tallyEmergency {key : Time × ℕ} (hk : key.2 ≠ id) {params : Params}
    {tally : Proposal → TallyOutcome} {execute : Proposal → Except String Unit} {now : Time}
    (hs : s.tallyEmergency params tally execute now key = some s') : Untouched id s s' := by
  simp only [Store.tallyEmergency, bind, Option.bind_eq_some_iff] at hs
  obtain ⟨proposal, hp, votingEndTime, -, hs⟩ := hs
  have hid : proposal.id ≠ id := by
    rw [Store.id_of_getElem? hp]
    exact hk
  split_ifs at hs
  · simp only [pure, Option.some.injEq] at hs
    subst hs
    exact rescheduleEmergency hid hk
  · exact handleTallyResult hid hs

/-- A walk leaves `id` untouched when each of its visits, from a store that still holds for `id`
what the walk started from, does. -/
theorem foldlM {f : Store → Time × ℕ → Option Store} {keys : List (Time × ℕ)}
    (hf : ∀ b key, key ∈ keys → Untouched id s b → ∀ b', f b key = some b' → Untouched id b b')
    (hs : keys.foldlM f s = some s') : Untouched id s s' :=
  List.foldlM_option_rec (Untouched id s) (refl s)
    (fun b hb key hkey b' h => hb.trans (hf b key hkey hb b' h)) hs

end Untouched

end Initia.Gov
