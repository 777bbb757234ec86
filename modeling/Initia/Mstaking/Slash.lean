import Mathlib
import Initia.Mstaking.Validator

/-!
# Slashing unbonding delegations and redelegations

When a validator is slashed for an infraction at a past height, the stake that left it after
that height is slashed too: every unbonding delegation from it (`SlashUnbondingDelegation`) and
every redelegation away from it (`SlashRedelegation`), each entry by the slash factor times the
entry's initial balance, truncated.

An unbonding entry gives up at most its balance. A redelegation entry first takes the slash out
of the delegator's unbonding entries at the destination validator (stake that was redelegated
and then undelegated), and then, if anything of the slash amount is left, unbonds
`SharesDst × slashFactor` shares of the delegation at the destination: the shares to unbond do
not shrink by what the unbonding entries gave. After a partial undelegation at the destination,
the two together burn more than the slash amount (`slashRedelegation_overburns`).

The store holds what these functions read and write: validators, delegations and unbonding
delegations by address, and the balances of the bonded and not-bonded pools, from which a burn
takes its coins. Addresses are numbers and times are integers.

Source: `x/mstaking/keeper/slash.go` (`SlashUnbondingDelegation`, `SlashRedelegation`),
`x/mstaking/keeper/delegation.go` (`Unbond`), `x/mstaking/keeper/pool.go` (`burnBondedTokens`,
`burnNotBondedTokens`), `x/mstaking/types/delegation.go`.
-/

namespace Initia.Mstaking

open Initia.Sdk Std

/-- `Delegation`. -/
structure Delegation where
  delegatorAddress : ℕ
  validatorAddress : ℕ
  shares : DecCoins
  deriving DecidableEq

/-- `UnbondingDelegationEntry`. -/
structure UnbondingDelegationEntry where
  creationHeight : ℤ
  completionTime : ℤ
  initialBalance : Coins
  balance : Coins
  unbondingId : ℕ
  unbondingOnHoldRefCount : ℤ
  deriving DecidableEq

/-- `UnbondingDelegation`. -/
structure UnbondingDelegation where
  delegatorAddress : ℕ
  validatorAddress : ℕ
  entries : List UnbondingDelegationEntry
  deriving DecidableEq

/-- `RedelegationEntry`. -/
structure RedelegationEntry where
  creationHeight : ℤ
  completionTime : ℤ
  initialBalance : Coins
  sharesDst : DecCoins
  unbondingId : ℕ
  unbondingOnHoldRefCount : ℤ
  deriving DecidableEq

/-- `Redelegation`. -/
structure Redelegation where
  delegatorAddress : ℕ
  validatorSrcAddress : ℕ
  validatorDstAddress : ℕ
  entries : List RedelegationEntry
  deriving DecidableEq

/-- `IsMature`: the completion time is not after `now`. -/
def UnbondingDelegationEntry.isMature (e : UnbondingDelegationEntry) (now : ℤ) : Bool :=
  e.completionTime ≤ now

/-- `OnHold`. -/
def UnbondingDelegationEntry.onHold (e : UnbondingDelegationEntry) : Bool :=
  0 < e.unbondingOnHoldRefCount

/-- `IsMature`: the completion time is not after `now`. -/
def RedelegationEntry.isMature (e : RedelegationEntry) (now : ℤ) : Bool :=
  e.completionTime ≤ now

/-- `OnHold`. -/
def RedelegationEntry.onHold (e : RedelegationEntry) : Bool :=
  0 < e.unbondingOnHoldRefCount

/-- The collections of the staking keeper that slashing reads and writes, and the balances of
its two pools. -/
structure Store where
  validators : TreeMap ℕ Validator compare
  /-- Keyed by delegator and validator. -/
  delegations : TreeMap (ℕ × ℕ) Delegation compare
  /-- Keyed by delegator and validator. -/
  unbondingDelegations : TreeMap (ℕ × ℕ) UnbondingDelegation compare
  bondedPool : Coins
  notBondedPool : Coins

namespace Store

/-- `BurnCoins` from a pool: the burn fails when the pool does not hold the coins. A burn of
coins with a negative amount is skipped, as `burnBondedTokens` and `burnNotBondedTokens` do. -/
def burnTokens (pool tokens : Coins) : Option Coins :=
  if tokens.isAnyNegative then some pool else pool.sub tokens

/-- `burnBondedTokens`. -/
def burnBondedTokens (s : Store) (tokens : Coins) : Option Store := do
  let pool ← burnTokens s.bondedPool tokens
  some { s with bondedPool := pool }

/-- `burnNotBondedTokens`. -/
def burnNotBondedTokens (s : Store) (tokens : Coins) : Option Store := do
  let pool ← burnTokens s.notBondedPool tokens
  some { s with notBondedPool := pool }

/-- `Unbond`: the shares leave the delegation, which is removed when none are left, and leave
the validator, which issues their worth in tokens; an unbonded validator left without shares is
removed. Fewer shares in the delegation than asked is an error. -/
def unbond (s : Store) (delAddr valAddr : ℕ) (shares : DecCoins) : Option (Store × Coins) := do
  let delegation ← s.delegations[(delAddr, valAddr)]?
  if (DecCoins.safeSub delegation.shares shares).2 then none
  else
    let validator ← s.validators[valAddr]?
    let remaining := delegation.shares - shares
    let delegations :=
      if remaining.isZero then s.delegations.erase (delAddr, valAddr)
      else s.delegations.insert (delAddr, valAddr) { delegation with shares := remaining }
    let (validator, amount) ← validator.removeDelShares shares
    let validators :=
      if validator.delegatorShares.isZero && validator.isUnbonded then s.validators.erase valAddr
      else s.validators.insert valAddr validator
    some ({ s with delegations, validators }, amount)

/-! ### `SlashUnbondingDelegation` -/

/-- One entry in `SlashUnbondingDelegation`: unless it started before the infraction or has
matured off hold, it is slashed by the factor times its initial balance, truncated, but gives up
no more than its balance. The accumulator is the total slash amount and the amount burned. -/
def slashUnbondingEntry (now infractionHeight : ℤ) (slashFactor : LegacyDec)
    (acc : Coins × Coins) (entry : UnbondingDelegationEntry) :
    Option ((Coins × Coins) × UnbondingDelegationEntry) :=
  let (totalSlashAmount, burnedAmount) := acc
  if entry.creationHeight < infractionHeight then some (acc, entry)
  else if entry.isMature now && !entry.onHold then some (acc, entry)
  else do
    let (slashAmount, _) ← (entry.initialBalance.toDecCoins.mulDec slashFactor).truncateDecimal
    let totalSlashAmount := totalSlashAmount + slashAmount
    -- the positive part of the smaller of the slash amount and the balance, coin by coin
    let unbondingSlashAmount := slashAmount.mapNonzero fun denom amount =>
      max 0 (min amount (entry.balance.amountOf denom))
    if unbondingSlashAmount.isZero then some ((totalSlashAmount, burnedAmount), entry)
    else do
      let balance ← entry.balance.sub unbondingSlashAmount
      some ((totalSlashAmount, burnedAmount + unbondingSlashAmount), { entry with balance })

/-- The loop of `SlashUnbondingDelegation` over the entries, with the entries it leaves. -/
def slashUnbondingEntries (now infractionHeight : ℤ) (slashFactor : LegacyDec) :
    Coins × Coins → List UnbondingDelegationEntry →
      Option ((Coins × Coins) × List UnbondingDelegationEntry)
  | acc, [] => some (acc, [])
  | acc, entry :: entries => do
    let (acc, entry) ← slashUnbondingEntry now infractionHeight slashFactor acc entry
    let (acc, entries) ← slashUnbondingEntries now infractionHeight slashFactor acc entries
    some (acc, entry :: entries)

/-- `SlashUnbondingDelegation`: slash every entry, store what they are left with, burn what
they gave up from the not-bonded pool, and return the total slash amount. -/
def slashUnbondingDelegation (s : Store) (now : ℤ) (unbondingDelegation : UnbondingDelegation)
    (infractionHeight : ℤ) (slashFactor : LegacyDec) : Option (Store × Coins) := do
  let ((totalSlashAmount, burnedAmount), entries) ←
    slashUnbondingEntries now infractionHeight slashFactor (0, 0) unbondingDelegation.entries
  let key := (unbondingDelegation.delegatorAddress, unbondingDelegation.validatorAddress)
  let s := { s with
    unbondingDelegations := s.unbondingDelegations.insert key { unbondingDelegation with entries } }
  let s ← s.burnNotBondedTokens burnedAmount
  some (s, totalSlashAmount)

/-! ### `SlashRedelegation` -/

/-- One entry of the delegator's unbonding delegation at the destination, in
`SlashRedelegation`: it gives up what it can of the slash amount still left, unless it holds
nothing of it, started before the infraction, or has matured off hold. The accumulator is the
slash amount left and the amount to burn from the not-bonded pool. -/
def slashDstUnbondingEntry (now infractionHeight : ℤ) (acc : Coins × Coins)
    (entry : UnbondingDelegationEntry) : (Coins × Coins) × UnbondingDelegationEntry :=
  let (slashAmount, notBondedBurnedAmount) := acc
  let unbondingSlashAmount := slashAmount.min entry.balance
  if unbondingSlashAmount.isZero then (acc, entry)
  else if entry.creationHeight < infractionHeight then (acc, entry)
  else if entry.isMature now && !entry.onHold then (acc, entry)
  else ((slashAmount - unbondingSlashAmount, notBondedBurnedAmount + unbondingSlashAmount),
    { entry with balance := entry.balance - unbondingSlashAmount })

/-- The loop over the entries of the unbonding delegation at the destination. -/
def slashDstUnbondingEntries (now infractionHeight : ℤ) :
    Coins × Coins → List UnbondingDelegationEntry → (Coins × Coins) × List UnbondingDelegationEntry
  | acc, [] => (acc, [])
  | acc, entry :: entries =>
    let (acc, entry) := slashDstUnbondingEntry now infractionHeight acc entry
    let (acc, entries) := slashDstUnbondingEntries now infractionHeight acc entries
    (acc, entry :: entries)

/-- What `SlashRedelegation` carries from entry to entry. -/
structure RedelegationSlash where
  store : Store
  totalSlashAmount : Coins
  bondedBurnedAmount : Coins
  notBondedBurnedAmount : Coins

/-- One entry in `SlashRedelegation`. Unless it started before the infraction or has matured off
hold, its slash amount is the factor times its initial balance, truncated; the delegator's
unbonding entries at the destination give up what they can of it, and if anything is left, the
factor times the entry's destination shares, capped by the delegation, are unbonded and their
tokens burned from the pool of the destination's status. -/
def slashRedelegationEntry (now infractionHeight : ℤ) (slashFactor : LegacyDec)
    (delAddr valDstAddr : ℕ) (acc : RedelegationSlash) (entry : RedelegationEntry) :
    Option RedelegationSlash :=
  if entry.creationHeight < infractionHeight then some acc
  else if entry.isMature now && !entry.onHold then some acc
  else do
    let (slashAmount, _) ← (entry.initialBalance.toDecCoins.mulDec slashFactor).truncateDecimal
    let acc := { acc with totalSlashAmount := acc.totalSlashAmount + slashAmount }
    -- undelegations after the redelegation are slashed first
    let (acc, slashAmount) :=
      match acc.store.unbondingDelegations[(delAddr, valDstAddr)]? with
      | none => (acc, slashAmount)
      | some unbondingDelegation =>
        let ((slashAmount, notBondedBurnedAmount), entries) :=
          slashDstUnbondingEntries now infractionHeight (slashAmount, acc.notBondedBurnedAmount)
            unbondingDelegation.entries
        ({ acc with
          store := { acc.store with
            unbondingDelegations := acc.store.unbondingDelegations.insert (delAddr, valDstAddr)
              { unbondingDelegation with entries } }
          notBondedBurnedAmount }, slashAmount)
    if slashAmount.isZero then some acc
    else
      let sharesToUnbond := entry.sharesDst.mulDec slashFactor
      if sharesToUnbond.isZero then some acc
      else
        match acc.store.delegations[(delAddr, valDstAddr)]? with
        | none => some acc
        | some delegation => do
          let sharesToUnbond := sharesToUnbond.mapNonzero fun denom share =>
            min share (delegation.shares.amountOf denom)
          let (store, tokensToBurn) ← acc.store.unbond delAddr valDstAddr sharesToUnbond
          let dstValidator ← store.validators[valDstAddr]?
          if dstValidator.isBonded then
            some { acc with store, bondedBurnedAmount := acc.bondedBurnedAmount + tokensToBurn }
          else if dstValidator.isUnbonded || dstValidator.isUnbonding then
            some { acc with store, notBondedBurnedAmount := acc.notBondedBurnedAmount + tokensToBurn }
          else none

/-- `SlashRedelegation`: slash every entry, burn from both pools, and return the total slash
amount. -/
def slashRedelegation (s : Store) (now : ℤ) (redelegation : Redelegation) (infractionHeight : ℤ)
    (slashFactor : LegacyDec) : Option (Store × Coins) := do
  let acc ← redelegation.entries.foldlM
    (slashRedelegationEntry now infractionHeight slashFactor redelegation.delegatorAddress
      redelegation.validatorDstAddress) ⟨s, 0, 0, 0⟩
  let s ← acc.store.burnBondedTokens acc.bondedBurnedAmount
  let s ← s.burnNotBondedTokens acc.notBondedBurnedAmount
  some (s, acc.totalSlashAmount)

/-! ### What the unbonding entries at the destination give up -/

/-- One entry at the destination moves what it gives up from the slash amount left to the
not-bonded burn, and from its own balance. -/
theorem slashDstUnbondingEntry_moves (now infractionHeight : ℤ) (acc : Coins × Coins)
    (entry : UnbondingDelegationEntry) :
    let r := slashDstUnbondingEntry now infractionHeight acc entry
    r.1.1 + r.1.2 = acc.1 + acc.2 ∧ r.2.balance + (r.1.2 - acc.2) = entry.balance := by
  obtain ⟨slashAmount, burned⟩ := acc
  simp only [slashDstUnbondingEntry]
  -- the entry gives up `slashAmount.min entry.balance` or nothing
  split_ifs <;> dsimp only <;> constructor <;> abel

/-- The unbonding entries at the destination together give up exactly what the slash amount
loses: what is left of it and what goes to the not-bonded burn add up to what there was, and
the balances drop by what goes to the burn. -/
theorem slashDstUnbondingEntries_moves (now infractionHeight : ℤ) :
    ∀ (entries : List UnbondingDelegationEntry) (acc : Coins × Coins),
      let r := slashDstUnbondingEntries now infractionHeight acc entries
      r.1.1 + r.1.2 = acc.1 + acc.2 ∧
        (r.2.map (·.balance)).sum + (r.1.2 - acc.2) = (entries.map (·.balance)).sum
  | [], acc => by simp [slashDstUnbondingEntries]
  | entry :: entries, acc => by
    obtain ⟨hstep, hbal⟩ := slashDstUnbondingEntry_moves now infractionHeight acc entry
    obtain ⟨hrun, hbals⟩ := slashDstUnbondingEntries_moves now infractionHeight entries
      (slashDstUnbondingEntry now infractionHeight acc entry).1
    refine ⟨hrun.trans hstep, ?_⟩
    simp only [slashDstUnbondingEntries, List.map_cons, List.sum_cons]
    rw [← hbal, ← hbals]
    abel

end Store

/-- The destination validator of the example: bonded, with 80 `uinit` for 80 shares. -/
def overburnValidator : Validator :=
  ⟨20, 0, false, .bonded, .single "uinit" 80, .single "uinit" (Fixed.ofInt 80), 0, 0, 0, 0, 0, 0, 0⟩

/-- Delegator 1 redelegated 100 `uinit` from validator 10 to validator 20 at height 5, and then
undelegated 20 of them from validator 20. -/
def overburnStore : Store where
  validators := (∅ : TreeMap ℕ Validator compare).insert 20 overburnValidator
  delegations := (∅ : TreeMap (ℕ × ℕ) Delegation compare).insert (1, 20)
    ⟨1, 20, .single "uinit" (Fixed.ofInt 80)⟩
  unbondingDelegations := (∅ : TreeMap (ℕ × ℕ) UnbondingDelegation compare).insert (1, 20)
    ⟨1, 20, [⟨5, 100, .single "uinit" 20, .single "uinit" 20, 0, 0⟩]⟩
  bondedPool := .single "uinit" 80
  notBondedPool := .single "uinit" 20

/-- The redelegation of the example. -/
def overburnRedelegation : Redelegation :=
  ⟨1, 10, 20, [⟨5, 100, .single "uinit" 100, .single "uinit" (Fixed.ofInt 100), 0, 0⟩]⟩

/-- Slashing the redelegation by one half for an infraction at height 3, at time 50: the slash
amount is 50 `uinit`; the unbonding entry gives up its 20, and 50 of the 80 delegated shares are
still unbonded, so the two pools lose 70 `uinit`. -/
theorem slashRedelegation_overburns :
    (Store.slashRedelegation overburnStore 50 overburnRedelegation 3 ⟨5 * 10 ^ 17⟩).map
      (fun r => (overburnStore.bondedPool - r.1.bondedPool +
        (overburnStore.notBondedPool - r.1.notBondedPool), r.2)) =
      some (.single "uinit" 70, .single "uinit" 50) := by
  decide +kernel

end Initia.Mstaking
