import Mathlib
import Initia.Sdk.Coins

/-!
# Validators of the multi-token staking module

A validator holds tokens of several bond denominations and has issued delegator shares per
denomination; each denomination has its own exchange rate `Tokens / DelegatorShares`. The
functions here are the value-level ones of `types/validator.go`: the conversions between shares
and tokens, and the changes a delegation and an unbonding make to a validator.

Each conversion is a loop over the denominations that panics on a zero divisor or a negative
amount, and keeps only the positive results (`Amounts.mapNonzeroM`). `InvalidExRate` loops over
the entries of `Tokens`, which as coins never hold a zero amount, so it never fires
(`invalidExRate_eq_false`); the exchange rate of a denomination with shares but no tokens is then
reset to one by the next delegation.

The rounding of a delegation followed by the unbonding of the very shares it issued favours the
validator, and lowers no other holder's worth, as long as every denomination has tokens exactly
when it has shares (`ExchangeRateValid`): the shares a bond issues are rounded down, so the rate
`tokens / shares` never drops, and worth is monotone in that rate (`tokensFromShares_mono`). A single unbonding of another holder can lower
the worth of the remaining shares by a unit of the last decimal place: its tokens are rounded
half to even at eighteen decimals before they are truncated.
-/

namespace Initia.Mstaking

open Initia.Sdk

/-- `BondStatus`. -/
inductive BondStatus where
  | unspecified
  | unbonded
  | unbonding
  | bonded
  deriving DecidableEq, Repr

/-- `Validator`, without the description. Addresses and the consensus key are numbers. -/
structure Validator where
  operatorAddress : ℕ
  consensusPubkey : ℕ
  jailed : Bool
  status : BondStatus
  tokens : Coins
  delegatorShares : DecCoins
  unbondingHeight : ℤ
  unbondingTime : ℤ
  commissionRate : LegacyDec
  votingPowers : Coins
  votingPower : ℤ
  unbondingOnHoldRefCount : ℤ
  unbondingId : ℕ
  deriving DecidableEq

namespace Validator

variable (v : Validator)

def isBonded : Bool := v.status = .bonded

def isUnbonded : Bool := v.status = .unbonded

def isUnbonding : Bool := v.status = .unbonding

/-- `InvalidExRate`: some entry of `Tokens` is zero while its denomination has shares. -/
def invalidExRate : Bool :=
  v.tokens.toList.any fun t => t.2 = 0 && decide (0 < v.delegatorShares.amountOf t.1)

/-- The entries of `Tokens` are never zero, so the check never fires. -/
theorem invalidExRate_eq_false : v.invalidExRate = false := by
  rw [invalidExRate, List.any_eq_false]
  intro t ht
  have := (Amounts.mem_toList_iff.mp ht).2
  simp [this]

/-! ### Shares and tokens -/

/-- The token worth of `share` shares of `denom`, rounded half to even. -/
def tokenFromShare (denom : String) (share : LegacyDec) : Option LegacyDec := do
  let x ← (share.mulInt (v.tokens.amountOf denom)).quo (v.delegatorShares.amountOf denom)
  if x < 0 then none else some x

/-- `TokensFromShares`. -/
def tokensFromShares (shares : DecCoins) : Option DecCoins :=
  shares.mapNonzeroM v.tokenFromShare

/-- The token worth of `share` shares of `denom`, truncated. -/
def tokenFromShareTruncated (denom : String) (share : LegacyDec) : Option LegacyDec := do
  let x ← (share.mulInt (v.tokens.amountOf denom)).quoTruncate (v.delegatorShares.amountOf denom)
  if x < 0 then none else some x

/-- `TokensFromSharesTruncated`. -/
def tokensFromSharesTruncated (shares : DecCoins) : Option DecCoins :=
  shares.mapNonzeroM v.tokenFromShareTruncated

/-- `ShareFromToken`: the shares a bond of `amount` tokens of `denom` buys. The first bond of a
denomination sets its exchange rate to one. -/
def shareFromToken (denom : String) (amount : ℤ) : Option LegacyDec :=
  let totalAmount := v.tokens.amountOf denom
  if totalAmount = 0 then
    if amount < 0 then none else some (Fixed.ofInt amount)
  else do
    let x ← ((v.delegatorShares.amountOf denom).mulInt amount).quoInt totalAmount
    if x < 0 then none else some x

/-- `SharesFromTokens`. -/
def sharesFromTokens (tokens : Coins) : Option DecCoins :=
  tokens.mapNonzeroM v.shareFromToken

/-- `AddTokensFromDel`: bond `amounts`, issuing shares at the current exchange rates. -/
def addTokensFromDel (amounts : Coins) : Option (Validator × DecCoins) := do
  let issuedShares ← amounts.mapNonzeroM v.shareFromToken
  some ({ v with tokens := v.tokens + amounts, delegatorShares := v.delegatorShares + issuedShares },
    issuedShares)

/-- `RemoveTokens`. -/
def removeTokens (tokens : Coins) : Option Validator :=
  if tokens.isAnyNegative then none
  else if !v.tokens.isAllGTE tokens then none
  else do
    let t ← v.tokens.sub tokens
    some { v with tokens := t }

/-- `RemoveDelShares`: the shares go, and their worth, truncated, is issued; the holder of the
last shares gets every token left. -/
def removeDelShares (delShares : DecCoins) : Option (Validator × Coins) := do
  let remainingShares ← v.delegatorShares.sub delShares
  if remainingShares.isZero then
    some ({ v with tokens := 0, delegatorShares := remainingShares }, v.tokens)
  else
    let worth ← v.tokensFromShares delShares
    let (issuedTokens, _) ← worth.truncateDecimal
    let tokens ← v.tokens.sub issuedTokens
    some ({ v with tokens := tokens, delegatorShares := remainingShares }, issuedTokens)

/-! ### Rounding of a delegation and an unbonding -/

/-- Every denomination has tokens exactly when it has shares, and neither is negative. -/
structure ExchangeRateValid : Prop where
  tokens_nonneg : ∀ d, 0 ≤ v.tokens.amountOf d
  shares_nonneg : ∀ d, 0 ≤ (v.delegatorShares.amountOf d).raw
  tokens_pos_iff : ∀ d, 0 < v.tokens.amountOf d ↔ 0 < (v.delegatorShares.amountOf d).raw

/-- The shares `ShareFromToken` issues for a non-negative bond, when it does not panic. -/
def shareAmount (denom : String) (amount : ℤ) : LegacyDec :=
  if v.tokens.amountOf denom = 0 then Fixed.ofInt amount
  else ⟨((v.delegatorShares.amountOf denom).raw * amount).tdiv (v.tokens.amountOf denom)⟩

variable {v}

theorem ExchangeRateValid.tokens_eq_zero_iff (hv : v.ExchangeRateValid) (d : String) :
    v.tokens.amountOf d = 0 ↔ v.delegatorShares.amountOf d = 0 := by
  have h1 := hv.tokens_nonneg d
  have h2 := hv.shares_nonneg d
  have h3 := hv.tokens_pos_iff d
  rw [← Fixed.raw_injective.eq_iff, Fixed.raw_zero]
  omega

theorem shareAmount_nonneg (hv : v.ExchangeRateValid) {d : String} {a : ℤ} (ha : 0 ≤ a) :
    0 ≤ (v.shareAmount d a).raw := by
  unfold shareAmount
  split_ifs with hT
  · simpa using mul_nonneg ha (Fixed.scale_pos 18).le
  · rw [Int.tdiv_eq_ediv_of_nonneg (mul_nonneg (hv.shares_nonneg d) ha)]
    exact Int.ediv_nonneg (mul_nonneg (hv.shares_nonneg d) ha) (hv.tokens_nonneg d)

/-- The shares issued are at most the exact `amount · shares / tokens`. -/
theorem shareAmount_mul_le (hv : v.ExchangeRateValid) {d : String} {a : ℤ} (ha : 0 ≤ a)
    (hT : v.tokens.amountOf d ≠ 0) :
    (v.shareAmount d a).raw * v.tokens.amountOf d ≤ (v.delegatorShares.amountOf d).raw * a := by
  have hS := mul_nonneg (hv.shares_nonneg d) ha
  rw [shareAmount, if_neg hT, Int.tdiv_eq_ediv_of_nonneg hS]
  exact Int.ediv_mul_le _ hT

theorem shareFromToken_eq (hv : v.ExchangeRateValid) {d : String} {a : ℤ} (ha : 0 ≤ a) :
    v.shareFromToken d a = some (v.shareAmount d a) := by
  have h0 := shareAmount_nonneg hv (d := d) ha
  by_cases hT : v.tokens.amountOf d = 0
  · simp [shareFromToken, shareAmount, hT, not_lt.mpr ha]
  · -- the quotient is the `shareAmount`, and is not negative
    rw [shareAmount, if_neg hT] at h0
    simp [shareFromToken, shareAmount, hT, Fixed.quoInt, Fixed.lt_def, not_lt.mpr h0]

/-- A bond issues the shares `shareAmount` and adds both the bond and the shares. -/
theorem addTokensFromDel_eq (hv : v.ExchangeRateValid) {a : Coins} (ha : ∀ d, 0 ≤ a.amountOf d) :
    v.addTokensFromDel a = some ({ v with
        tokens := v.tokens + a
        delegatorShares := v.delegatorShares + Amounts.mapNonzero v.shareAmount a },
      Amounts.mapNonzero v.shareAmount a) := by
  rw [addTokensFromDel, Amounts.mapNonzeroM_eq_some fun d _ => shareFromToken_eq hv (ha d)]
  rfl

theorem tokenFromShare_eq {d : String} {s : LegacyDec} (hs : 0 ≤ s.raw)
    (hT : 0 ≤ v.tokens.amountOf d) (hS : 0 < (v.delegatorShares.amountOf d).raw) :
    v.tokenFromShare d s =
      some ⟨Fixed.quoRaw 18 (s.raw * v.tokens.amountOf d) (v.delegatorShares.amountOf d).raw⟩ := by
  have h0 := Fixed.quoRaw_nonneg (p := 18) (mul_nonneg hs hT) hS
  simp [tokenFromShare, Fixed.quo_of_pos hS, Fixed.lt_def, not_lt.mpr h0]

/-- The worth of shares whose denominations all have shares, at a validator whose tokens are
non-negative. -/
theorem tokensFromShares_eq {x : DecCoins}
    (hx : ∀ d, x.amountOf d ≠ 0 → 0 ≤ (x.amountOf d).raw ∧ 0 ≤ v.tokens.amountOf d ∧
      0 < (v.delegatorShares.amountOf d).raw) :
    v.tokensFromShares x = some (x.mapNonzero fun d s =>
      ⟨Fixed.quoRaw 18 (s.raw * v.tokens.amountOf d) (v.delegatorShares.amountOf d).raw⟩) := by
  refine Amounts.mapNonzeroM_eq_some fun d hd => ?_
  obtain ⟨hs, hT, hS⟩ := hx d hd
  exact tokenFromShare_eq hs hT hS

/-- Worth is monotone in the exchange rate: at a validator `w` whose rate `tokens / shares` is
at least `v`'s in every denomination the shares `x` hold, they are worth at least as much. -/
theorem tokensFromShares_mono {w : Validator} {x : DecCoins}
    (hx : ∀ d, x.amountOf d ≠ 0 → 0 ≤ (x.amountOf d).raw ∧ 0 ≤ v.tokens.amountOf d ∧
      0 < (v.delegatorShares.amountOf d).raw ∧ 0 < (w.delegatorShares.amountOf d).raw ∧
      v.tokens.amountOf d * (w.delegatorShares.amountOf d).raw ≤
        w.tokens.amountOf d * (v.delegatorShares.amountOf d).raw) :
    ∃ y y', v.tokensFromShares x = some y ∧ w.tokensFromShares x = some y' ∧
      ∀ d, y.amountOf d ≤ y'.amountOf d := by
  have hwT : ∀ d, x.amountOf d ≠ 0 → 0 ≤ w.tokens.amountOf d := fun d hd => by
    obtain ⟨-, hT, hS, hS', hle⟩ := hx d hd
    nlinarith
  refine ⟨_, _, tokensFromShares_eq fun d hd => ⟨(hx d hd).1, (hx d hd).2.1, (hx d hd).2.2.1⟩,
    tokensFromShares_eq fun d hd => ⟨(hx d hd).1, hwT d hd, (hx d hd).2.2.2.1⟩, fun d => ?_⟩
  rw [Amounts.amountOf_mapNonzero_eq_ite, Amounts.amountOf_mapNonzero_eq_ite]
  split_ifs with hd
  · exact le_rfl
  · obtain ⟨hs, hT, hS, hS', hle⟩ := hx d hd
    rw [Fixed.le_def]
    -- cross-multiply the two exact worths
    exact Fixed.quoRaw_mono (mul_nonneg hs hT) hS hS' (by
      calc (x.amountOf d).raw * v.tokens.amountOf d * (w.delegatorShares.amountOf d).raw
          = (x.amountOf d).raw * (v.tokens.amountOf d * (w.delegatorShares.amountOf d).raw) := by
            ring
        _ ≤ (x.amountOf d).raw * (w.tokens.amountOf d * (v.delegatorShares.amountOf d).raw) :=
            mul_le_mul_of_nonneg_left hle hs
        _ = (x.amountOf d).raw * w.tokens.amountOf d * (v.delegatorShares.amountOf d).raw := by
            ring)

theorem shareAmount_zero (d : String) : v.shareAmount d 0 = 0 := by
  unfold shareAmount
  split_ifs
  · rfl
  · ext
    simp

/-- The shares a bond issues are worth at most the bond at the rate the bond leaves:
`issued · (tokens + a) ≤ a · (shares + issued)`, cross-multiplied. -/
theorem shareAmount_mul_le_of_bond (hv : v.ExchangeRateValid) {d : String} {a : ℤ} (ha : 0 ≤ a) :
    (v.shareAmount d a).raw * (v.tokens.amountOf d + a) ≤
      a * ((v.delegatorShares.amountOf d).raw + (v.shareAmount d a).raw) := by
  by_cases hT : v.tokens.amountOf d = 0
  · -- a fresh denomination: one share per token, exactly
    have hS : (v.delegatorShares.amountOf d).raw = 0 := by
      rw [(hv.tokens_eq_zero_iff d).mp hT, Fixed.raw_zero]
    rw [shareAmount, if_pos hT, hT, hS, Fixed.raw_ofInt]
    ring_nf
    exact le_rfl
  · have := shareAmount_mul_le hv ha hT
    nlinarith

/-- A bond never lowers the rate `tokens / shares` of its denomination, cross-multiplied. -/
theorem rate_le_of_bond (hv : v.ExchangeRateValid) {d : String} {a : ℤ} (ha : 0 ≤ a) :
    v.tokens.amountOf d * ((v.delegatorShares.amountOf d).raw + (v.shareAmount d a).raw) ≤
      (v.tokens.amountOf d + a) * (v.delegatorShares.amountOf d).raw := by
  by_cases hT : v.tokens.amountOf d = 0
  · have hS : (v.delegatorShares.amountOf d).raw = 0 := by
      rw [(hv.tokens_eq_zero_iff d).mp hT, Fixed.raw_zero]
    rw [hT, hS]
    simp
  · have := shareAmount_mul_le hv ha hT
    have := hv.tokens_nonneg d
    nlinarith

/-- Unbonding the shares a bond just issued leaves the validator its former shares and gives back
at most the bond in every denomination. -/
theorem removeDelShares_of_bond (hv : v.ExchangeRateValid) {a : Coins}
    (ha : ∀ d, 0 ≤ a.amountOf d) :
    ∃ returned : Coins, ({ v with
        tokens := v.tokens + a
        delegatorShares := v.delegatorShares + Amounts.mapNonzero v.shareAmount a } : Validator).removeDelShares
        (Amounts.mapNonzero v.shareAmount a) =
      some ({ v with tokens := v.tokens + a - returned }, returned) ∧
      ∀ d, returned.amountOf d ≤ a.amountOf d := by
  set issued := Amounts.mapNonzero v.shareAmount a
  have hissued : ∀ d, issued.amountOf d = v.shareAmount d (a.amountOf d) := fun d =>
    Amounts.amountOf_mapNonzero (shareAmount_zero d)
  have hissued_nonneg : ∀ d, 0 ≤ (issued.amountOf d).raw := fun d => by
    rw [hissued]
    exact shareAmount_nonneg hv (ha d)
  -- the shares left are the former ones
  have hsub : (v.delegatorShares + issued).sub issued = some v.delegatorShares := by
    refine Amounts.subChecked_eq_some_iff.mpr ⟨(add_sub_cancel_right v.delegatorShares issued).symm, fun d => ?_⟩
    rw [Amounts.amountOf_add, Fixed.le_def, Fixed.raw_add]
    linarith [hv.shares_nonneg d]
  unfold removeDelShares
  simp only [hsub, Option.bind_eq_bind, Option.bind_some]
  split_ifs with hzero
  · -- no shares were left: the validator had no tokens either, and the bond comes back whole
    have hS : v.delegatorShares = 0 := (Amounts.isZero_iff).mp hzero
    have hT : v.tokens = 0 := by
      ext d
      rw [Amounts.amountOf_zero, hv.tokens_eq_zero_iff, hS, Amounts.amountOf_zero]
    refine ⟨v.tokens + a, ?_, fun d => by simp [hT]⟩
    simp [hS]
  · -- the worth of the issued shares at the rate the bond left, denomination by denomination
    have hpos : ∀ d, issued.amountOf d ≠ 0 → 0 < (issued.amountOf d).raw := fun d hd =>
      lt_of_le_of_ne (hissued_nonneg d) fun h => hd (Fixed.ext h.symm)
    have hworth := tokensFromShares_eq (v := { v with
        tokens := v.tokens + a
        delegatorShares := v.delegatorShares + issued }) (x := issued) fun d hd => by
      have := hpos d hd
      simp only [Amounts.amountOf_add, Fixed.raw_add]
      exact ⟨hissued_nonneg d, add_nonneg (hv.tokens_nonneg d) (ha d),
        by linarith [hv.shares_nonneg d]⟩
    set worth := issued.mapNonzero fun d s => (⟨Fixed.quoRaw 18
      (s.raw * (v.tokens + a).amountOf d) ((v.delegatorShares + issued).amountOf d).raw⟩ : LegacyDec)
    have hworth_nonneg : ∀ d, 0 ≤ (worth.amountOf d).raw := fun d => by
      rw [Amounts.amountOf_mapNonzero_eq_ite]
      split_ifs with hd
      · exact le_rfl
      · simp only [Amounts.amountOf_add, Fixed.raw_add]
        exact Fixed.quoRaw_nonneg (mul_nonneg (hissued_nonneg d)
          (add_nonneg (hv.tokens_nonneg d) (ha d))) (by linarith [hv.shares_nonneg d, hpos d hd])
    have hworth_le : ∀ d, (worth.amountOf d).raw ≤ a.amountOf d * Fixed.scale 18 := fun d => by
      rw [Amounts.amountOf_mapNonzero_eq_ite]
      split_ifs with hd
      · exact mul_nonneg (ha d) (Fixed.scale_pos 18).le
      · simp only [Amounts.amountOf_add, Fixed.raw_add]
        rw [hissued]
        exact Fixed.quoRaw_le_of_le (mul_nonneg (shareAmount_nonneg hv (ha d))
          (add_nonneg (hv.tokens_nonneg d) (ha d)))
          (by rw [← hissued]; linarith [hv.shares_nonneg d, hpos d hd])
          (shareAmount_mul_le_of_bond hv (ha d))
    -- the integer parts are what comes back
    obtain ⟨returned, hret⟩ : ∃ r : Coins, worth.mapNonzero (fun _ x => x.truncateInt) = r :=
      ⟨_, rfl⟩
    have hreturned : ∀ d, returned.amountOf d = (worth.amountOf d).truncateInt := fun d => by
      rw [← hret]
      exact DecCoins.amountOf_truncated worth d
    have hle : ∀ d, returned.amountOf d ≤ a.amountOf d := fun d => by
      rw [hreturned]
      exact Fixed.truncateInt_le_of_raw_le (hworth_nonneg d) (hworth_le d)
    have hsubT : (v.tokens + a).sub returned = some (v.tokens + a - returned) := by
      refine Amounts.subChecked_eq_some_iff.mpr ⟨rfl, fun d => ?_⟩
      rw [Amounts.amountOf_add]
      linarith [hle d, hv.tokens_nonneg d]
    refine ⟨returned, ?_, hle⟩
    simp only [hworth, DecCoins.truncateDecimal_of_nonneg fun d => Fixed.le_def.mpr (hworth_nonneg d),
      Option.bind_some, hret, hsubT]

/-- A bond followed by the unbonding of the shares it issued gives back at most the bond in every
denomination; and neither the bond alone nor the pair lowers the worth of any shares the other
holders keep. -/
theorem delegate_unbond_no_extraction (hv : v.ExchangeRateValid) {a : Coins}
    (ha : ∀ d, 0 ≤ a.amountOf d) :
    ∃ v₁ issued v₂ returned, v.addTokensFromDel a = some (v₁, issued) ∧
      v₁.removeDelShares issued = some (v₂, returned) ∧ (∀ d, returned.amountOf d ≤ a.amountOf d) ∧
      ∀ x : DecCoins, (∀ d, 0 ≤ x.amountOf d ∧ x.amountOf d ≤ v.delegatorShares.amountOf d) →
        ∃ y y₁ y₂, v.tokensFromShares x = some y ∧ v₁.tokensFromShares x = some y₁ ∧
          v₂.tokensFromShares x = some y₂ ∧
          ∀ d, y.amountOf d ≤ y₁.amountOf d ∧ y.amountOf d ≤ y₂.amountOf d := by
  obtain ⟨returned, hrem, hle⟩ := removeDelShares_of_bond hv ha
  refine ⟨_, _, _, returned, addTokensFromDel_eq hv ha, hrem, hle, fun x hx => ?_⟩
  -- a denomination the shares `x` hold has shares, hence tokens, at `v`
  have hheld : ∀ d, x.amountOf d ≠ 0 → 0 ≤ (x.amountOf d).raw ∧
      0 < (v.delegatorShares.amountOf d).raw ∧ 0 ≤ v.tokens.amountOf d := fun d hd => by
    obtain ⟨h0, hle⟩ := hx d
    rw [Fixed.le_def] at h0 hle
    have hne : (x.amountOf d).raw ≠ 0 := fun h => hd (Fixed.ext h)
    exact ⟨h0, by simp only [Fixed.raw_zero] at h0; omega, hv.tokens_nonneg d⟩
  have hissued : ∀ d, (Amounts.mapNonzero v.shareAmount a).amountOf d =
      v.shareAmount d (a.amountOf d) := fun d => Amounts.amountOf_mapNonzero (shareAmount_zero d)
  obtain ⟨y, y₁, hy, hy₁, hmono₁⟩ := tokensFromShares_mono (v := v) (x := x) (w := { v with
      tokens := v.tokens + a
      delegatorShares := v.delegatorShares + Amounts.mapNonzero v.shareAmount a }) fun d hd => by
    obtain ⟨hx0, hS, hT⟩ := hheld d hd
    have hi := shareAmount_nonneg hv (d := d) (ha d)
    simp only [Amounts.amountOf_add, Fixed.raw_add, hissued]
    exact ⟨hx0, hT, hS, by linarith, rate_le_of_bond hv (ha d)⟩
  obtain ⟨y', y₂, hy', hy₂, hmono₂⟩ := tokensFromShares_mono (v := v) (x := x)
      (w := { v with tokens := v.tokens + a - returned }) fun d hd => by
    obtain ⟨hx0, hS, hT⟩ := hheld d hd
    simp only [Amounts.amountOf_sub, Amounts.amountOf_add]
    exact ⟨hx0, hT, hS, hS, by nlinarith [hle d]⟩
  rw [hy] at hy'
  cases hy'
  exact ⟨y, y₁, y₂, hy, hy₁, hy₂, fun d => ⟨hmono₁ d, hmono₂ d⟩⟩

end Validator

/-- A validator with two tokens for two shares, bonding one more token. -/
theorem delegate_unbond_no_extraction_two_for_two :
    let v : Validator :=
      ⟨0, 0, false, .bonded, .single "uinit" 2, .single "uinit" (Fixed.ofInt 2), 0, 0, 0, 0, 0, 0, 0⟩
    let a : Coins := .single "uinit" 1
    v.ExchangeRateValid ∧ (∀ d, 0 ≤ a.amountOf d) ∧
    ∃ v₁ issued v₂ returned, v.addTokensFromDel a = some (v₁, issued) ∧
      v₁.removeDelShares issued = some (v₂, returned) ∧ (∀ d, returned.amountOf d ≤ a.amountOf d) ∧
      ∀ x : DecCoins, (∀ d, 0 ≤ x.amountOf d ∧ x.amountOf d ≤ v.delegatorShares.amountOf d) →
        ∃ y y₁ y₂, v.tokensFromShares x = some y ∧ v₁.tokensFromShares x = some y₁ ∧
          v₂.tokensFromShares x = some y₂ ∧
          ∀ d, y.amountOf d ≤ y₁.amountOf d ∧ y.amountOf d ≤ y₂.amountOf d := by
  intro v a
  have hv : v.ExchangeRateValid := by
    refine ⟨fun d => ?_, fun d => ?_, fun d => ?_⟩ <;>
      by_cases h : "uinit" = d <;> simp [v, Amounts.amountOf_single, h, Fixed.scale]
  have ha : ∀ d, 0 ≤ a.amountOf d := fun d => by
    by_cases h : "uinit" = d <;> simp [a, Amounts.amountOf_single, h]
  exact ⟨hv, ha, Validator.delegate_unbond_no_extraction hv ha⟩

/-- Two validators whose every denomination with shares has tokens. At the first, which has
tokens but no shares, a bond buys no shares and unbonding them (none) returns every token the
validator holds. At the second, unbonding one share rounds its worth of `0.9999999999999999995`
up to one token, and another holder's one share drops from `1` to `0.999999999999999999`. -/
theorem unbond_extracts_rounding :
    let v : Validator :=
      ⟨0, 0, false, .bonded, .single "uinit" 5, 0, 0, 0, 0, 0, 0, 0, 0⟩
    let w : Validator :=
      ⟨0, 0, false, .bonded, .single "uinit" 2, .single "uinit" ⟨2 * 10 ^ 18 + 1⟩, 0, 0, 0, 0, 0, 0, 0⟩
    (v.invalidExRate = false ∧
      (∀ d, 0 < v.delegatorShares.amountOf d → 0 < v.tokens.amountOf d) ∧
      ((v.addTokensFromDel (.single "uinit" 1)).bind fun r => r.1.removeDelShares r.2).map
        Prod.snd = some (.single "uinit" 6)) ∧
    (w.invalidExRate = false ∧
      (∀ d, 0 < w.delegatorShares.amountOf d → 0 < w.tokens.amountOf d) ∧
      w.tokensFromShares (.single "uinit" ⟨10 ^ 18⟩) = some (.single "uinit" ⟨10 ^ 18⟩) ∧
      ((w.removeDelShares (.single "uinit" ⟨10 ^ 18⟩)).bind fun r =>
        r.1.tokensFromShares (.single "uinit" ⟨10 ^ 18⟩)) = some (.single "uinit" ⟨10 ^ 18 - 1⟩)) := by
  intro v w
  refine ⟨⟨Validator.invalidExRate_eq_false v, fun d hd => ?_, by decide +kernel⟩,
    ⟨Validator.invalidExRate_eq_false w, fun d hd => ?_, by decide +kernel, by decide +kernel⟩⟩
  · simp [v] at hd
  · by_cases h : d = "uinit"
    · subst h
      simp [w]
    · simp [w, Amounts.amountOf_single, Ne.symm h] at hd

end Initia.Mstaking
