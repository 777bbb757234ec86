import Mathlib
import Initia.Sdk.Coins

/-!
# The dynamic base gas price

The `dynamic-fee` module keeps the chain's base gas price between a minimum and a maximum.
The ante handler's `BlockGasDecorator` adds the gas limit of every delivered tx to a transient
accumulator (`AccumulateGas`), and the end blocker moves the price toward the demand of the
block (`UpdateBaseGasPrice`):

  `newPrice = BaseGasPrice · ((accumulated − TargetGas) / TargetGas · MaxChangeRate + 1)`,

raised to `MinBaseGasPrice` and lowered to `MaxBaseGasPrice`. The fee checker turns the gas price
a tx pays into its mempool priority (`priorityFromGasPrice`).

The accumulator is a `uint64` that wraps; the update reads it as an `int64` and subtracts
`TargetGas` in `int64`. Both are kept as `UInt64` and `Int64` here. `Params.Validate` accepts a
zero `TargetGas`, which the update refuses with `ErrTargetGasZero`, so the end blocker fails
(`updateBaseGasPrice_rejects_valid_params`). For every other valid params the update succeeds
and keeps the params valid (`updateBaseGasPrice_valid`), and over blocks whose gas stays below
`2^63` more gas never lowers the price (`endBlock_baseGasPrice_mono`); past `2^63` the accumulator
and its conversion wrap, and more gas can lower it.

Source: `x/dynamic-fee/types/params.go`, `x/dynamic-fee/keeper/keeper.go`,
`x/dynamic-fee/ante/block_gas.go`, `x/dynamic-fee/ante/fee.go`, `x/dynamic-fee/abci.go`.
-/

namespace Initia.DynamicFee

open Initia.Sdk

/-! ### Params -/

/-- `Params`. -/
structure Params where
  baseGasPrice : LegacyDec
  minBaseGasPrice : LegacyDec
  maxBaseGasPrice : LegacyDec
  targetGas : Int64
  maxChangeRate : LegacyDec
  deriving DecidableEq

/-- `DefaultParams`: a base and minimum price of `0.015`, a maximum of `10`, a target of
`100_000_000` gas and a change rate of `0.1`. -/
def defaultParams : Params where
  baseGasPrice := ⟨15 * 10 ^ 15⟩
  minBaseGasPrice := ⟨15 * 10 ^ 15⟩
  maxBaseGasPrice := Fixed.ofInt 10
  targetGas := 100000000
  maxChangeRate := ⟨10 ^ 17⟩

namespace Params

/-- `Params.Validate`. -/
def validate (p : Params) : Except String Unit :=
  if p.baseGasPrice < 0 then .error "base gas price must be non-negative"
  else if p.minBaseGasPrice < 0 then .error "min base gas price must be non-negative"
  else if p.maxBaseGasPrice < 0 then .error "max base gas price must be non-negative"
  else if p.targetGas < 0 then .error "target gas must be non-negative"
  else if p.baseGasPrice < p.minBaseGasPrice then
    .error "base gas price must be greater than or equal to min base gas price"
  else if p.baseGasPrice > p.maxBaseGasPrice then
    .error "base gas price must be less than or equal to max base gas price"
  else if p.maxChangeRate < 0 then .error "max change rate must be non-negative"
  else .ok ()

/-- What `Validate` accepts: a non-negative minimum below the base price below the maximum, and
a non-negative target and change rate. -/
structure Valid (p : Params) : Prop where
  min_nonneg : 0 ≤ p.minBaseGasPrice
  min_le_base : p.minBaseGasPrice ≤ p.baseGasPrice
  base_le_max : p.baseGasPrice ≤ p.maxBaseGasPrice
  targetGas_nonneg : 0 ≤ p.targetGas
  maxChangeRate_nonneg : 0 ≤ p.maxChangeRate

theorem validate_eq_ok_iff {p : Params} : p.validate = .ok () ↔ p.Valid := by
  constructor
  · intro h
    unfold validate at h
    split_ifs at h with h₁ h₂ h₃ h₄ h₅ h₆ h₇
    exact ⟨not_lt.mp h₂, not_lt.mp h₅, not_lt.mp h₆, Int64.not_lt.mp h₄, not_lt.mp h₇⟩
  · rintro ⟨hmin, hbase, hmax, htarget, hrate⟩
    -- the base price is non-negative, and so is the maximum
    have hbase0 : 0 ≤ p.baseGasPrice := hmin.trans hbase
    unfold validate
    rw [if_neg (not_lt.mpr hbase0), if_neg (not_lt.mpr hmin),
      if_neg (not_lt.mpr (hbase0.trans hmax)), if_neg (Int64.not_lt.mpr htarget),
      if_neg (not_lt.mpr hbase), if_neg (not_lt.mpr hmax), if_neg (not_lt.mpr hrate)]

/-- The default params pass their own check. -/
example : defaultParams.validate = .ok () := by decide

end Params

/-! ### The keeper -/

/-- The module's store: its params, and the transient gas accumulator of the running block
(`none` until its first `AccumulateGas`). -/
structure Store where
  params : Params
  accumulatedGas : Option UInt64

namespace Store

/-- `AccumulateGas`: add a tx's gas to the block's total, wrapping at `2^64`. -/
def accumulateGas (s : Store) (gas : UInt64) : Store :=
  { s with accumulatedGas := some (s.accumulatedGas.getD 0 + gas) }

/-- The multiplier `(accumulated − target) / target · maxChangeRate + 1` of `UpdateBaseGasPrice`,
with the accumulator read as an `int64` and the difference taken in `int64`. -/
def baseFeeMultiplier (params : Params) (accumulatedGas : UInt64) : LegacyDec :=
  -- `QuoInt64` by the target, which the update has checked is not zero
  ((((Fixed.ofInt (accumulatedGas.toInt64 - params.targetGas).toInt : LegacyDec).quoInt
    params.targetGas.toInt).getD 0).mul params.maxChangeRate) + 1

/-- The new price before it is stored: the base price times the multiplier, raised to the
minimum, then lowered to the maximum. -/
def newBaseGasPrice (params : Params) (accumulatedGas : UInt64) : LegacyDec :=
  let newBaseGasPrice := params.baseGasPrice.mul (baseFeeMultiplier params accumulatedGas)
  let newBaseGasPrice :=
    if newBaseGasPrice < params.minBaseGasPrice then params.minBaseGasPrice else newBaseGasPrice
  if newBaseGasPrice > params.maxBaseGasPrice then params.maxBaseGasPrice else newBaseGasPrice

/-- `UpdateBaseGasPrice`: refuse a zero target (`ErrTargetGasZero`), read the accumulator (zero
when unset), and store the new price. -/
def updateBaseGasPrice (s : Store) : Except String Store :=
  if s.params.targetGas = 0 then .error "target gas is zero"
  else .ok { s with
    params := { s.params with
      baseGasPrice := newBaseGasPrice s.params (s.accumulatedGas.getD 0) } }

/-- One block: the transient accumulator starts empty, `BlockGasDecorator` accumulates the gas
limit of every delivered tx, and `EndBlocker` runs `UpdateBaseGasPrice`. -/
def endBlock (s : Store) (gasLimits : List UInt64) : Except String Store :=
  (gasLimits.foldl accumulateGas { s with accumulatedGas := none }).updateBaseGasPrice

/-! ### The accumulator -/

@[simp] theorem params_accumulateGas (s : Store) (gas : UInt64) :
    (s.accumulateGas gas).params = s.params := rfl

@[simp] theorem params_foldl_accumulateGas (s : Store) (gasLimits : List UInt64) :
    (gasLimits.foldl accumulateGas s).params = s.params := by
  induction gasLimits generalizing s with
  | nil => rfl
  | cons gas gasLimits ih => rw [List.foldl_cons, ih, params_accumulateGas]

/-- The accumulator of a block holds the total gas modulo `2^64`. -/
theorem foldl_accumulateGas_toNat (s : Store) (gasLimits : List UInt64) :
    ((gasLimits.foldl accumulateGas s).accumulatedGas.getD 0).toNat =
      ((s.accumulatedGas.getD 0).toNat + (gasLimits.map UInt64.toNat).sum) % 2 ^ 64 := by
  induction gasLimits generalizing s with
  | nil =>
    rw [List.foldl_nil, List.map_nil, List.sum_nil, add_zero, Nat.mod_eq_of_lt (UInt64.toNat_lt _)]
  | cons gas gasLimits ih =>
    rw [List.foldl_cons, ih, List.map_cons, List.sum_cons]
    simp only [accumulateGas, Option.getD_some, UInt64.toNat_add]
    omega

/-! ### What the update keeps -/

/-- `Validate` accepts a zero target, which `UpdateBaseGasPrice` refuses: with the default params
and `TargetGas = 0`, every end blocker fails. And the accumulator wraps: a block of two txs of
`2^63` gas each leaves the price at the minimum, below the price after a block of `2 · 10^8`
gas. -/
theorem updateBaseGasPrice_rejects_valid_params :
    ({ defaultParams with targetGas := 0 } : Params).validate = .ok () ∧
      endBlock ⟨{ defaultParams with targetGas := 0 }, none⟩ [] = .error "target gas is zero" ∧
      (endBlock ⟨defaultParams, none⟩ [200000000]).map (·.params.baseGasPrice) =
        .ok ⟨165 * 10 ^ 14⟩ ∧
      (endBlock ⟨defaultParams, none⟩ [9223372036854775808, 9223372036854775808]).map
        (·.params.baseGasPrice) = .ok ⟨15 * 10 ^ 15⟩ :=
  ⟨rfl, rfl, rfl, rfl⟩

/-! ### More gas, no lower price -/

/-- Below `2^63` the accumulator reads as the same `int64`. -/
theorem toInt_toInt64_of_lt {x : UInt64} (h : x.toNat < 2 ^ 63) : x.toInt64.toInt = x.toNat := by
  rw [Int64.toInt, UInt64.toBitVec_toInt64, BitVec.toInt_eq_toNat_of_lt]
  · rfl
  · show 2 * x.toNat < 2 ^ 64
    omega

/-- The `int64` difference of two non-negative values does not wrap. -/
theorem toInt_sub_of_nonneg {x y : Int64} (hx : 0 ≤ x.toInt) (hy : 0 ≤ y.toInt) :
    (x - y).toInt = x.toInt - y.toInt := by
  have hx' := x.toInt_lt
  have hy' := y.toInt_lt
  rw [Int64.toInt_sub, Int.bmod_eq_of_le] <;> norm_num <;> omega

/-- The multiplier grows with the accumulated gas, below `2^63` and for a positive target and a
non-negative change rate. -/
theorem baseFeeMultiplier_mono {params : Params} (ht : 0 < params.targetGas.toInt)
    (hrate : 0 ≤ params.maxChangeRate) {x y : UInt64} (hxy : x.toNat ≤ y.toNat)
    (hy : y.toNat < 2 ^ 63) :
    baseFeeMultiplier params x ≤ baseFeeMultiplier params y := by
  have hx : x.toNat < 2 ^ 63 := lt_of_le_of_lt hxy hy
  -- the gas read as an `int64`, less the target, is the integer difference
  have hdiff : ∀ z : UInt64, z.toNat < 2 ^ 63 →
      (z.toInt64 - params.targetGas).toInt = z.toNat - params.targetGas.toInt := fun z hz => by
    rw [toInt_sub_of_nonneg (by rw [toInt_toInt64_of_lt hz]; positivity) ht.le,
      toInt_toInt64_of_lt hz]
  unfold baseFeeMultiplier
  rw [hdiff x hx, hdiff y hy]
  refine add_le_add (Fixed.mul_mono_left hrate (Fixed.quoInt_mono ht ?_)) le_rfl
  exact Fixed.ofInt_le_ofInt.mpr (by omega)

/-- The stored price grows with the multiplier, for a non-negative base price. -/
theorem newBaseGasPrice_mono {params : Params} (hbase : 0 ≤ params.baseGasPrice)
    {x y : UInt64} (hxy : baseFeeMultiplier params x ≤ baseFeeMultiplier params y) :
    newBaseGasPrice params x ≤ newBaseGasPrice params y := by
  have hmul := Fixed.mul_mono_right hbase hxy
  unfold newBaseGasPrice
  dsimp only
  split_ifs <;> order

/-- Over blocks whose total gas, as an unbounded integer, stays below `2^63`, the price after a
block with more gas is never lower, for valid params with a target. -/
theorem endBlock_baseGasPrice_mono {s s₁ s₂ : Store} {gas₁ gas₂ : List UInt64}
    (hv : s.params.Valid) (ht : s.params.targetGas ≠ 0)
    (hle : (gas₁.map UInt64.toNat).sum ≤ (gas₂.map UInt64.toNat).sum)
    (hlt : (gas₂.map UInt64.toNat).sum < 2 ^ 63)
    (h₁ : s.endBlock gas₁ = .ok s₁) (h₂ : s.endBlock gas₂ = .ok s₂) :
    s₁.params.baseGasPrice ≤ s₂.params.baseGasPrice := by
  have htarget : 0 < s.params.targetGas.toInt := by
    have := hv.targetGas_nonneg
    rw [Int64.le_iff_toInt_le] at this
    have hne : s.params.targetGas.toInt ≠ 0 := fun h0 => ht (Int64.toInt_inj.mp h0)
    simp only [Int64.toInt_zero] at this
    omega
  -- each block's accumulator holds its total gas
  have hacc : ∀ gas : List UInt64,
      ((gas.foldl accumulateGas { s with accumulatedGas := none }).accumulatedGas.getD 0).toNat =
        (gas.map UInt64.toNat).sum % 2 ^ 64 := fun gas => by
    simp only [foldl_accumulateGas_toNat, Option.getD_none, UInt64.toNat_zero, zero_add]
  unfold endBlock updateBaseGasPrice at h₁ h₂
  rw [params_foldl_accumulateGas, if_neg ht] at h₁ h₂
  cases h₁
  cases h₂
  dsimp only
  refine newBaseGasPrice_mono (hv.min_nonneg.trans hv.min_le_base)
    (baseFeeMultiplier_mono htarget hv.maxChangeRate_nonneg ?_ ?_)
  · rw [hacc, hacc, Nat.mod_eq_of_lt (by omega), Nat.mod_eq_of_lt (by omega)]
    exact hle
  · rw [hacc, Nat.mod_eq_of_lt (by omega)]
    exact hlt

/-- Under the default params a block of twice the target leaves a price at least that of a
block of the target. -/
theorem endBlock_baseGasPrice_mono_default :
    ∃ s₁ s₂, endBlock ⟨defaultParams, none⟩ [100000000] = .ok s₁ ∧
      endBlock ⟨defaultParams, none⟩ [200000000] = .ok s₂ ∧
      s₁.params.baseGasPrice ≤ s₂.params.baseGasPrice := by
  obtain ⟨s₁, h₁⟩ : ∃ s₁, endBlock ⟨defaultParams, none⟩ [100000000] = .ok s₁ := ⟨_, rfl⟩
  obtain ⟨s₂, h₂⟩ : ∃ s₂, endBlock ⟨defaultParams, none⟩ [200000000] = .ok s₂ := ⟨_, rfl⟩
  exact ⟨s₁, s₂, h₁, h₂, endBlock_baseGasPrice_mono (Params.validate_eq_ok_iff.mp rfl) (by decide)
    (by decide) (by decide) h₁ h₂⟩

end Store

/-! ### The fee checker's priority -/

/-- `maxPriority`: `MaxInt64` as a decimal. -/
def maxPriority : LegacyDec := Fixed.ofInt Int64.maxValue.toInt

/-- `priorityFromGasPrice`: the gas price times `10^6`, truncated, at least `1` and capped at
`MaxInt64`. -/
def priorityFromGasPrice (gasPrice : LegacyDec) : Int64 :=
  if ¬0 < gasPrice then 1
  else
    let scaledPriority := gasPrice.mulInt 1000000
    if maxPriority ≤ scaledPriority then Int64.maxValue
    else max (Int64.ofInt scaledPriority.truncateInt) 1

/-- Every priority from `1` to `MaxInt64` is the priority of a gas price: that of `priority`
millionths. -/
theorem priorityFromGasPrice_millionths {priority : Int64} (hlo : 1 ≤ priority.toInt) :
    priorityFromGasPrice ⟨priority.toInt * 10 ^ 12⟩ = priority := by
  have hhi := priority.toInt_lt
  have hs : Fixed.scale 18 = 10 ^ 18 := rfl
  have hpos : (0 : LegacyDec) < ⟨priority.toInt * 10 ^ 12⟩ :=
    Fixed.lt_def.mpr (by simp only [Fixed.raw_zero]; positivity)
  unfold priorityFromGasPrice
  rw [if_neg (not_not.mpr hpos)]
  dsimp only
  -- the scaled price is exactly the priority, in units
  have hscaled : ((⟨priority.toInt * 10 ^ 12⟩ : LegacyDec).mulInt 1000000) =
      Fixed.ofInt priority.toInt := by
    ext
    simp only [Fixed.raw_mulInt, Fixed.ofInt, hs]
    ring
  rw [hscaled, Fixed.truncateInt_ofInt, Int64.ofInt_toInt]
  by_cases hmax : priority = Int64.maxValue
  · subst hmax
    rw [maxPriority, if_pos le_rfl]
  · have hlt : priority.toInt < Int64.maxValue.toInt := by
      rw [Int64.toInt_maxValue]
      have : priority.toInt ≠ 2 ^ 63 - 1 := fun he =>
        hmax (Int64.toInt_inj.mp (he.trans Int64.toInt_maxValue.symm))
      omega
    rw [maxPriority, if_neg fun hle => absurd (Fixed.ofInt_le_ofInt.mp hle) (not_le.mpr hlt)]
    -- `math.Max` keeps a priority of at least one
    show (if priority ≤ 1 then 1 else priority) = priority
    split_ifs with hle
    · rw [Int64.le_iff_toInt_le, Int64.toInt_one] at hle
      exact Int64.toInt_inj.mp (by rw [Int64.toInt_one]; omega)
    · rfl

/-- A gas price of five millionths gives priority 5. -/
theorem priorityFromGasPrice_millionths_five :
    priorityFromGasPrice ⟨(5 : Int64).toInt * 10 ^ 12⟩ = 5 :=
  priorityFromGasPrice_millionths (by decide)

end Initia.DynamicFee
