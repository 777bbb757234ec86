import Mathlib
import Initia.Lib.Amounts
import Initia.Lib.FixedPoint

/-!
# Coins and decimal coins

The ledger types the modules of the chain share: `LegacyDec`, a decimal with eighteen
fractional digits; `Coins`, integer amounts per denomination; and `DecCoins`, decimal amounts per
denomination. Both coin types are finitely supported amounts keyed by the denomination string
(`Amounts`), so a value is a sorted list of denominations with non-zero amounts, and adding or
subtracting drops what cancels.

The operations are those of the library the chain is written against, with its failures: a
subtraction that goes negative, a division by zero and a truncation of a negative amount panic,
and return `none` here.
-/

namespace Initia.Sdk

/-- A decimal with eighteen fractional digits. -/
abbrev LegacyDec := Fixed 18

/-- Integer amounts per denomination. -/
abbrev Coins := Amounts String compare ℤ

/-- Decimal amounts per denomination. -/
abbrev DecCoins := Amounts String compare LegacyDec

namespace Coins

/-- The amount of one denomination. -/
abbrev AmountOf (c : Coins) (denom : String) : ℤ := c.amountOf denom

/-- `Sub`: the difference, which panics when some amount goes negative. -/
def sub (a b : Coins) : Option Coins :=
  a.subChecked b

/-- `SafeSub`: the difference and whether some amount went negative. -/
def safeSub (a b : Coins) : Coins × Bool :=
  Amounts.safeSub a b

/-- `IsAllGTE`: every amount of `b` is covered by `a`. An empty `b` is covered by anything, and
a non-empty `b` by no empty `a`. -/
def isAllGTE (a b : Coins) : Bool :=
  if b.isZero then true else if a.isZero then false else b.isAllLE a

/-- `IsAllGT`: every denomination of `b` is held by `a` in a larger amount. A non-empty `a`
is above an empty `b`, and an empty `a` above nothing. -/
def isAllGT (a b : Coins) : Bool :=
  if a.isZero then false
  else if b.isZero then true
  else b.toList.all fun coin => a.amountOf coin.1 != 0 && decide (coin.2 < a.amountOf coin.1)

/-- `IsValid`, for the amounts: every amount is positive. The entries are sorted and distinct
by construction, and the syntax of the denominations is not modelled. -/
def isValid (c : Coins) : Bool :=
  c.toList.all fun coin => decide (0 < coin.2)

/-- `Min` of two valid coins: the smaller amount of each denomination both hold. -/
def min (a b : Coins) : Coins :=
  a.inter b

/-- The coins as decimal coins. -/
def toDecCoins (c : Coins) : DecCoins :=
  c.mapNonzero fun _ x => Fixed.ofInt x

@[simp]
theorem amountOf_toDecCoins (c : Coins) (d : String) :
    (toDecCoins c).amountOf d = Fixed.ofInt (c.amountOf d) :=
  Amounts.amountOf_mapNonzero (by simp [Fixed.ofInt]; rfl)

@[simp]
theorem toDecCoins_add (a b : Coins) : (a + b).toDecCoins = a.toDecCoins + b.toDecCoins :=
  Amounts.ext fun d => by simp [Amounts.amountOf_add, Fixed.ofInt_add]

@[simp]
theorem toDecCoins_sub (a b : Coins) : (a - b).toDecCoins = a.toDecCoins - b.toDecCoins :=
  Amounts.ext fun d => Fixed.raw_injective (by simp [Amounts.amountOf_sub, sub_mul])

@[simp]
theorem toDecCoins_zero : toDecCoins 0 = 0 :=
  Amounts.mapNonzero_zero

/-- `toDecCoins` as an additive map. -/
def toDecCoinsHom : Coins →+ DecCoins where
  toFun := toDecCoins
  map_zero' := toDecCoins_zero
  map_add' := toDecCoins_add

end Coins

namespace DecCoins

/-- `Sub`: the difference, which panics when some amount goes negative. -/
def sub (a b : DecCoins) : Option DecCoins :=
  a.subChecked b

/-- `SafeSub`: the difference and whether some amount went negative. -/
def safeSub (a b : DecCoins) : DecCoins × Bool :=
  Amounts.safeSub a b

/-- `MulDec`: every amount times `d`, rounded, dropping what becomes zero. -/
def mulDec (c : DecCoins) (d : LegacyDec) : DecCoins :=
  c.mapNonzero fun _ x => x.mul d

/-- `MulDecTruncate`: every amount times `d`, truncated, dropping what becomes zero. -/
def mulDecTruncate (c : DecCoins) (d : LegacyDec) : DecCoins :=
  c.mapNonzero fun _ x => x.mulTruncate d

/-- `Intersect`: each amount capped at what `b` holds of its denomination. -/
def intersect (a b : DecCoins) : DecCoins :=
  a.inter b

/-- `TruncateDecimal`: the integer parts and the fractional remainders. A negative amount
panics. -/
def truncateDecimal (c : DecCoins) : Option (Coins × DecCoins) :=
  if c.isAnyNegative then none
  else some (c.mapNonzero (fun _ x => x.truncateInt),
    c.mapNonzero fun _ x => x - Fixed.ofInt x.truncateInt)

/-- `QuoDecTruncate`: every amount divided by `d`, truncated, dropping what becomes zero. A zero
divisor panics, and so does a negative quotient. -/
def quoDecTruncate (c : DecCoins) (d : LegacyDec) : Option DecCoins :=
  if d = 0 then none
  else c.mapNonzeroM fun _ x => do
    let q ← x.quoTruncate d
    if q < 0 then none else some q

theorem truncateDecimal_of_nonneg {c : DecCoins} (h : ∀ d, 0 ≤ c.amountOf d) :
    c.truncateDecimal = some (c.mapNonzero (fun _ x => x.truncateInt),
      c.mapNonzero fun _ x => x - Fixed.ofInt x.truncateInt) := by
  rw [truncateDecimal, if_neg (by simpa [Amounts.isAnyNegative_eq_false_iff] using h)]

/-- The integer part of every amount, as read at one denomination. -/
theorem amountOf_truncated (c : DecCoins) (d : String) :
    (c.mapNonzero (fun _ x => x.truncateInt)).amountOf d = (c.amountOf d).truncateInt :=
  Amounts.amountOf_mapNonzero (by simp [Fixed.truncateInt, Fixed.chopTruncate])

/-- The integer parts and the fractional remainders add back up to the coins. -/
theorem truncated_add_change (c : DecCoins) :
    Coins.toDecCoins (c.mapNonzero fun _ x => x.truncateInt) +
      c.mapNonzero (fun _ x => x - Fixed.ofInt x.truncateInt) = c := by
  refine Amounts.ext fun d => ?_
  have hzero : (0 : LegacyDec) - Fixed.ofInt (0 : LegacyDec).truncateInt = 0 := by
    simp [Fixed.truncateInt, Fixed.chopTruncate]; rfl
  rw [Amounts.amountOf_add, Coins.amountOf_toDecCoins, amountOf_truncated,
    Amounts.amountOf_mapNonzero (f := fun _ x => x - Fixed.ofInt x.truncateInt) hzero]
  exact add_sub_cancel _ _

/-- What a truncation returns adds back up to what it truncated. -/
theorem truncateDecimal_add {c : DecCoins} {coins : Coins} {change : DecCoins}
    (h : c.truncateDecimal = some (coins, change)) : coins.toDecCoins + change = c := by
  unfold truncateDecimal at h
  split_ifs at h
  cases h
  exact truncated_add_change c

end DecCoins

end Initia.Sdk
