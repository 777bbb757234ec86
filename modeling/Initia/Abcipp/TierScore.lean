import Mathlib
import Initia.Abcipp.Entry
import Initia.DynamicFee.Keeper

/-!
# Tier dominance of the clamped rank

An entry enters the active set with the clamped priority `scoreByTierPriority tier priority`,
the priority less `2^50` per tier level, and `compareEntries` and `isBetterThan` rank entries by
that score first. The spec reads it as "lower tier dominates higher priority". The score does
that only while priorities differ by less than the `2^50` of a tier step: with fewer than `2^13`
tiers the score never wraps, and a tier-`i` entry outranks a tier-`j` entry, `i < j`, exactly
when `q − p < (j − i) · 2^50` for their priorities `p` and `q`
(`scoreByTierPriority_lt_iff`). The dynamic-fee checker emits every priority from `1` to
`MaxInt64` (`DynamicFee.priorityFromGasPrice_millionths`), so a gas price of about `1.126 · 10^9`
per gas unit puts a tier-1 tx ahead of a tier-0 one (`scoreByTierPriority_tier_overtaken`).

Source: `abcipp/mempool.go` (`scoreByTierPriority`), `abcipp/mempool_tier.go`
(`compareEntries`, `isBetterThan`), `x/dynamic-fee/ante/fee.go` (`priorityFromGasPrice`).
-/

namespace Initia.Abcipp

open Initia.DynamicFee

/-- The tier penalty `1 << 50`. -/
theorem toInt_tierPenalty : ((1 : Int64) <<< (50 : Int64)).toInt = 2 ^ 50 := by
  decide

/-- With fewer than `2^13` tiers and a non-negative priority, the score is computed without
wrapping. -/
theorem scoreByTierPriority_toInt {tier priority : Int64} (ht : 0 ≤ tier.toInt)
    (ht' : tier.toInt < 2 ^ 13) (hp : 0 ≤ priority.toInt) :
    (scoreByTierPriority tier priority).toInt = priority.toInt - tier.toInt * 2 ^ 50 := by
  have hp' := priority.toInt_lt
  -- the penalty of the tier fits in `int64`
  have hmul : (tier * ((1 : Int64) <<< (50 : Int64))).toInt = tier.toInt * 2 ^ 50 := by
    rw [Int64.toInt_mul, toInt_tierPenalty, Int.bmod_eq_of_le] <;> norm_num <;> omega
  unfold scoreByTierPriority
  dsimp only
  rw [Int64.toInt_sub, hmul, Int.bmod_eq_of_le] <;> norm_num <;> omega

/-- Of two tiers below `2^13` and two non-negative priorities, the higher tier scores below the
lower one exactly when its priority exceeds the other by less than the penalty of the tiers
between them. -/
theorem scoreByTierPriority_lt_iff {i j p q : Int64} (hi : 0 ≤ i.toInt) (hij : i.toInt < j.toInt)
    (hj : j.toInt < 2 ^ 13) (hp : 0 ≤ p.toInt) (hq : 0 ≤ q.toInt) :
    scoreByTierPriority j q < scoreByTierPriority i p ↔
      q.toInt - p.toInt < (j.toInt - i.toInt) * 2 ^ 50 := by
  rw [Int64.lt_iff_toInt_lt, scoreByTierPriority_toInt (by omega) hj hq,
    scoreByTierPriority_toInt hi (by omega) hp]
  constructor <;> intro h <;> linarith

/-- Priorities of at most `2^50` keep the tiers in order: a lower tier always outranks. -/
theorem scoreByTierPriority_lt_of_tier_lt {i j p q : Int64} (hi : 0 ≤ i.toInt)
    (hij : i.toInt < j.toInt) (hj : j.toInt < 2 ^ 13) (hp : 1 ≤ p.toInt)
    (hq : q.toInt ≤ 2 ^ 50) (hq' : 0 ≤ q.toInt) :
    scoreByTierPriority j q < scoreByTierPriority i p :=
  (scoreByTierPriority_lt_iff hi hij hj (by omega) hq').mpr (by nlinarith)

/-- The fast tier's least priority outranks the default tier's greatest within the bound. -/
theorem scoreByTierPriority_lt_of_tier_lt_bound :
    scoreByTierPriority 1 1125899906842624 < scoreByTierPriority 0 1 :=
  scoreByTierPriority_lt_of_tier_lt (by decide) (by decide) (by decide) (by decide) (by decide)
    (by decide)

/-- A tier-0 tx of the checker's least priority, and a tier-1 tx whose gas price is
`1125899906.842626` per gas unit: the tier-1 tx scores higher, so `compareEntries` serves it
first and `isBetterThan` prefers it. -/
theorem scoreByTierPriority_tier_overtaken :
    priorityFromGasPrice 0 = 1 ∧
      priorityFromGasPrice ⟨1125899906842626 * 10 ^ 12⟩ = 1125899906842626 ∧
      scoreByTierPriority 0 (priorityFromGasPrice 0) <
        scoreByTierPriority 1 (priorityFromGasPrice ⟨1125899906842626 * 10 ^ 12⟩) := by
  decide

end Initia.Abcipp
