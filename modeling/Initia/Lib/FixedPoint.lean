import Mathlib

/-!
# Fixed-point decimals

A decimal with `p` fractional digits, stored as the integer `value · 10^p`. Addition and
subtraction are exact. Multiplication and division compute on the scaled integers the way a
big-integer decimal library does: an integer quotient truncates toward zero (`Int.tdiv`), and the
last `p` digits of a double-width product are then chopped off by rounding half to even
(`chopRound`) or by truncation (`chopTruncate`). A division by zero has no result.

The lemmas are the facts about rounding that an accounting argument needs: chopping a multiple
of `10^p` is exact, chopping is monotone, and the chopped value stays within half a unit
(rounding) or within one unit below (truncation) of the exact quotient.
-/

/-- A decimal with `p` fractional digits, as its scaled integer. -/
@[ext]
structure Fixed (p : ℕ) where
  /-- The value times `10^p`. -/
  raw : ℤ
deriving DecidableEq, Repr

namespace Fixed

variable {p : ℕ}

/-- The scale `10^p` of the stored integer. -/
def scale (p : ℕ) : ℤ := 10 ^ p

theorem scale_pos (p : ℕ) : 0 < scale p := by
  unfold scale
  positivity

/-! ### The additive group and the order -/

instance : Zero (Fixed p) := ⟨⟨0⟩⟩
instance : One (Fixed p) := ⟨⟨scale p⟩⟩
instance : Add (Fixed p) := ⟨fun a b => ⟨a.raw + b.raw⟩⟩
instance : Neg (Fixed p) := ⟨fun a => ⟨-a.raw⟩⟩
instance : Sub (Fixed p) := ⟨fun a b => ⟨a.raw - b.raw⟩⟩
instance : SMul ℕ (Fixed p) := ⟨fun n a => ⟨n • a.raw⟩⟩
instance : SMul ℤ (Fixed p) := ⟨fun n a => ⟨n • a.raw⟩⟩

@[simp] theorem raw_zero : (0 : Fixed p).raw = 0 := rfl
@[simp] theorem raw_one : (1 : Fixed p).raw = scale p := rfl
@[simp] theorem raw_add (a b : Fixed p) : (a + b).raw = a.raw + b.raw := rfl
@[simp] theorem raw_neg (a : Fixed p) : (-a).raw = -a.raw := rfl
@[simp] theorem raw_sub (a b : Fixed p) : (a - b).raw = a.raw - b.raw := rfl

theorem raw_injective : Function.Injective (raw : Fixed p → ℤ) :=
  fun _ _ h => Fixed.ext h

instance : AddCommGroup (Fixed p) :=
  Function.Injective.addCommGroup raw raw_injective rfl (fun _ _ => rfl) (fun _ => rfl)
    (fun _ _ => rfl) (fun _ _ => rfl) (fun _ _ => rfl)

instance : LinearOrder (Fixed p) :=
  LinearOrder.lift' raw raw_injective

theorem le_def {a b : Fixed p} : a ≤ b ↔ a.raw ≤ b.raw := Iff.rfl

theorem lt_def {a b : Fixed p} : a < b ↔ a.raw < b.raw := Iff.rfl

instance : IsOrderedAddMonoid (Fixed p) where
  add_le_add_left _ _ h c := by
    rw [le_def] at *
    simpa using h

@[simp] theorem raw_min (a b : Fixed p) : (min a b).raw = min a.raw b.raw := by
  rcases le_total a b with h | h
  · rw [min_eq_left h, min_eq_left (le_def.mp h)]
  · rw [min_eq_right h, min_eq_right (le_def.mp h)]

/-- The integer `n` as a decimal. -/
def ofInt (n : ℤ) : Fixed p := ⟨n * scale p⟩

@[simp] theorem raw_ofInt (n : ℤ) : (ofInt n : Fixed p).raw = n * scale p := rfl

theorem ofInt_add (m n : ℤ) : (ofInt (m + n) : Fixed p) = ofInt m + ofInt n := by
  ext
  simp [add_mul]

theorem ofInt_le_ofInt {m n : ℤ} : (ofInt m : Fixed p) ≤ ofInt n ↔ m ≤ n := by
  rw [le_def, raw_ofInt, raw_ofInt]
  exact mul_le_mul_iff_of_pos_right (scale_pos p)

/-- The decimal text of a value: a sign, the integer part, a point and all `p` fractional
digits. -/
def toString (a : Fixed p) : String :=
  let n := a.raw.natAbs
  let frac := (Nat.repr (n % 10 ^ p)).toList
  (if a.raw < 0 then "-" else "") ++ Nat.repr (n / 10 ^ p) ++ "." ++
    String.ofList (List.replicate (p - frac.length) '0' ++ frac)

/-! ### Chopping the last `p` digits -/

/-- Rounding of a non-negative `x / 10^p` to the nearest integer, ties to even. -/
def chopRoundNonneg (p : ℕ) (x : ℤ) : ℤ :=
  let q := x / scale p
  let r := x % scale p
  if 2 * r < scale p then q
  else if scale p < 2 * r then q + 1
  else if q % 2 = 0 then q else q + 1

/-- Rounding of `x / 10^p` to the nearest integer, ties to even, symmetric in the sign. -/
def chopRound (p : ℕ) (x : ℤ) : ℤ :=
  if x < 0 then -chopRoundNonneg p (-x) else chopRoundNonneg p x

/-- Truncation of `x / 10^p` toward zero. -/
def chopTruncate (p : ℕ) (x : ℤ) : ℤ :=
  x.tdiv (scale p)

theorem chopRoundNonneg_mul (n : ℤ) : chopRoundNonneg p (n * scale p) = n := by
  have hs := scale_pos p
  simp [chopRoundNonneg, Int.mul_ediv_cancel _ hs.ne', hs]

/-- Chopping a multiple of `10^p` is exact. -/
theorem chopRound_mul (n : ℤ) : chopRound p (n * scale p) = n := by
  have hs := scale_pos p
  unfold chopRound
  split_ifs with h
  · rw [← neg_mul, chopRoundNonneg_mul, neg_neg]
  · exact chopRoundNonneg_mul n

/-- The rounded quotient of a non-negative `x` is within half a unit of `x / 10^p`. -/
theorem chopRoundNonneg_spec (x : ℤ) :
    2 * x ≤ (2 * chopRoundNonneg p x + 1) * scale p ∧
      (2 * chopRoundNonneg p x - 1) * scale p ≤ 2 * x := by
  have hs := scale_pos p
  have hdiv := Int.emod_add_mul_ediv x (scale p)
  have hr0 := Int.emod_nonneg x hs.ne'
  have hr1 := Int.emod_lt_of_pos x hs
  unfold chopRoundNonneg
  dsimp only
  split_ifs <;> constructor <;> nlinarith

theorem chopRoundNonneg_nonneg {x : ℤ} (hx : 0 ≤ x) : 0 ≤ chopRoundNonneg p x := by
  have hs := scale_pos p
  have hq : 0 ≤ x / scale p := Int.ediv_nonneg hx hs.le
  unfold chopRoundNonneg
  dsimp only
  split_ifs <;> omega

/-- Rounding a non-negative value never exceeds the next integer above the exact quotient:
when `x ≤ n · 10^p`, the rounded quotient is at most `n`. -/
theorem chopRoundNonneg_le_of_le {x n : ℤ} (hx : x ≤ n * scale p) : chopRoundNonneg p x ≤ n := by
  have hs := scale_pos p
  by_contra hlt
  rw [not_le] at hlt
  -- the rounded value `c ≥ n + 1` would put `x` above `(n + 1/2) · 10^p`
  have : (2 * n + 1) * scale p ≤ (2 * chopRoundNonneg p x - 1) * scale p := by
    apply mul_le_mul_of_nonneg_right _ hs.le
    omega
  nlinarith [chopRoundNonneg_spec (p := p) x]

/-- The rounded quotient lies between the floor of `x / 10^p` and one above it. -/
theorem chopRoundNonneg_bounds (x : ℤ) :
    x / scale p ≤ chopRoundNonneg p x ∧ chopRoundNonneg p x ≤ x / scale p + 1 := by
  unfold chopRoundNonneg
  dsimp only
  split_ifs <;> omega

/-- Rounding half to even is monotone. -/
theorem chopRoundNonneg_mono {x y : ℤ} (hxy : x ≤ y) : chopRoundNonneg p x ≤ chopRoundNonneg p y := by
  have hs := scale_pos p
  have hq : x / scale p ≤ y / scale p := Int.ediv_le_ediv hs hxy
  rcases hq.lt_or_eq with hlt | heq
  · -- a larger floor rounds at least as high
    have := (chopRoundNonneg_bounds (p := p) x).2
    have := (chopRoundNonneg_bounds (p := p) y).1
    omega
  · -- the same floor: the remainders compare as the values do
    have hx := Int.emod_add_mul_ediv x (scale p)
    have hy := Int.emod_add_mul_ediv y (scale p)
    have hr : x % scale p ≤ y % scale p := by
      rw [heq] at hx
      linarith
    unfold chopRoundNonneg
    dsimp only
    rw [heq]
    split_ifs <;> omega

/-- Rounding half to even is monotone across the sign. -/
theorem chopRound_mono {x y : ℤ} (hxy : x ≤ y) : chopRound p x ≤ chopRound p y := by
  unfold chopRound
  split_ifs with hx hy hy
  · -- both negative: the magnitudes compare the other way
    exact neg_le_neg (chopRoundNonneg_mono (by omega))
  · have := chopRoundNonneg_nonneg (p := p) (show 0 ≤ -x by omega)
    have := chopRoundNonneg_nonneg (p := p) (show 0 ≤ y by omega)
    omega
  · omega
  · exact chopRoundNonneg_mono hxy

/-- Floor division is monotone in the quotient it computes. -/
theorem ediv_le_ediv_of_mul_le {a b c d : ℤ} (hb : 0 < b) (hd : 0 < d) (h : a * d ≤ c * b) :
    a / b ≤ c / d := by
  rw [Int.le_ediv_iff_mul_le hd]
  have hab : a / b * b ≤ a := Int.ediv_mul_le a hb.ne'
  have : a / b * d * b ≤ c * b :=
    calc a / b * d * b = a / b * b * d := by ring
      _ ≤ a * d := mul_le_mul_of_nonneg_right hab hd.le
      _ ≤ c * b := h
  exact le_of_mul_le_mul_right this hb

/-! ### Products and quotients -/

/-- The product, rounded half to even. -/
def mul (a b : Fixed p) : Fixed p :=
  ⟨chopRound p (a.raw * b.raw)⟩

/-- The product, truncated toward zero. -/
def mulTruncate (a b : Fixed p) : Fixed p :=
  ⟨chopTruncate p (a.raw * b.raw)⟩

/-- The product with an integer, exact. -/
def mulInt (a : Fixed p) (n : ℤ) : Fixed p :=
  ⟨a.raw * n⟩

/-- The quotient, rounded half to even; a zero divisor has no quotient. -/
def quo (a b : Fixed p) : Option (Fixed p) :=
  if b.raw = 0 then none else some ⟨chopRound p ((a.raw * scale p * scale p).tdiv b.raw)⟩

/-- The quotient, truncated toward zero; a zero divisor has no quotient. -/
def quoTruncate (a b : Fixed p) : Option (Fixed p) :=
  if b.raw = 0 then none else some ⟨chopTruncate p ((a.raw * scale p * scale p).tdiv b.raw)⟩

/-- The quotient by an integer, truncated toward zero; zero has no quotient. -/
def quoInt (a : Fixed p) (n : ℤ) : Option (Fixed p) :=
  if n = 0 then none else some ⟨a.raw.tdiv n⟩

/-- The integer part, truncated toward zero. -/
def truncateInt (a : Fixed p) : ℤ :=
  chopTruncate p a.raw

/-- The nearest integer, ties to even. -/
def roundInt (a : Fixed p) : ℤ :=
  chopRound p a.raw

@[simp] theorem raw_mulInt (a : Fixed p) (n : ℤ) : (a.mulInt n).raw = a.raw * n := rfl

/-- The quotient of a non-negative value by a positive one, on the scaled integers. -/
def quoRaw (p : ℕ) (x y : ℤ) : ℤ :=
  chopRound p ((x * scale p * scale p).tdiv y)

theorem quo_of_pos {a b : Fixed p} (hb : 0 < b.raw) : a.quo b = some ⟨quoRaw p a.raw b.raw⟩ := by
  rw [quo, if_neg hb.ne']
  rfl

theorem quoRaw_nonneg {x y : ℤ} (hx : 0 ≤ x) (hy : 0 < y) : 0 ≤ quoRaw p x y := by
  have hs := scale_pos p
  have hn : 0 ≤ (x * scale p * scale p).tdiv y := by
    rw [Int.tdiv_eq_ediv_of_nonneg (by positivity)]
    exact Int.ediv_nonneg (by positivity) hy.le
  rw [quoRaw, chopRound, if_neg (not_lt.mpr hn)]
  exact chopRoundNonneg_nonneg hn

/-- The rounded quotient grows with the exact quotient `x / y`. -/
theorem quoRaw_mono {x y x' y' : ℤ} (hx : 0 ≤ x) (hy : 0 < y) (hy' : 0 < y')
    (h : x * y' ≤ x' * y) : quoRaw p x y ≤ quoRaw p x' y' := by
  have hs := scale_pos p
  have hx' : 0 ≤ x' := by nlinarith
  have hn : ∀ {u v : ℤ}, 0 ≤ u → 0 < v → (u * scale p * scale p).tdiv v = u * scale p * scale p / v :=
    fun hu _ => Int.tdiv_eq_ediv_of_nonneg (by positivity)
  have hle : x * scale p * scale p / y ≤ x' * scale p * scale p / y' :=
    ediv_le_ediv_of_mul_le hy hy' (by nlinarith [mul_pos hs hs])
  have h0 : 0 ≤ x * scale p * scale p / y := Int.ediv_nonneg (by positivity) hy.le
  rw [quoRaw, quoRaw, hn hx hy, hn hx' hy', chopRound, chopRound, if_neg (not_lt.mpr h0),
    if_neg (not_lt.mpr (h0.trans hle))]
  exact chopRoundNonneg_mono hle

/-- A rounded quotient below an integer bound `x / y ≤ m` stays below it. -/
theorem quoRaw_le_of_le {x y m : ℤ} (hx : 0 ≤ x) (hy : 0 < y) (h : x ≤ m * y) :
    quoRaw p x y ≤ m * scale p := by
  have hs := scale_pos p
  have hn : 0 ≤ x * scale p * scale p / y := Int.ediv_nonneg (by positivity) hy.le
  have hle : x * scale p * scale p / y ≤ m * scale p * scale p := by
    rw [Int.ediv_le_iff_le_mul hy]
    nlinarith [mul_pos hs hs]
  rw [quoRaw, Int.tdiv_eq_ediv_of_nonneg (by positivity), chopRound, if_neg (not_lt.mpr hn)]
  exact chopRoundNonneg_le_of_le hle

/-- The integer part of a non-negative value below `m` is below `m`. -/
theorem truncateInt_le_of_raw_le {a : Fixed p} {m : ℤ} (ha : 0 ≤ a.raw) (h : a.raw ≤ m * scale p) :
    a.truncateInt ≤ m := by
  have hs := scale_pos p
  rw [truncateInt, chopTruncate, Int.tdiv_eq_ediv_of_nonneg ha, Int.ediv_le_iff_le_mul hs]
  linarith

theorem truncateInt_ofInt (n : ℤ) : (ofInt n : Fixed p).truncateInt = n := by
  simp [truncateInt, chopTruncate, Int.mul_tdiv_cancel _ (scale_pos p).ne']

/-- The fractional part of a non-negative amount lies in `[0, 1)`. -/
theorem sub_ofInt_truncateInt_mem {a : Fixed p} (ha : 0 ≤ a) :
    0 ≤ a - ofInt a.truncateInt ∧ a - ofInt a.truncateInt < 1 := by
  have hs := scale_pos p
  rw [le_def, raw_zero] at ha
  -- what is left after the integer part is the remainder of the division by `10^p`
  have hrem : (a - ofInt a.truncateInt).raw = a.raw % scale p := by
    rw [raw_sub, raw_ofInt, truncateInt, chopTruncate, Int.tdiv_eq_ediv_of_nonneg ha,
      Int.emod_def, mul_comm]
  rw [le_def, lt_def, hrem, raw_zero, raw_one]
  exact ⟨Int.emod_nonneg _ hs.ne', Int.emod_lt_of_pos _ hs⟩

/-- A product with a non-negative factor is monotone in the other. -/
theorem mul_mono_right {a b c : Fixed p} (ha : 0 ≤ a) (hbc : b ≤ c) : a.mul b ≤ a.mul c :=
  chopRound_mono (mul_le_mul_of_nonneg_left hbc ha)

theorem mul_mono_left {a b c : Fixed p} (hc : 0 ≤ c) (hab : a ≤ b) : a.mul c ≤ b.mul c :=
  chopRound_mono (mul_le_mul_of_nonneg_right hab hc)

@[simp] protected theorem mul_zero (a : Fixed p) : a.mul 0 = 0 := by
  ext
  simpa [mul] using chopRound_mul (p := p) 0

@[simp] protected theorem zero_mul (a : Fixed p) : (0 : Fixed p).mul a = 0 := by
  ext
  simpa [mul] using chopRound_mul (p := p) 0

protected theorem mul_nonneg {a b : Fixed p} (ha : 0 ≤ a) (hb : 0 ≤ b) : 0 ≤ a.mul b := by
  simpa using mul_mono_right ha hb

theorem quoInt_of_ne_zero (a : Fixed p) {n : ℤ} (hn : n ≠ 0) : a.quoInt n = some ⟨a.raw.tdiv n⟩ := by
  rw [quoInt, if_neg hn]

/-- The truncated quotient by a positive integer is monotone. -/
theorem quoInt_mono {a b : Fixed p} {n : ℤ} (hn : 0 < n) (hab : a ≤ b) :
    (a.quoInt n).getD 0 ≤ (b.quoInt n).getD 0 := by
  rw [quoInt_of_ne_zero a hn.ne', quoInt_of_ne_zero b hn.ne', Option.getD_some, Option.getD_some]
  exact Int.tdiv_le_tdiv hn hab

end Fixed
