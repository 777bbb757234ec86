import Mathlib

/-!
# Counting loops over `uint64`

`for n := a; n <= b; n++` over 64-bit words visits `a, a + 1, …, b` and stops when `b` is
below the largest word; at `b = 2^64 − 1` the condition never fails and the loop does not
exit. `UInt64.rangeIncl a b` is the list of words such a loop visits in the first case, so
a loop body folded over it is the loop.

A loop that deletes from a map what it finds at each visited key (`scanRemoveStep`) then
removes exactly the visited keys and returns their values in the order visited
(`foldl_scanRemoveStep`); any other part of the state changes by the same fold over the
returned values (`foldl_scanRemoveStep_frame`).
-/

namespace UInt64

/-- The words `a, a + 1, …, b` in increasing order (empty when `b < a`). -/
def rangeIncl (a b : UInt64) : List UInt64 :=
  (List.range (b.toNat + 1 - a.toNat)).map fun i => a + i.toUInt64

theorem toNat_add_toUInt64 {a : UInt64} {i : ℕ} (h : a.toNat + i < 2 ^ 64) :
    (a + i.toUInt64).toNat = a.toNat + i := by
  change (a + UInt64.ofNat i).toNat = _
  rw [UInt64.toNat_add, UInt64.toNat_ofNat', Nat.mod_eq_of_lt (by omega : i < 2 ^ 64),
    Nat.mod_eq_of_lt h]

theorem toNat_add_one_of_lt {n m : UInt64} (h : n < m) : (n + 1).toNat = n.toNat + 1 := by
  have hm := m.toNat_lt
  rw [UInt64.lt_iff_toNat_lt] at h
  rw [UInt64.toNat_add, UInt64.toNat_one, Nat.mod_eq_of_lt (by omega)]

theorem mem_rangeIncl {a b n : UInt64} : n ∈ rangeIncl a b ↔ a ≤ n ∧ n ≤ b := by
  have hb := b.toNat_lt
  simp only [rangeIncl, List.mem_map, List.mem_range, UInt64.le_iff_toNat_le]
  constructor
  · rintro ⟨i, hi, rfl⟩
    rw [toNat_add_toUInt64 (by omega)]
    omega
  · rintro ⟨han, hnb⟩
    refine ⟨n.toNat - a.toNat, by omega, ?_⟩
    rw [← UInt64.toNat_inj, toNat_add_toUInt64 (by omega)]
    omega

/-- The loop visits the words in increasing order, each once. -/
theorem pairwise_lt_rangeIncl (a b : UInt64) : (rangeIncl a b).Pairwise (· < ·) := by
  have hb := b.toNat_lt
  refine List.pairwise_map.mpr (List.pairwise_lt_range.imp_of_mem fun {i j} hi hj hij => ?_)
  rw [List.mem_range] at hi hj
  rw [UInt64.lt_iff_toNat_lt, toNat_add_toUInt64 (by omega), toNat_add_toUInt64 (by omega)]
  omega

end UInt64

/-! ### Loops that delete what they find -/

section ScanRemove

variable {K S E : Type} [DecidableEq K] (get : S → K → Option E) (del : S → K → E → S)

/-- One round of `for n := …; … { e, ok := m[n]; if !ok { continue }; delete(m, n); …;
removed = append(removed, e) }`: `get q n` reads the map in the state `q`, `del q n e`
deletes `n` from it with whatever else the round does. -/
def scanRemoveStep (acc : List E × S) (n : K) : List E × S :=
  match get acc.2 n with
  | none => acc
  | some e => (acc.1 ++ [e], del acc.2 n e)

/-- `del` keeps the invariant `Inv` and deletes from the map the one key it is given. -/
def DeletesKey (Inv : S → Prop) : Prop :=
  ∀ q n e, Inv q → get q n = some e →
    Inv (del q n e) ∧ ∀ k, get (del q n e) k = if k = n then none else get q k

variable {get del}

/-- The loop over distinct keys `L` keeps the invariant, returns the values found at `L` in
order, and leaves the map without the keys of `L`. -/
theorem foldl_scanRemoveStep {Inv : S → Prop} (hdel : DeletesKey get del Inv) :
    ∀ (L : List K) (removed : List E) (q : S), L.Nodup → Inv q →
      Inv (L.foldl (scanRemoveStep get del) (removed, q)).2 ∧
      (L.foldl (scanRemoveStep get del) (removed, q)).1 = removed ++ L.filterMap (get q) ∧
      ∀ k, get (L.foldl (scanRemoveStep get del) (removed, q)).2 k =
        if k ∈ L then none else get q k := by
  intro L
  induction L with
  | nil => exact fun removed q _ hq => ⟨hq, by simp, by simp⟩
  | cons x L ih =>
    intro removed q hnd hq
    obtain ⟨hx, hnd⟩ := List.nodup_cons.mp hnd
    rw [List.foldl_cons]
    cases hget : get q x with
    | none =>
      -- nothing at `x`: the round changes nothing
      have hstep : scanRemoveStep get del (removed, q) x = (removed, q) := by
        simp [scanRemoveStep, hget]
      obtain ⟨hinv, hrem, hmap⟩ := ih removed q hnd hq
      refine ⟨by rw [hstep]; exact hinv, by rw [hstep, hrem, List.filterMap_cons_none hget],
        fun k => ?_⟩
      rw [hstep, hmap]
      by_cases hk : k = x
      · subst hk
        simp [hget]
      · simp [hk]
    | some e =>
      have hstep : scanRemoveStep get del (removed, q) x = (removed ++ [e], del q x e) := by
        simp [scanRemoveStep, hget]
      obtain ⟨hq', hdel'⟩ := hdel q x e hq hget
      obtain ⟨hinv, hrem, hmap⟩ := ih (removed ++ [e]) (del q x e) hnd hq'
      -- the keys still to visit are not `x`, so they read the same as before the round
      have hrest : L.filterMap (get (del q x e)) = L.filterMap (get q) :=
        List.filterMap_congr fun k hk => by rw [hdel', if_neg (fun (h : k = x) => hx (h ▸ hk))]
      refine ⟨by rw [hstep]; exact hinv, ?_, fun k => ?_⟩
      · rw [hstep, hrem, hrest, List.filterMap_cons_some hget]
        simp
      · rw [hstep, hmap, hdel']
        by_cases hk : k = x
        · simp [hk]
        · simp [hk]

/-- A part `F` of the state that each deletion of a value `e` changes to `g (F q) e` ends as
the fold of `g` over the values the loop returns. -/
theorem foldl_scanRemoveStep_frame {Inv : S → Prop} (hdel : DeletesKey get del Inv) {T : Type}
    (F : S → T) (g : T → E → T) (hF : ∀ q n e, Inv q → get q n = some e → F (del q n e) = g (F q) e) :
    ∀ (L : List K) (removed : List E) (q : S), L.Nodup → Inv q →
      F (L.foldl (scanRemoveStep get del) (removed, q)).2 = (L.filterMap (get q)).foldl g (F q) := by
  intro L
  induction L with
  | nil => exact fun _ _ _ _ => rfl
  | cons x L ih =>
    intro removed q hnd hq
    obtain ⟨hx, hnd⟩ := List.nodup_cons.mp hnd
    rw [List.foldl_cons]
    cases hget : get q x with
    | none =>
      rw [show scanRemoveStep get del (removed, q) x = (removed, q) by simp [scanRemoveStep, hget],
        ih removed q hnd hq, List.filterMap_cons_none hget]
    | some e =>
      rw [show scanRemoveStep get del (removed, q) x = (removed ++ [e], del q x e) by
          simp [scanRemoveStep, hget]]
      obtain ⟨hq', hdel'⟩ := hdel q x e hq hget
      have hrest : L.filterMap (get (del q x e)) = L.filterMap (get q) :=
        List.filterMap_congr fun k hk => by rw [hdel', if_neg (fun (h : k = x) => hx (h ▸ hk))]
      rw [ih _ _ hnd hq', hrest, List.filterMap_cons_some hget, List.foldl_cons, hF q x e hq hget]

end ScanRemove
