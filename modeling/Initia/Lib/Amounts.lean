import Mathlib
import Initia.Lib.OrderedMap

/-!
# Finitely supported amounts

A finite map from ordered keys to non-zero amounts of an additive group: the shape of a
multi-asset balance, a list of `(denomination, amount)` pairs sorted by denomination with no
zero entry. It is built on `Std.ExtTreeMap`, so two values are equal exactly when they hold the
same amount at every key (`Amounts.ext`); the amounts form an additive group, and the entries
are read in key order.

Every operation comes with its lemma on `amountOf`: writing one key (`set`), addition and
negation, the pointwise minimum against another value (`inter`), and a map over the amounts
that drops what it sends to zero (`mapNonzero`). Predicates on the entries (`isZero`,
`isAnyNegative`, `isAllLE`) are read back as statements about every key.
-/

open Std

/-- Amounts of `α` at finitely many keys of `κ`, ordered by `cmp`, with no zero entry. -/
structure Amounts (κ : Type) (cmp : κ → κ → Ordering) [TransCmp cmp] (α : Type) [AddCommGroup α] where
  /-- The non-zero entries, in key order. -/
  entries : ExtTreeMap κ α cmp
  entries_ne_zero : ∀ k : κ, entries[k]? ≠ some 0

namespace Amounts

variable {κ α : Type} {cmp : κ → κ → Ordering} [TransCmp cmp] [LawfulEqCmp cmp]

section Entries

variable [AddCommGroup α] {a b : Amounts κ cmp α} {k k' : κ}

/-- The amount held at key `k`, zero when there is no entry. -/
def amountOf (a : Amounts κ cmp α) (k : κ) : α :=
  a.entries[k]?.getD 0

/-- The entries in key order. -/
def toList (a : Amounts κ cmp α) : List (κ × α) :=
  a.entries.toList

theorem mem_toList_iff {x : α} : (k, x) ∈ a.toList ↔ a.amountOf k = x ∧ x ≠ 0 := by
  have hne := a.entries_ne_zero k
  rw [toList, ExtTreeMap.mem_toList_iff_getElem?_eq_some, amountOf]
  cases hk : a.entries[k]? with
  | none =>
    simp only [reduceCtorEq, false_iff, Option.getD_none, not_and, not_not]
    exact Eq.symm
  | some y =>
    rw [hk] at hne
    simp only [Option.some.injEq, Option.getD_some]
    constructor
    · rintro rfl
      exact ⟨rfl, fun h => hne (h ▸ rfl)⟩
    · rintro ⟨rfl, -⟩
      rfl

@[ext]
theorem ext (h : ∀ k, a.amountOf k = b.amountOf k) : a = b := by
  rcases a with ⟨ea, ha⟩
  rcases b with ⟨eb, hb⟩
  congr 1
  refine ExtTreeMap.ext_getElem? fun k => ?_
  have hk := h k
  have hak := ha k
  have hbk := hb k
  simp only [amountOf] at hk
  cases hea : ea[k]? <;> cases heb : eb[k]? <;> simp_all

omit [LawfulEqCmp cmp] in
theorem entries_inj : a.entries = b.entries ↔ a = b := by
  constructor
  · intro h
    cases a
    cases b
    cases h
    rfl
  · rintro rfl
    rfl

instance [DecidableEq α] : DecidableEq (Amounts κ cmp α) := fun _ _ =>
  decidable_of_iff _ entries_inj

/-- A key with a non-zero amount is a key of the entries. -/
theorem mem_keys_of_amountOf_ne_zero (h : a.amountOf k ≠ 0) : k ∈ a.toList.map Prod.fst :=
  List.mem_map.mpr ⟨(k, a.amountOf k), mem_toList_iff.mpr ⟨rfl, h⟩, rfl⟩

instance : Zero (Amounts κ cmp α) :=
  ⟨⟨∅, fun k => by simp⟩⟩

omit [LawfulEqCmp cmp] in
@[simp]
theorem entries_zero : (0 : Amounts κ cmp α).entries = ∅ := rfl

omit [LawfulEqCmp cmp] in
@[simp]
theorem amountOf_zero : (0 : Amounts κ cmp α).amountOf k = 0 := by
  simp [amountOf]

/-- No entry at all: every amount is zero. -/
def isZero (a : Amounts κ cmp α) : Bool :=
  a.entries.isEmpty

theorem isZero_iff : a.isZero ↔ a = 0 := by
  rw [isZero, ExtTreeMap.isEmpty_iff]
  constructor
  · intro h
    ext k
    simp [amountOf, h]
  · rintro rfl
    rfl

variable [DecidableEq α]

/-- Write the amount at one key, erasing the entry when the amount is zero. -/
def set (a : Amounts κ cmp α) (k : κ) (x : α) : Amounts κ cmp α :=
  if hx : x = 0 then
    ⟨a.entries.erase k, fun k' => by
      rw [ExtTreeMap.getElem?_erase]
      split_ifs
      · simp
      · exact a.entries_ne_zero k'⟩
  else
    ⟨a.entries.insert k x, fun k' => by
      rw [ExtTreeMap.getElem?_insert]
      split_ifs
      · simpa using hx
      · exact a.entries_ne_zero k'⟩

variable [DecidableEq κ] in
@[simp]
theorem amountOf_set {x : α} : (a.set k x).amountOf k' = if k = k' then x else a.amountOf k' := by
  unfold set amountOf
  split_ifs with hx hk hk <;>
    simp_all [ExtTreeMap.getElem?_erase, ExtTreeMap.getElem?_insert,
      LawfulEqCmp.compare_eq_iff_eq]

/-- The amount `x` at the key `k` alone. -/
def single (k : κ) (x : α) : Amounts κ cmp α :=
  (0 : Amounts κ cmp α).set k x

variable [DecidableEq κ] in
@[simp]
theorem amountOf_single {x : α} : (single k x : Amounts κ cmp α).amountOf k' =
    if k = k' then x else 0 := by
  simp [single]

/-- Apply `f` to every entry, dropping the entries it sends to zero. -/
def mapNonzero {β : Type} [AddCommGroup β] [DecidableEq β] (f : κ → α → β)
    (a : Amounts κ cmp α) : Amounts κ cmp β :=
  ⟨a.entries.filterMap fun k x => if f k x = 0 then none else some (f k x), fun k => by
    rw [ExtTreeMap.getElem?_filterMap']
    cases a.entries[k]? with
    | none => simp
    | some x => by_cases h : f k x = 0 <;> simp [h]⟩

theorem amountOf_mapNonzero_eq_ite {β : Type} [AddCommGroup β] [DecidableEq β] {f : κ → α → β} :
    (a.mapNonzero f).amountOf k = if a.amountOf k = 0 then 0 else f k (a.amountOf k) := by
  have := a.entries_ne_zero k
  unfold mapNonzero amountOf
  rw [ExtTreeMap.getElem?_filterMap']
  cases hk : a.entries[k]? with
  | none => simp
  | some x => by_cases h : f k x = 0 <;> simp_all

@[simp]
theorem amountOf_mapNonzero {β : Type} [AddCommGroup β] [DecidableEq β] {f : κ → α → β}
    (hf : f k 0 = 0) : (a.mapNonzero f).amountOf k = f k (a.amountOf k) := by
  rw [amountOf_mapNonzero_eq_ite]
  split_ifs with h
  · rw [h, hf]
  · rfl

@[simp]
theorem mapNonzero_zero {β : Type} [AddCommGroup β] [DecidableEq β] {f : κ → α → β} :
    (0 : Amounts κ cmp α).mapNonzero f = 0 :=
  ext fun k => by rw [amountOf_mapNonzero_eq_ite, if_pos amountOf_zero, amountOf_zero]

/-- Apply a fallible `f` to every entry: no result when it fails at some entry, and otherwise the
results with the zero ones dropped. Seen from outside, this is a loop over the entries that
aborts at its first failure. -/
def mapNonzeroM {β : Type} [AddCommGroup β] [DecidableEq β] (f : κ → α → Option β)
    (a : Amounts κ cmp α) : Option (Amounts κ cmp β) :=
  if a.toList.all fun p => (f p.1 p.2).isSome then some (a.mapNonzero fun k x => (f k x).getD 0)
  else none

/-- Where `f` succeeds at every entry with the value of `g`, the fallible map is the map of `g`. -/
theorem mapNonzeroM_eq_some {β : Type} [AddCommGroup β] [DecidableEq β] {f : κ → α → Option β}
    {g : κ → α → β} (h : ∀ k, a.amountOf k ≠ 0 → f k (a.amountOf k) = some (g k (a.amountOf k))) :
    a.mapNonzeroM f = some (a.mapNonzero g) := by
  have hall : (a.toList.all fun p => (f p.1 p.2).isSome) = true := by
    rw [List.all_eq_true]
    intro p hp
    obtain ⟨hx, hne⟩ := mem_toList_iff.mp hp
    rw [← hx, h p.1 (hx ▸ hne)]
    rfl
  rw [mapNonzeroM, if_pos hall]
  congr 1
  ext k
  rw [amountOf_mapNonzero_eq_ite, amountOf_mapNonzero_eq_ite]
  split_ifs with hk
  · rfl
  · rw [h k hk]
    rfl

end Entries

/-! ### The additive group -/

section Group

variable [AddCommGroup α] [DecidableEq α] {a b c : Amounts κ cmp α} {k k' : κ}

/-- Add `x` to the amount at `k`. -/
def addAt (a : Amounts κ cmp α) (k : κ) (x : α) : Amounts κ cmp α :=
  a.set k (a.amountOf k + x)

variable [DecidableEq κ] in
theorem amountOf_foldl_addAt (l : List (κ × α)) (acc : Amounts κ cmp α) :
    (l.foldl (fun acc p => acc.addAt p.1 p.2) acc).amountOf k =
      acc.amountOf k + (l.map fun p => if p.1 = k then p.2 else 0).sum := by
  induction l generalizing acc with
  | nil => simp
  | cons p l ih =>
    rw [List.foldl_cons, ih, addAt, amountOf_set, List.map_cons, List.sum_cons]
    split_ifs with h
    · subst h
      abel
    · abel

instance : Add (Amounts κ cmp α) :=
  ⟨fun a b => b.entries.foldl (fun acc k x => acc.addAt k x) a⟩

@[simp]
theorem amountOf_add : (a + b).amountOf k = a.amountOf k + b.amountOf k := by
  classical
  change (b.entries.foldl (fun acc k x => acc.addAt k x) a).amountOf k = _
  rw [ExtTreeMap.foldl_eq_foldl_toList, amountOf_foldl_addAt]
  congr 1
  refine List.sum_map_eq_of_vanish (f := fun k' x => if k' = k then x else 0)
    (ExtTreeMap.distinct_keys_toList.imp fun {p q} h (he : p.1 = q.1) =>
      h (he ▸ ReflCmp.compare_self)) (fun k' x h => if_neg h)
    (fun _ => ExtTreeMap.mem_toList_iff_getElem?_eq_some) |>.trans ?_
  unfold amountOf
  cases b.entries[k]? <;> simp

instance : Neg (Amounts κ cmp α) :=
  ⟨mapNonzero fun _ x => -x⟩

@[simp]
theorem amountOf_neg : (-a).amountOf k = -a.amountOf k :=
  amountOf_mapNonzero neg_zero

instance : AddCommGroup (Amounts κ cmp α) where
  add_assoc _ _ _ := by ext; simp [add_assoc]
  zero_add _ := by ext; simp
  add_zero _ := by ext; simp
  nsmul := nsmulRec
  zsmul := zsmulRec
  neg_add_cancel _ := by ext; simp
  add_comm _ _ := by ext; simp [add_comm]

@[simp]
theorem amountOf_sub : (a - b).amountOf k = a.amountOf k - b.amountOf k := by
  rw [sub_eq_add_neg, amountOf_add, amountOf_neg, sub_eq_add_neg]

/-- Reading one key is an additive map. -/
def amountOfHom (k : κ) : Amounts κ cmp α →+ α where
  toFun a := a.amountOf k
  map_zero' := amountOf_zero
  map_add' _ _ := amountOf_add

@[simp]
theorem amountOf_sum (l : List (Amounts κ cmp α)) :
    l.sum.amountOf k = (l.map fun a => a.amountOf k).sum :=
  map_list_sum (amountOfHom k) l

/-! ### The total over all keys -/

/-- The sum of the amounts at every key. -/
def total (a : Amounts κ cmp α) : α :=
  (a.toList.map Prod.snd).sum

/-- The total is the sum of the amounts over any finite set of keys that holds every key with a
non-zero amount. -/
theorem total_eq_sum [DecidableEq κ] {s : Finset κ} (hs : ∀ k, a.amountOf k ≠ 0 → k ∈ s) :
    a.total = ∑ k ∈ s, a.amountOf k := by
  have hkeys : (a.toList.map Prod.fst).Nodup := by
    rw [toList, ExtTreeMap.map_fst_toList_eq_keys]
    exact ExtTreeMap.nodup_keys
  -- first over the keys of the entries, where each entry is the amount of its key
  have hentries : a.total = ∑ k ∈ (a.toList.map Prod.fst).toFinset, a.amountOf k := by
    rw [List.sum_toFinset _ hkeys, List.map_map, total]
    exact congrArg List.sum (List.map_congr_left fun p hp => (mem_toList_iff.mp hp).1.symm)
  rw [hentries]
  refine Finset.sum_subset (fun k hk => ?_) (fun k _ hk => ?_)
  · obtain ⟨p, hp, rfl⟩ := List.mem_map.mp (List.mem_toFinset.mp hk)
    obtain ⟨hx, hne⟩ := mem_toList_iff.mp hp
    exact hs _ (hx ▸ hne)
  · by_contra hne
    exact hk (List.mem_toFinset.mpr (mem_keys_of_amountOf_ne_zero hne))

omit [LawfulEqCmp cmp] [DecidableEq α] in
@[simp]
theorem total_zero : (0 : Amounts κ cmp α).total = 0 := rfl

@[simp]
theorem total_add : (a + b).total = a.total + b.total := by
  classical
  -- sum all three over the keys of both
  let s := (a.toList.map Prod.fst).toFinset ∪ (b.toList.map Prod.fst).toFinset
  have ha : ∀ k, a.amountOf k ≠ 0 → k ∈ s := fun k hk =>
    Finset.mem_union_left _ (List.mem_toFinset.mpr (mem_keys_of_amountOf_ne_zero hk))
  have hb : ∀ k, b.amountOf k ≠ 0 → k ∈ s := fun k hk =>
    Finset.mem_union_right _ (List.mem_toFinset.mpr (mem_keys_of_amountOf_ne_zero hk))
  have hab : ∀ k, (a + b).amountOf k ≠ 0 → k ∈ s := fun k hk => by
    rw [amountOf_add] at hk
    by_cases hak : a.amountOf k = 0
    · exact hb k (by simpa [hak] using hk)
    · exact ha k hak
  rw [total_eq_sum hab, total_eq_sum ha, total_eq_sum hb, ← Finset.sum_add_distrib]
  simp only [amountOf_add]

/-- The total is an additive map. -/
def totalHom : Amounts κ cmp α →+ α where
  toFun := total
  map_zero' := total_zero
  map_add' _ _ := total_add

@[simp]
theorem total_neg : (-a).total = -a.total :=
  map_neg totalHom a

@[simp]
theorem total_sub : (a - b).total = a.total - b.total :=
  map_sub totalHom a b

@[simp]
theorem total_single {x : α} : (single k x : Amounts κ cmp α).total = x := by
  classical
  rw [total_eq_sum (s := {k}) fun k' hk' => by
    rw [amountOf_single] at hk'
    split_ifs at hk' with h
    · exact Finset.mem_singleton.mpr h.symm
    · exact absurd rfl hk']
  simp

/-- The total of a map that keeps zero at zero, summed over any finite set of keys that holds
every key with a non-zero amount. -/
theorem total_mapNonzero [DecidableEq κ] {β : Type} [AddCommGroup β] [DecidableEq β]
    {f : κ → α → β} (hf : ∀ k, f k 0 = 0) {s : Finset κ} (hs : ∀ k, a.amountOf k ≠ 0 → k ∈ s) :
    (a.mapNonzero f).total = ∑ k ∈ s, f k (a.amountOf k) := by
  have hsupp : ∀ k, (a.mapNonzero f).amountOf k ≠ 0 → k ∈ s := fun k hk =>
    hs k fun h0 => hk (by rw [amountOf_mapNonzero (hf k), h0, hf k])
  rw [total_eq_sum hsupp]
  exact Finset.sum_congr rfl fun k _ => amountOf_mapNonzero (hf k)

/-- Mapping every amount by an additive map maps the total. -/
theorem total_mapNonzero_hom {β : Type} [AddCommGroup β] [DecidableEq β] (φ : α →+ β) :
    (a.mapNonzero fun _ x => φ x).total = φ a.total := by
  classical
  have hs : ∀ k, a.amountOf k ≠ 0 → k ∈ (a.toList.map Prod.fst).toFinset := fun k hk =>
    List.mem_toFinset.mpr (mem_keys_of_amountOf_ne_zero hk)
  rw [total_mapNonzero (fun _ => map_zero φ) hs, total_eq_sum hs, map_sum]

end Group

/-! ### Order -/

section Order

variable [AddCommGroup α] [DecidableEq α] [LinearOrder α] [IsOrderedAddMonoid α]
  {a b : Amounts κ cmp α} {k : κ}

/-- Some amount is negative. -/
def isAnyNegative (a : Amounts κ cmp α) : Bool :=
  a.toList.any fun p => decide (p.2 < 0)

omit [DecidableEq α] [IsOrderedAddMonoid α] in
theorem isAnyNegative_iff : a.isAnyNegative ↔ ∃ k, a.amountOf k < 0 := by
  simp only [isAnyNegative, List.any_eq_true, decide_eq_true_eq, Prod.exists]
  constructor
  · rintro ⟨k, x, hkx, hx⟩
    exact ⟨k, (mem_toList_iff.mp hkx).1 ▸ hx⟩
  · rintro ⟨k, hk⟩
    exact ⟨k, _, mem_toList_iff.mpr ⟨rfl, hk.ne⟩, hk⟩

omit [DecidableEq α] [IsOrderedAddMonoid α] in
theorem isAnyNegative_eq_false_iff : a.isAnyNegative = false ↔ ∀ k, 0 ≤ a.amountOf k := by
  rw [← Bool.not_eq_true, isAnyNegative_iff]
  simp

/-- The difference, when no amount of it is negative. -/
def subChecked (a b : Amounts κ cmp α) : Option (Amounts κ cmp α) :=
  if (a - b).isAnyNegative then none else some (a - b)

theorem subChecked_eq_some_iff {c : Amounts κ cmp α} :
    a.subChecked b = some c ↔ c = a - b ∧ ∀ k, b.amountOf k ≤ a.amountOf k := by
  unfold subChecked
  split_ifs with h
  · obtain ⟨k, hk⟩ := isAnyNegative_iff.mp h
    rw [amountOf_sub, sub_neg] at hk
    exact iff_of_false (by simp) fun hc => (hc.2 k).not_gt hk
  · rw [Bool.not_eq_true, isAnyNegative_eq_false_iff] at h
    rw [Option.some.injEq, eq_comm]
    exact ⟨fun hc => ⟨hc, fun k => sub_nonneg.mp (by simpa using h k)⟩, fun hc => hc.1⟩

/-- The difference and whether some amount of it is negative. -/
def safeSub (a b : Amounts κ cmp α) : Amounts κ cmp α × Bool :=
  (a - b, (a - b).isAnyNegative)

/-- Every entry of `a` is at most the amount `b` holds at its key. -/
def isAllLE (a b : Amounts κ cmp α) : Bool :=
  a.toList.all fun p => decide (p.2 ≤ b.amountOf p.1)

omit [DecidableEq α] [IsOrderedAddMonoid α] in
theorem isAllLE_iff : a.isAllLE b ↔ ∀ k, a.amountOf k ≠ 0 → a.amountOf k ≤ b.amountOf k := by
  simp only [isAllLE, List.all_eq_true, decide_eq_true_eq, Prod.forall]
  constructor
  · intro h k hk
    exact h k _ (mem_toList_iff.mpr ⟨rfl, hk⟩)
  · intro h k x hkx
    obtain ⟨rfl, hx⟩ := mem_toList_iff.mp hkx
    exact h k hx

/-- The pointwise minimum over the keys of `a`: an entry of `a` is capped at the amount `b`
holds, and keys of `b` alone are left out. -/
def inter (a b : Amounts κ cmp α) : Amounts κ cmp α :=
  a.mapNonzero fun k x => min x (b.amountOf k)

omit [IsOrderedAddMonoid α] in
/-- Over non-negative amounts the capped value is the pointwise minimum. -/
theorem amountOf_inter_of_nonneg (hb : 0 ≤ b.amountOf k) :
    (a.inter b).amountOf k = min (a.amountOf k) (b.amountOf k) :=
  amountOf_mapNonzero (min_eq_left hb)

end Order

end Amounts
