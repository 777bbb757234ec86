import Mathlib

/-!
# Lists of records sorted by key

A list of records, each with a key and a value, stands for the finite map that sends a key to
the values of its records: `sumAt` sums the values of every record of the key and `valAt`
takes the value of the first one. The two agree on a list whose keys strictly increase
(`SortedKeys`), which is the shape of a sorted collection that keeps one record per key.

The operations such a collection is built from, each with its lemma against `sumAt`:

* `mergeLoop`, the two-pointer merge of two sorted lists, which adds the records of a common
  key and drops every record it finds empty;
* `search`, the binary search that splits the list at its middle record;
* `coalesce`, which sums the records of each key, drops the empty sums and sorts by key;
* `isSorted`, the test that adjacent keys never decrease.

Nothing here depends on what the records are: they are given by `key`, and `val` into an
additive monoid, with the addition and emptiness test of records as parameters.
-/

namespace SortedAssoc

variable {κ β V : Type} [LinearOrder κ] (key : β → κ)

/-- The keys strictly increase along the list. -/
def SortedKeys (l : List β) : Prop :=
  l.Pairwise fun a b => key a < key b

instance (l : List β) : Decidable (SortedKeys key l) :=
  inferInstanceAs (Decidable (l.Pairwise _))

/-- Sorted by key, with no empty record: the shape the operations below return. -/
structure Canonical (isEmpty : β → Bool) (l : List β) : Prop where
  sorted : SortedKeys key l
  nonempty : ∀ b ∈ l, isEmpty b = false

/-- The first record with key `k`. -/
def lookup (l : List β) (k : κ) : Option β :=
  l.find? fun b => key b = k

/-- The test that no key is above the key after it: true on every list sorted by key, with
records of one key side by side allowed. -/
def isSorted : List β → Bool
  | a :: b :: rest => !decide (key a > key b) && isSorted (b :: rest)
  | _ => true

variable {key}

theorem SortedKeys.sublist {l m : List β} (h : SortedKeys key m) (hlm : List.Sublist l m) :
    SortedKeys key l :=
  List.Pairwise.sublist hlm h

/-- A record may be replaced by another of the same key. -/
theorem SortedKeys.replace {l m : List β} {a r : β} (h : SortedKeys key (l ++ a :: m))
    (hr : key r = key a) : SortedKeys key (l ++ r :: m) := by
  simp only [SortedKeys, List.pairwise_append, List.pairwise_cons, List.mem_cons] at h ⊢
  obtain ⟨hl, ⟨ham, hm⟩, hlam⟩ := h
  refine ⟨hl, ⟨fun x hx => hr ▸ ham x hx, hm⟩, fun x hx y hy => ?_⟩
  rcases hy with rfl | hy
  · exact hr ▸ hlam x hx _ (.inl rfl)
  · exact hlam x hx y (.inr hy)

/-- A record below the first record of a sorted tail, and above everything before that tail,
may be put in between. -/
theorem SortedKeys.insert {l m n : List β} {a b : β} (ha : SortedKeys key (l ++ a :: m))
    (hb : SortedKeys key (l ++ b :: n)) (hab : key a < key b) :
    SortedKeys key (l ++ a :: b :: n) := by
  simp only [SortedKeys, List.pairwise_append, List.pairwise_cons, List.mem_cons] at ha hb ⊢
  obtain ⟨hl, -, hla⟩ := ha
  obtain ⟨-, ⟨hbn, hn⟩, hlb⟩ := hb
  refine ⟨hl, ⟨fun x hx => ?_, hbn, hn⟩, fun x hx y hy => ?_⟩
  · rcases hx with rfl | hx
    · exact hab
    · exact hab.trans (hbn x hx)
  · rcases hy with rfl | rfl | hy
    · exact hla x hx _ (.inl rfl)
    · exact hlb x hx _ (.inl rfl)
    · exact hlb x hx y (.inr hy)

theorem isSorted_of_sortedKeys {l : List β} (h : SortedKeys key l) : isSorted key l = true := by
  induction l with
  | nil => rfl
  | cons a l ih =>
    cases l with
    | nil => rfl
    | cons b rest =>
      have hab : key a < key b := List.rel_of_pairwise_cons h (List.mem_cons_self ..)
      rw [isSorted, ih (List.Pairwise.of_cons h)]
      simpa using hab.le

/-! ### Reading a list as a map -/

section Values

variable (key) [AddCommMonoid V] (val : β → V)

/-- The value of the first record with key `k`, zero when there is none. -/
def valAt (l : List β) (k : κ) : V :=
  ((lookup key l k).map val).getD 0

/-- The values of every record with key `k`, summed. -/
def sumAt (l : List β) (k : κ) : V :=
  (l.map fun b => if key b = k then val b else 0).sum

variable {key val} {l m : List β} {k : κ}

@[simp]
theorem sumAt_nil : sumAt key val [] k = 0 := rfl

@[simp]
theorem sumAt_cons (b : β) : sumAt key val (b :: l) k = (if key b = k then val b else 0) +
    sumAt key val l k := by
  simp [sumAt]

@[simp]
theorem sumAt_append : sumAt key val (l ++ m) k = sumAt key val l k + sumAt key val m k := by
  simp [sumAt]

theorem sumAt_eq_zero (h : ∀ b ∈ l, key b ≠ k) : sumAt key val l k = 0 :=
  List.sum_eq_zero fun x hx => by
    obtain ⟨b, hb, rfl⟩ := List.mem_map.mp hx
    exact if_neg (h b hb)

/-- Dropping records of value zero leaves every sum as it is. -/
theorem sumAt_filter {p : β → Bool} (hp : ∀ b, p b = false → val b = 0) :
    sumAt key val (l.filter p) k = sumAt key val l k := by
  induction l with
  | nil => rfl
  | cons b l ih =>
    rw [List.filter_cons]
    by_cases hb : p b
    · rw [if_pos hb, sumAt_cons, sumAt_cons, ih]
    · rw [if_neg hb, ih, sumAt_cons, hp b (by simpa using hb)]
      simp

theorem sumAt_perm (h : l.Perm m) : sumAt key val l k = sumAt key val m k :=
  (h.map _).sum_eq

/-- A map of the records that keeps their keys and maps their values additively. -/
theorem sumAt_map {γ W : Type} [AddCommMonoid W] {key' : γ → κ} {val' : γ → W} {f : β → γ}
    (φ : V →+ W) (hkey : ∀ b, key' (f b) = key b) (hval : ∀ b, val' (f b) = φ (val b)) :
    sumAt key' val' (l.map f) k = φ (sumAt key val l k) := by
  induction l with
  | nil => simp
  | cons b l ih =>
    rw [List.map_cons, sumAt_cons, sumAt_cons, ih, hkey, hval, map_add]
    split_ifs <;> simp

theorem lookup_eq_none (h : ∀ b ∈ l, key b ≠ k) : lookup key l k = none :=
  List.find?_eq_none.mpr fun b hb => by simpa using h b hb

theorem lookup_append_of_forall_ne (h : ∀ b ∈ l, key b ≠ k) :
    lookup key (l ++ m) k = lookup key m k := by
  rw [lookup, List.find?_append, ← lookup, lookup_eq_none h, Option.none_or]
  rfl

/-- On a list sorted by key the first record of a key is its only one. -/
theorem valAt_eq_sumAt (h : SortedKeys key l) : valAt key val l k = sumAt key val l k := by
  induction l with
  | nil => rfl
  | cons b l ih =>
    rw [sumAt_cons, ← ih (List.Pairwise.of_cons h)]
    by_cases hb : key b = k
    · -- the later records have keys above `k`
      have hrest : ∀ c ∈ l, key c ≠ k := fun c hc =>
        (hb ▸ List.rel_of_pairwise_cons h hc).ne'
      have hnone : lookup key l k = none := lookup_eq_none hrest
      simp only [lookup] at hnone
      simp [valAt, lookup, hb, hnone]
    · simp [valAt, lookup, hb]

/-- On a list sorted by key a record holds everything of its key. -/
theorem sumAt_of_mem {b : β} (h : SortedKeys key l) (hb : b ∈ l) :
    sumAt key val l (key b) = val b := by
  induction l with
  | nil => cases hb
  | cons c l ih =>
    rw [sumAt_cons]
    rcases List.mem_cons.mp hb with rfl | hb
    · -- the later records have keys above that of `b`
      rw [if_pos rfl, sumAt_eq_zero fun c hc => (List.rel_of_pairwise_cons h hc).ne', add_zero]
    · rw [if_neg (List.rel_of_pairwise_cons h hb).ne, zero_add, ih (List.Pairwise.of_cons h) hb]

/-- A property of values that zero lacks holds of some record of a sorted list exactly when it
holds at some key. -/
theorem exists_mem_iff_exists_sumAt {P : V → Prop} (h : SortedKeys key l) (hP : ¬P 0) :
    (∃ b ∈ l, P (val b)) ↔ ∃ k, P (sumAt key val l k) := by
  constructor
  · rintro ⟨b, hb, hPb⟩
    have hsum : sumAt key val l (key b) = val b := sumAt_of_mem h hb
    exact ⟨key b, hsum.symm ▸ hPb⟩
  · rintro ⟨k, hPk⟩
    rw [← valAt_eq_sumAt h, valAt] at hPk
    cases hl : lookup key l k with
    | none => exact absurd (by simpa [hl] using hPk) hP
    | some b =>
      rw [hl] at hPk
      exact ⟨b, List.mem_of_find?_eq_some hl, hPk⟩

theorem SortedKeys.map {γ : Type} {key' : γ → κ} {f : β → γ} (hkey : ∀ b, key' (f b) = key b)
    (h : SortedKeys key l) : SortedKeys key' (l.map f) :=
  List.pairwise_map.mpr (h.imp fun {a b} hab => by rwa [hkey, hkey])

/-- A map of the records that keeps their keys, and maps the value of each by a function of its
key that keeps zero. -/
theorem valAt_map {γ W : Type} [AddCommMonoid W] {key' : γ → κ} {val' : γ → W} {f : β → γ}
    {g : κ → V → W} (hkey : ∀ b, key' (f b) = key b) (hval : ∀ b, val' (f b) = g (key b) (val b))
    (hg : ∀ k, g k 0 = 0) : valAt key' val' (l.map f) k = g k (valAt key val l k) := by
  have hp : ((fun c => decide (key' c = k)) ∘ f) = fun b => decide (key b = k) :=
    funext fun b => by rw [Function.comp_apply, hkey]
  unfold valAt lookup
  rw [List.find?_map, hp]
  cases hl : l.find? (fun b => decide (key b = k)) with
  | none => exact (hg k).symm
  | some b =>
    have hbk : key b = k := by simpa using List.find?_some hl
    simp [hval, hbk]

end Values

/-! ### The two-pointer merge -/

section Merge

variable (key) (add : β → β → β) (isEmpty : β → Bool)

/-- The merge of two lists sorted by key, after the records `acc` it has already emitted:
while both lists have records it emits the one of lower key, or the sum of the two of equal
key, each only when it is not empty; once one list runs out it emits the non-empty records of
the other. -/
def mergeLoop (acc : List β) : List β → List β → List β
  | [], bs => acc ++ bs.filter fun b => !isEmpty b
  | a :: as, [] => acc ++ (a :: as).filter fun a => !isEmpty a
  | a :: as, b :: bs =>
    match compare (key a) (key b) with
    | .lt => mergeLoop (if isEmpty a then acc else acc ++ [a]) as (b :: bs)
    | .eq => mergeLoop (if isEmpty (add a b) then acc else acc ++ [add a b]) as bs
    | .gt => mergeLoop (if isEmpty b then acc else acc ++ [b]) (a :: as) bs

variable {key add isEmpty}

/-- Everything the merge emits was emitted before it started or is not empty. -/
theorem mem_mergeLoop {acc as bs : List β} {x : β} (hx : x ∈ mergeLoop key add isEmpty acc as bs) :
    x ∈ acc ∨ isEmpty x = false := by
  fun_induction mergeLoop key add isEmpty acc as bs with
  | case1 acc bs =>
    rcases List.mem_append.mp hx with hx | hx
    · exact .inl hx
    · exact .inr (by simpa using (List.mem_filter.mp hx).2)
  | case2 acc a as =>
    rcases List.mem_append.mp hx with hx | hx
    · exact .inl hx
    · exact .inr (by simpa using (List.mem_filter.mp hx).2)
  | case3 acc a as b bs _ ih | case4 acc a as b bs _ ih | case5 acc a as b bs _ ih =>
    rcases ih hx with hx | hx
    · split_ifs at hx with he
      · exact .inl hx
      · rcases List.mem_append.mp hx with hx | hx
        · exact .inl hx
        · rw [List.mem_singleton.mp hx]
          exact .inr (Bool.eq_false_iff.mpr he)
    · exact .inr hx

/-- The merge keeps the keys strictly increasing: the invariant is that what it has emitted
lies below what is left of either list. -/
theorem sortedKeys_mergeLoop (hkey : ∀ a b, key (add a b) = key a) {acc as bs : List β}
    (has : SortedKeys key (acc ++ as)) (hbs : SortedKeys key (acc ++ bs)) :
    SortedKeys key (mergeLoop key add isEmpty acc as bs) := by
  fun_induction mergeLoop key add isEmpty acc as bs with
  | case1 acc bs =>
    exact hbs.sublist (List.filter_sublist.append_left acc)
  | case2 acc a as =>
    exact has.sublist (List.filter_sublist.append_left acc)
  | case3 acc a as b bs hlt ih =>
    have hab : key a < key b := compare_lt_iff_lt.mp hlt
    split_ifs at ih ⊢
    · exact ih (has.sublist ((List.sublist_cons_self a as).append_left acc)) hbs
    · simpa using ih (by simpa using has) (by simpa using has.insert hbs hab)
  | case4 acc a as b bs heq ih =>
    have hab : key a = key b := compare_eq_iff_eq.mp heq
    have hsub : ∀ c l, List.Sublist (acc ++ l) (acc ++ c :: l) := fun c l =>
      (List.sublist_cons_self c l).append_left acc
    split_ifs at ih ⊢
    · exact ih (has.sublist (hsub a as)) (hbs.sublist (hsub b bs))
    · have has' : SortedKeys key (acc ++ [add a b] ++ as) := by
        simpa using has.replace (hkey a b)
      have hbs' : SortedKeys key (acc ++ [add a b] ++ bs) := by
        simpa using hbs.replace ((hkey a b).trans hab)
      exact ih has' hbs'
  | case5 acc a as b bs hgt ih =>
    have hba : key b < key a := compare_gt_iff_gt.mp hgt
    split_ifs at ih ⊢
    · exact ih has (hbs.sublist ((List.sublist_cons_self b bs).append_left acc))
    · simpa using ih (by simpa using hbs.insert has hba) (by simpa using hbs)

/-- Merging two sorted lists from nothing gives a sorted list with no empty record. -/
theorem canonical_mergeLoop (hkey : ∀ a b, key (add a b) = key a) {as bs : List β}
    (has : SortedKeys key as) (hbs : SortedKeys key bs) :
    Canonical key isEmpty (mergeLoop key add isEmpty [] as bs) :=
  ⟨sortedKeys_mergeLoop hkey has hbs, fun _ hx => (mem_mergeLoop hx).resolve_left List.not_mem_nil⟩

variable [AddCommMonoid V] {val : β → V}

/-- The merge sums, key by key, what it started from and the two lists. -/
theorem sumAt_mergeLoop (hkey : ∀ a b, key (add a b) = key a)
    (hval : ∀ a b, val (add a b) = val a + val b) (hempty : ∀ b, isEmpty b = true → val b = 0)
    (acc as bs : List β) (k : κ) :
    sumAt key val (mergeLoop key add isEmpty acc as bs) k =
      sumAt key val acc k + sumAt key val as k + sumAt key val bs k := by
  have hdrop : ∀ l : List β, sumAt key val (l.filter fun b => !isEmpty b) k = sumAt key val l k :=
    fun l => sumAt_filter fun b hb => hempty b (by simpa using hb)
  -- a record is emitted unless it is empty, and an empty record adds nothing
  have hemit : ∀ (acc : List β) (c : β), sumAt key val (if isEmpty c then acc else acc ++ [c]) k =
      sumAt key val acc k + if key c = k then val c else 0 := fun acc c => by
    by_cases hc : isEmpty c
    · simp [hc, hempty c hc]
    · simp [hc]
  fun_induction mergeLoop key add isEmpty acc as bs with
  | case1 acc bs => simp [hdrop]
  | case2 acc a as => rw [sumAt_append, hdrop, sumAt_nil, add_zero]
  | case3 acc a as b bs _ ih =>
    rw [dite_eq_ite] at ih
    rw [ih, hemit]
    simp only [sumAt_cons]
    abel
  | case4 acc a as b bs heq ih =>
    have hab : key a = key b := compare_eq_iff_eq.mp heq
    rw [dite_eq_ite] at ih
    rw [ih, hemit, sumAt_cons, sumAt_cons, hkey, hval, ← hab]
    split_ifs <;> abel
  | case5 acc a as b bs _ ih =>
    rw [dite_eq_ite] at ih
    rw [ih, hemit]
    simp only [sumAt_cons]
    abel

end Merge

/-! ### Binary search -/

section Search

variable (key)

/-- The binary search for key `k`: a list of one record is checked directly, a longer one is
split at its middle record and searched on the side where `k` lies. -/
def search : List β → κ → Option β
  | [], _ => none
  | [b], k => if key b = k then some b else none
  | a :: b :: rest, k =>
    have hmid : (rest.length + 2) / 2 < (a :: b :: rest).length := by
      rw [List.length_cons, List.length_cons]
      omega
    let mid := (a :: b :: rest).get ⟨(rest.length + 2) / 2, hmid⟩
    if k < key mid then search ((a :: b :: rest).take ((rest.length + 2) / 2)) k
    else if k = key mid then some mid
    else search ((a :: b :: rest).drop ((rest.length + 2) / 2 + 1)) k
termination_by l => l.length
decreasing_by
  all_goals simp only [List.length_take, List.length_drop, List.length_cons]
  all_goals omega

variable {key}

/-- The list split at its record `i`. -/
theorem eq_take_append_get_cons_drop (l : List β) (i : ℕ) (hi : i < l.length) :
    l = l.take i ++ l.get ⟨i, hi⟩ :: l.drop (i + 1) := by
  rw [List.get_eq_getElem, ← List.drop_eq_getElem_cons, List.take_append_drop]

/-- On a list sorted by key, the records before `m` lie below it and those after it above, so a
lookup goes to one side of `m`. -/
theorem lookup_split {l₁ l₂ : List β} {m : β} (h : SortedKeys key (l₁ ++ m :: l₂)) (k : κ) :
    lookup key (l₁ ++ m :: l₂) k =
      if k < key m then lookup key l₁ k else if k = key m then some m else lookup key l₂ k := by
  simp only [SortedKeys, List.pairwise_append, List.pairwise_cons] at h
  obtain ⟨-, ⟨hm₂, -⟩, h₁m⟩ := h
  have h₁ : ∀ b ∈ l₁, key b < key m := fun b hb => h₁m b hb m List.mem_cons_self
  split_ifs with hlt heq
  · -- `m` and everything after it lie above `k`
    have hnone : lookup key (m :: l₂) k = none := lookup_eq_none fun b hb => by
      rcases List.mem_cons.mp hb with rfl | hb
      · exact hlt.ne'
      · exact (hlt.trans (hm₂ b hb)).ne'
    rw [lookup, List.find?_append, ← lookup, ← lookup, hnone, Option.or_none]
  · rw [lookup_append_of_forall_ne fun b hb => heq ▸ (h₁ b hb).ne, lookup, List.find?_cons,
      decide_eq_true (heq.symm)]
  · -- `k` lies above `m` and everything before it
    have hgt : key m < k := lt_of_le_of_ne (not_lt.mp hlt) (Ne.symm heq)
    rw [lookup_append_of_forall_ne fun b hb => ((h₁ b hb).trans hgt).ne, lookup, List.find?_cons,
      decide_eq_false (Ne.symm heq)]
    rfl

/-- The lookup of a sorted list, split at its record `i`. -/
theorem lookup_eq_ite_get {l : List β} (h : SortedKeys key l) (i : ℕ) (hi : i < l.length) (k : κ) :
    lookup key l k =
      if k < key (l.get ⟨i, hi⟩) then lookup key (l.take i) k
      else if k = key (l.get ⟨i, hi⟩) then some (l.get ⟨i, hi⟩)
      else lookup key (l.drop (i + 1)) k := by
  have hsplit := eq_take_append_get_cons_drop l i hi
  rw [hsplit] at h
  conv_lhs => rw [hsplit]
  exact lookup_split h k

/-- On a list sorted by key the binary search finds what the linear search finds: each step
keeps the side of the middle record where the key can be. -/
theorem search_eq_lookup {l : List β} {k : κ} (h : SortedKeys key l) :
    search key l k = lookup key l k := by
  fun_induction search key l k with
  | case1 k => rfl
  | case2 b => simp [lookup]
  | case3 b k hne => simp [lookup, hne]
  | case4 a b rest k hmid mid hlt ih =>
    rw [ih (h.sublist (List.take_sublist _ _)), lookup_eq_ite_get h _ hmid, if_pos hlt]
  | case5 a b rest hmid mid hnlt =>
    rw [lookup_eq_ite_get h _ hmid, if_neg hnlt, if_pos rfl]
  | case6 a b rest k hmid mid hnlt hne ih =>
    rw [ih (h.sublist (List.drop_sublist _ _)), lookup_eq_ite_get h _ hmid, if_neg hnlt,
      if_neg hne]

end Search

/-! ### Gathering the records of each key -/

section Coalesce

variable (key) (mk : κ → β) (add : β → β → β) (isEmpty : β → Bool)

/-- The records of `l` gathered by key: for each key, in order of first appearance, the records
of that key added up from the empty record `mk k`; the empty sums are dropped and the others
sorted by key. -/
def coalesce (l : List β) : List β :=
  let combos := (l.map key).dedup.map fun k => (l.filter fun b => key b = k).foldl add (mk k)
  (combos.filter fun b => !isEmpty b).mergeSort fun a b => key a ≤ key b

variable {key mk add isEmpty}

omit [LinearOrder κ] in
theorem key_foldl (hkey : ∀ a b, key (add a b) = key a) (l : List β) (init : β) :
    key (l.foldl add init) = key init := by
  induction l generalizing init with
  | nil => rfl
  | cons b l ih => rw [List.foldl_cons, ih, hkey]

/-- Distinct keys in a list sorted by `≤` strictly increase. -/
theorem sortedKeys_of_pairwise_le {l : List β} (hle : l.Pairwise fun a b => key a ≤ key b)
    (hnd : (l.map key).Nodup) : SortedKeys key l :=
  (hle.and (List.pairwise_map.mp hnd)).imp fun h => lt_of_le_of_ne h.1 h.2

theorem mem_coalesce {l : List β} {x : β} (hx : x ∈ coalesce key mk add isEmpty l) :
    isEmpty x = false := by
  simpa using (List.mem_filter.mp ((List.mergeSort_perm _ _).mem_iff.mp hx)).2

theorem sortedKeys_coalesce (hkey : ∀ a b, key (add a b) = key a) (hmk : ∀ k, key (mk k) = k)
    (l : List β) : SortedKeys key (coalesce key mk add isEmpty l) := by
  -- the gathered records carry the distinct keys of `l`, one each
  have hcombos : ((l.map key).dedup.map fun k =>
      (l.filter fun b => key b = k).foldl add (mk k)).map key = (l.map key).dedup := by
    rw [List.map_map]
    exact List.map_id'' (fun k => by rw [Function.comp_apply, key_foldl hkey, hmk]) _
  have hnd := hcombos ▸ List.nodup_dedup (l.map key)
  refine sortedKeys_of_pairwise_le ?_ ?_
  · refine (List.pairwise_mergeSort (fun a b c hab hbc => ?_) (fun a b => ?_) _).imp fun h => ?_
    · simp only [decide_eq_true_eq] at hab hbc ⊢
      exact hab.trans hbc
    · simpa using le_total (key a) (key b)
    · simpa using h
  · exact ((List.mergeSort_perm _ _).map key).nodup_iff.mpr
      ((List.filter_sublist.map key).nodup hnd)

theorem canonical_coalesce (hkey : ∀ a b, key (add a b) = key a) (hmk : ∀ k, key (mk k) = k)
    (l : List β) : Canonical key isEmpty (coalesce key mk add isEmpty l) :=
  ⟨sortedKeys_coalesce hkey hmk l, fun _ hx => mem_coalesce hx⟩

variable [AddCommMonoid V] {val : β → V}

theorem val_foldl (hval : ∀ a b, val (add a b) = val a + val b) (l : List β) (init : β) :
    val (l.foldl add init) = val init + (l.map val).sum := by
  induction l generalizing init with
  | nil => simp
  | cons b l ih => rw [List.foldl_cons, ih, hval, List.map_cons, List.sum_cons, add_assoc]

theorem sumAt_eq_sum_filter (l : List β) (k : κ) :
    sumAt key val l k = ((l.filter fun b => key b = k).map val).sum := by
  induction l with
  | nil => rfl
  | cons b l ih =>
    rw [sumAt_cons, ih, List.filter_cons]
    by_cases hb : key b = k <;> simp [hb]

/-- One record for each of some distinct keys. -/
theorem sumAt_map_of_nodup {F : κ → β} (hF : ∀ k, key (F k) = k) {ks : List κ} (hks : ks.Nodup)
    (k : κ) : sumAt key val (ks.map F) k = if k ∈ ks then val (F k) else 0 := by
  induction ks with
  | nil => simp
  | cons k' ks ih =>
    rw [List.map_cons, sumAt_cons, ih (List.nodup_cons.mp hks).2, hF]
    by_cases hk : k' = k
    · subst hk
      simp [(List.nodup_cons.mp hks).1]
    · simp [hk, Ne.symm hk]

/-- Gathering keeps every sum. -/
theorem sumAt_coalesce (hkey : ∀ a b, key (add a b) = key a)
    (hval : ∀ a b, val (add a b) = val a + val b) (hmk : ∀ k, key (mk k) = k ∧ val (mk k) = 0)
    (hempty : ∀ b, isEmpty b = true → val b = 0) (l : List β) (k : κ) :
    sumAt key val (coalesce key mk add isEmpty l) k = sumAt key val l k := by
  rw [coalesce, sumAt_perm (List.mergeSort_perm _ _),
    sumAt_filter fun b hb => hempty b (by simpa using hb),
    sumAt_map_of_nodup (fun k => by rw [key_foldl hkey, (hmk k).1]) (List.nodup_dedup _)]
  split_ifs with hk
  · rw [val_foldl hval, (hmk k).2, zero_add, sumAt_eq_sum_filter]
  · -- a key of no record sums to zero
    refine (sumAt_eq_zero fun b hb hbk => hk ?_).symm
    exact List.mem_dedup.mpr (List.mem_map.mpr ⟨b, hb, hbk⟩)

end Coalesce

end SortedAssoc
