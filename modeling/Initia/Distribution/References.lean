import Mathlib
import Initia.Distribution.Keeper

/-!
# Reference counting of the historical rewards

A historical record `(validator, period)` is referred to by the validator while its running
period is the next one, by the starting info of every delegation that started after it, and by
every slash event that ended it (`State.referencesTo`). Its `ReferenceCount` is meant to be the
number of these references: a record is deleted with its last reference, and no reference may
name a record that is gone.

`State.ReferencesCounted` says so, together with what keeps it true: every record is of a period
the validator has ended, and only the last ended period, which the validator still refers to,
may have a second reference. A second reference is only ever added to a period that was just
ended, whose record has the validator's reference alone (`State.PeriodFresh`). Each function of
the keeper and each hook keeps the invariant; `Distribution.Machine` assembles them.
-/

namespace Initia.Distribution

open Initia.Sdk Initia.Mstaking Std

namespace State

/-- The references to the historical record of `key`: the validator whose running period
follows it, and the starting infos and slash events that name it. -/
def referencesTo (s : State) (key : ℕ × ℕ) : ℤ :=
  s.currentRewards.countBy (fun valAddr rewards => (valAddr, rewards.period - 1) = key) +
    s.startingInfos.countBy (fun k info => (k.1, info.previousPeriod) = key) +
    s.slashEvents.countBy fun k event => (k.1, event.validatorPeriod) = key

/-- Every reference count is the number of references to its record. -/
structure ReferencesCounted (s : State) : Prop where
  /-- A record counts its references and has one; it is of an ended period of its validator,
  and only the last ended period may be referred to twice. -/
  record : ∀ key historical, s.historicalRewards[key]? = some historical →
    (historical.referenceCount : ℤ) = s.referencesTo key ∧ 0 < historical.referenceCount ∧
    ∃ rewards, s.currentRewards[key.1]? = some rewards ∧ key.2 < rewards.period ∧
      historical.referenceCount ≤ if key.2 + 1 = rewards.period then 2 else 1
  /-- Whatever is referred to is recorded. -/
  referred : ∀ key, 0 < s.referencesTo key → key ∈ s.historicalRewards
  /-- A slash event is keyed by the period it ended. -/
  slash_key : ∀ (key : ℕ × ℕ × ℕ) (event : SlashEvent), s.slashEvents[key]? = some event →
    key.2.2 = event.validatorPeriod

/-- The period the validator ended last has the validator's reference alone. -/
def PeriodFresh (s : State) (valAddr : ℕ) : Prop :=
  ∃ rewards historical, s.currentRewards[valAddr]? = some rewards ∧
    s.historicalRewards[(valAddr, rewards.period - 1)]? = some historical ∧
    historical.referenceCount = 1

theorem referencesTo_nonneg (s : State) (key : ℕ × ℕ) : 0 ≤ s.referencesTo key := by
  have h₁ := s.currentRewards.countBy_nonneg
    (p := fun valAddr rewards => (valAddr, rewards.period - 1) = key)
  have h₂ := s.startingInfos.countBy_nonneg (p := fun k info => (k.1, info.previousPeriod) = key)
  have h₃ := s.slashEvents.countBy_nonneg (p := fun k event => (k.1, event.validatorPeriod) = key)
  unfold referencesTo
  omega

/-- The validator refers to the period before its running one. -/
theorem one_le_referencesTo_current {s : State} {valAddr : ℕ} {rewards : CurrentRewards}
    (h : s.currentRewards[valAddr]? = some rewards) :
    1 ≤ s.currentRewards.countBy fun v r => (v, r.period - 1) = (valAddr, rewards.period - 1) :=
  TreeMap.one_le_countBy h rfl

/-- The references of a state depend on the periods of its current rewards alone, and on its
starting infos and slash events. -/
theorem referencesTo_eq_of_periods {s s' : State}
    (hcur : ∀ valAddr : ℕ, s'.currentRewards[valAddr]?.map CurrentRewards.period =
      s.currentRewards[valAddr]?.map CurrentRewards.period)
    (hsi : s'.startingInfos = s.startingInfos) (hse : s'.slashEvents = s.slashEvents) :
    s'.referencesTo = s.referencesTo := by
  funext key
  unfold referencesTo TreeMap.countBy
  rw [hsi, hse, TreeMap.sumBy_congr_map hcur fun valAddr period =>
    if (valAddr, period - 1) = key then (1 : ℤ) else 0]

/-- Writing the current rewards of a validator moves its reference from the period before the
old running one to the period before the new one. -/
theorem referencesTo_of_insert_current {s s' : State} {valAddr : ℕ} {rewards : CurrentRewards}
    (hcur : s'.currentRewards = s.currentRewards.insert valAddr rewards)
    (hsi : s'.startingInfos = s.startingInfos) (hse : s'.slashEvents = s.slashEvents)
    (old : Option CurrentRewards) (hold : s.currentRewards[valAddr]? = old) (key : ℕ × ℕ) :
    s'.referencesTo key = s.referencesTo key -
      (old.map fun r => if (valAddr, r.period - 1) = key then 1 else 0).getD 0 +
      if (valAddr, rewards.period - 1) = key then 1 else 0 := by
  unfold referencesTo
  rw [hcur, hsi, hse, TreeMap.countBy_insert, hold]
  ring

/-- States with the same records have the same references. -/
theorem SameRecords.referencesTo_eq {s s' : State} (h : s.SameRecords s') :
    s'.referencesTo = s.referencesTo :=
  referencesTo_eq_of_periods h.periods h.startingInfos h.slashEvents

/-- A period with the validator's reference alone is named by no starting info and no slash
event. -/
theorem ReferencesCounted.fresh_unnamed {s : State} {valAddr : ℕ} {rewards : CurrentRewards}
    {historical : HistoricalRewards} (hs : s.ReferencesCounted)
    (hrew : s.currentRewards[valAddr]? = some rewards)
    (hhist : s.historicalRewards[(valAddr, rewards.period - 1)]? = some historical)
    (hone : historical.referenceCount = 1) :
    s.startingInfos.countBy (fun k info => (k.1, info.previousPeriod) = (valAddr, rewards.period - 1)) = 0 ∧
      s.slashEvents.countBy fun k event => (k.1, event.validatorPeriod) = (valAddr, rewards.period - 1)
        = 0 := by
  have hcount := (hs.record _ _ hhist).1
  have hcur := one_le_referencesTo_current hrew
  have hsi := s.startingInfos.countBy_nonneg
    (p := fun k info => (k.1, info.previousPeriod) = (valAddr, rewards.period - 1))
  have hse := s.slashEvents.countBy_nonneg
    (p := fun k event => (k.1, event.validatorPeriod) = (valAddr, rewards.period - 1))
  rw [hone] at hcount
  unfold referencesTo at hcount
  push_cast at hcount
  omega

/-! ### Records that only hold coins -/

/-- Counting survives any change of the coins alone. -/
theorem ReferencesCounted.of_sameRecords {s s' : State} (hs : s.ReferencesCounted)
    (h : s.SameRecords s') : s'.ReferencesCounted := by
  have hrefs := h.referencesTo_eq
  refine ⟨fun key historical hkey => ?_, fun key hkey => ?_, fun key event hkey => ?_⟩
  · rw [h.historicalRewards] at hkey
    obtain ⟨hcount, hpos, rewards, hr, hlt, hle⟩ := hs.record key historical hkey
    -- the validator is in the same period
    have hperiod := h.periods key.1
    rw [hr, Option.map_some] at hperiod
    obtain ⟨rewards', hr', hsame⟩ := Option.map_eq_some_iff.mp hperiod
    rw [← hsame] at hlt hle
    exact ⟨by rw [hrefs]; exact hcount, hpos, rewards', hr', hlt, hle⟩
  · rw [h.historicalRewards]
    rw [hrefs] at hkey
    exact hs.referred key hkey
  · rw [h.slashEvents] at hkey
    exact hs.slash_key key event hkey

/-! ### One reference more or fewer -/

/-- A second reference to the period a validator ended last, while that period has the
validator's reference alone, keeps the count. -/
theorem ReferencesCounted.addReference {s s' : State} {valAddr : ℕ} {rewards : CurrentRewards}
    {historical : HistoricalRewards} (hs : s.ReferencesCounted)
    (hrew : s.currentRewards[valAddr]? = some rewards)
    (hhist : s.historicalRewards[(valAddr, rewards.period - 1)]? = some historical)
    (hone : historical.referenceCount = 1)
    (hrecords : s'.historicalRewards = s.historicalRewards.insert (valAddr, rewards.period - 1)
      { historical with referenceCount := historical.referenceCount + 1 })
    (hcur : s'.currentRewards = s.currentRewards)
    (hrefs : ∀ key, s'.referencesTo key =
      s.referencesTo key + if (valAddr, rewards.period - 1) = key then 1 else 0)
    (hslash : ∀ (key : ℕ × ℕ × ℕ) (event : SlashEvent), s'.slashEvents[key]? = some event →
      key.2.2 = event.validatorPeriod) :
    s'.ReferencesCounted := by
  obtain ⟨hcount, -, r, hr, hlt, -⟩ := hs.record _ _ hhist
  obtain rfl : rewards = r := Option.some.inj (hrew.symm.trans hr)
  simp only at hlt
  refine ⟨fun key historical' hkey => ?_, fun key hkey => ?_, hslash⟩
  · rw [hcur, hrefs]
    by_cases hk : (valAddr, rewards.period - 1) = key
    · -- the period gets its second reference
      subst hk
      rw [hrecords, TreeMap.getElem?_insert_self] at hkey
      cases hkey
      refine ⟨?_, Nat.succ_pos _, rewards, hrew, hlt, ?_⟩
      · rw [if_pos rfl, ← hcount]
        push_cast
        rfl
      · show historical.referenceCount + 1 ≤ _
        rw [hone, if_pos (by omega)]
    · rw [hrecords, TreeMap.getElem?_insert, if_neg (mt Std.compare_eq_iff_eq.mp hk)] at hkey
      obtain ⟨hc, hpos, r', hr', hlt', hle'⟩ := hs.record _ _ hkey
      exact ⟨by rw [if_neg hk, add_zero, hc], hpos, r', hr', hlt', hle'⟩
  · rw [hrecords, TreeMap.mem_insert, Std.compare_eq_iff_eq]
    rw [hrefs] at hkey
    by_cases hk : (valAddr, rewards.period - 1) = key
    · exact Or.inl hk
    · rw [if_neg hk, add_zero] at hkey
      exact Or.inr (hs.referred key hkey)

/-- Dropping a reference to a record lowers its count by one, and deletes the record with its
last reference. -/
theorem ReferencesCounted.dropReference {s s' : State} {key₀ : ℕ × ℕ}
    {historical : HistoricalRewards} (hs : s.ReferencesCounted)
    (hhist : s.historicalRewards[key₀]? = some historical)
    (hrecords : s'.historicalRewards =
      if historical.referenceCount = 1 then s.historicalRewards.erase key₀
      else s.historicalRewards.insert key₀
        { historical with referenceCount := historical.referenceCount - 1 })
    (hcur : s'.currentRewards = s.currentRewards)
    (hrefs : ∀ key, s'.referencesTo key = s.referencesTo key - if key₀ = key then 1 else 0)
    (hslash : ∀ (key : ℕ × ℕ × ℕ) (event : SlashEvent), s'.slashEvents[key]? = some event →
      key.2.2 = event.validatorPeriod) :
    s'.ReferencesCounted := by
  obtain ⟨hcount, hpos, r, hr, hlt, hle⟩ := hs.record _ _ hhist
  -- every other record is untouched
  have hother : ∀ key, key₀ ≠ key → s'.historicalRewards[key]? = s.historicalRewards[key]? := by
    intro key hk
    rw [hrecords]
    split_ifs
    · rw [TreeMap.getElem?_erase, if_neg (mt Std.compare_eq_iff_eq.mp hk)]
    · rw [TreeMap.getElem?_insert, if_neg (mt Std.compare_eq_iff_eq.mp hk)]
  refine ⟨fun key historical' hkey => ?_, fun key hkey => ?_, hslash⟩
  · rw [hcur, hrefs]
    by_cases hk : key₀ = key
    · -- the record keeps its other references
      subst hk
      rw [hrecords] at hkey
      split_ifs at hkey with hc
      · rw [TreeMap.getElem?_erase_self] at hkey
        cases hkey
      rw [TreeMap.getElem?_insert_self] at hkey
      cases hkey
      refine ⟨?_, by simp only; omega, r, hr, hlt, (Nat.sub_le _ _).trans hle⟩
      rw [if_pos rfl, ← hcount]
      simp only
      push_cast [Nat.one_le_iff_ne_zero.mpr hpos.ne']
      rfl
    · rw [hother key hk] at hkey
      obtain ⟨hc, hpos', r', hr', hlt', hle'⟩ := hs.record _ _ hkey
      exact ⟨by rw [if_neg hk, sub_zero, hc], hpos', r', hr', hlt', hle'⟩
  · rw [hrefs] at hkey
    by_cases hk : key₀ = key
    · -- a record still referred to had two references, and survives
      subst hk
      rw [if_pos rfl] at hkey
      have hc : historical.referenceCount ≠ 1 := by omega
      rw [hrecords, if_neg hc, TreeMap.mem_insert]
      exact Or.inl ReflCmp.compare_self
    · rw [if_neg hk, sub_zero] at hkey
      rw [TreeMap.mem_iff_isSome_getElem?, hother key hk, ← TreeMap.mem_iff_isSome_getElem?]
      exact hs.referred key hkey

/-! ### A new validator -/

/-- A new validator refers to its period zero, whose record is new. -/
theorem ReferencesCounted.initializeValidator {s : State} {val : Validator}
    (hs : s.ReferencesCounted) (hnew : s.currentRewards[val.operatorAddress]? = none) :
    (Distribution.initializeValidator s val).ReferencesCounted := by
  set v := val.operatorAddress with hv
  have hcur : (Distribution.initializeValidator s val).currentRewards = s.currentRewards.insert v ⟨0, 1⟩ := rfl
  have hrecords :
      (Distribution.initializeValidator s val).historicalRewards = s.historicalRewards.insert (v, 0) ⟨0, 1⟩ :=
    rfl
  have hrefs := referencesTo_of_insert_current hcur rfl rfl none hnew
  simp only [Option.map_none, Option.getD_none, sub_zero, Nat.sub_self] at hrefs
  -- the validator has no record yet, and nothing refers to one
  have hfree : ∀ key, key ∈ s.historicalRewards → key.1 ≠ v := fun key hmem hk => by
    obtain ⟨h', hh'⟩ := Option.isSome_iff_exists.mp (TreeMap.mem_iff_isSome_getElem?.mp hmem)
    obtain ⟨-, -, r, hr, -⟩ := hs.record _ _ hh'
    rw [hk, hnew] at hr
    cases hr
  have hzero : s.referencesTo (v, 0) = 0 := by
    have := s.referencesTo_nonneg (v, 0)
    by_contra hne
    exact hfree _ (hs.referred (v, 0) (by omega)) rfl
  refine ⟨fun key historical hkey => ?_, fun key hkey => ?_, hs.slash_key⟩
  · rw [hcur, hrefs]
    by_cases hk : (v, 0) = key
    · subst hk
      rw [hrecords, TreeMap.getElem?_insert_self] at hkey
      cases hkey
      exact ⟨by rw [hzero, if_pos rfl]; rfl, Nat.one_pos, ⟨0, 1⟩, TreeMap.getElem?_insert_self,
        Nat.one_pos, by simp⟩
    · rw [hrecords, TreeMap.getElem?_insert, if_neg (mt Std.compare_eq_iff_eq.mp hk)] at hkey
      obtain ⟨hc, hpos, r, hr, hlt, hle⟩ := hs.record _ _ hkey
      -- a record of another validator, which keeps its period
      have hk1 : v ≠ key.1 :=
        fun he => hfree key (TreeMap.mem_iff_isSome_getElem?.mpr (by rw [hkey]; rfl)) he.symm
      refine ⟨by rw [if_neg hk, add_zero, hc], hpos, r, ?_, hlt, hle⟩
      rw [TreeMap.getElem?_insert, if_neg (mt Std.compare_eq_iff_eq.mp hk1), hr]
  · rw [hrecords, TreeMap.mem_insert, Std.compare_eq_iff_eq]
    rw [hrefs] at hkey
    by_cases hk : (v, 0) = key
    · exact Or.inl hk
    · rw [if_neg hk, add_zero] at hkey
      exact Or.inr (hs.referred key hkey)

/-! ### What the invariant gives -/

section Consequences

variable {s : State} (hs : s.ReferencesCounted)
include hs

/-- The validator's running period follows a recorded one. -/
theorem ReferencesCounted.current_recorded {valAddr : ℕ} {rewards : CurrentRewards}
    (h : s.currentRewards[valAddr]? = some rewards) :
    (valAddr, rewards.period - 1) ∈ s.historicalRewards := by
  refine hs.referred _ ?_
  have hcur := one_le_referencesTo_current h
  have hsi := s.startingInfos.countBy_nonneg
    (p := fun k info => (k.1, info.previousPeriod) = (valAddr, rewards.period - 1))
  have hse := s.slashEvents.countBy_nonneg
    (p := fun k event => (k.1, event.validatorPeriod) = (valAddr, rewards.period - 1))
  unfold referencesTo
  omega

/-- A delegation starts after a recorded period. -/
theorem ReferencesCounted.startingInfo_recorded {key : ℕ × ℕ} {info : StartingInfo}
    (h : s.startingInfos[key]? = some info) : (key.1, info.previousPeriod) ∈ s.historicalRewards := by
  refine hs.referred _ ?_
  have hcur := s.currentRewards.countBy_nonneg
    (p := fun v r => (v, r.period - 1) = (key.1, info.previousPeriod))
  have hsi := TreeMap.one_le_countBy
    (p := fun k info' => (k.1, info'.previousPeriod) = (key.1, info.previousPeriod)) h rfl
  have hse := s.slashEvents.countBy_nonneg
    (p := fun k event => (k.1, event.validatorPeriod) = (key.1, info.previousPeriod))
  unfold referencesTo
  omega

/-- A slash event ended a recorded period. -/
theorem ReferencesCounted.slashEvent_recorded {key : ℕ × ℕ × ℕ} {event : SlashEvent}
    (h : s.slashEvents[key]? = some event) : (key.1, event.validatorPeriod) ∈ s.historicalRewards := by
  refine hs.referred _ ?_
  have hcur := s.currentRewards.countBy_nonneg
    (p := fun v r => (v, r.period - 1) = (key.1, event.validatorPeriod))
  have hsi := s.startingInfos.countBy_nonneg
    (p := fun k info => (k.1, info.previousPeriod) = (key.1, event.validatorPeriod))
  have hse := TreeMap.one_le_countBy
    (p := fun k event' => (k.1, event'.validatorPeriod) = (key.1, event.validatorPeriod)) h rfl
  unfold referencesTo
  omega

/-- The reference counts add up to the number of validators, delegations and slash events: each
of them refers to exactly one record. -/
theorem ReferencesCounted.sumBy_referenceCount :
    s.historicalRewards.sumBy (fun _ historical => (historical.referenceCount : ℤ)) =
      s.currentRewards.size + s.startingInfos.size + s.slashEvents.size := by
  calc s.historicalRewards.sumBy (fun _ historical => (historical.referenceCount : ℤ))
      = s.historicalRewards.sumBy (fun key _ => s.referencesTo key) :=
        TreeMap.sumBy_congr_fun fun key historical hkey => (hs.record key historical hkey).1
    _ = s.currentRewards.size + s.startingInfos.size + s.slashEvents.size := by
        unfold referencesTo
        rw [TreeMap.sumBy_add, TreeMap.sumBy_add,
          TreeMap.sumBy_countBy_eq_size fun _ _ h => hs.current_recorded h,
          TreeMap.sumBy_countBy_eq_size fun _ _ h => hs.startingInfo_recorded h,
          TreeMap.sumBy_countBy_eq_size fun _ _ h => hs.slashEvent_recorded h]

/-- No record is referred to more than twice, so one more reference never exceeds the bound. -/
theorem ReferencesCounted.incrementReferenceCount_isSome {key : ℕ × ℕ}
    (hkey : key ∈ s.historicalRewards) : (incrementReferenceCount s key.1 key.2).isSome := by
  obtain ⟨historical, hhist⟩ := Option.isSome_iff_exists.mp (TreeMap.mem_iff_isSome_getElem?.mp hkey)
  obtain ⟨-, -, r, -, -, hle⟩ := hs.record key historical hhist
  have hbound : historical.referenceCount ≤ 2 := hle.trans (by split_ifs <;> omega)
  simp only [incrementReferenceCount, hhist, Option.bind_eq_bind, Option.bind_some,
    if_neg (Nat.not_lt.mpr hbound), Option.isSome_some]

/-- Every record is referred to, so one reference fewer never goes negative. -/
theorem ReferencesCounted.decrementReferenceCount_isSome {key : ℕ × ℕ}
    (hkey : key ∈ s.historicalRewards) : (decrementReferenceCount s key.1 key.2).isSome := by
  obtain ⟨historical, hhist⟩ := Option.isSome_iff_exists.mp (TreeMap.mem_iff_isSome_getElem?.mp hkey)
  obtain ⟨-, hpos, -⟩ := hs.record key historical hhist
  simp only [decrementReferenceCount, hhist, Option.bind_eq_bind, Option.bind_some,
    if_neg hpos.ne']
  split_ifs <;> rfl

end Consequences

/-! ### Ending a period -/

/-- Ending a period moves the validator's reference to the period it ends, whose record is
new and has that reference alone; the record of the period before loses it, and goes with it if
it was the last. -/
theorem ReferencesCounted.incrementValidatorPeriod {s s' : State} {val : Validator}
    {period : ℕ} (hs : s.ReferencesCounted) (h : incrementValidatorPeriod s val = some (s', period)) :
    s'.ReferencesCounted ∧ s'.PeriodFresh val.operatorAddress := by
  obtain ⟨⟨currentPool, p⟩, current, outstanding, ⟨ratios, c⟩, s₁, hrew, hperiod, -, -, hhist, hdec,
    hs'⟩ := incrementValidatorPeriod_eq_some h
  obtain rfl : p = period := hperiod.symm
  obtain ⟨historical', hhist', hpos, hs₁⟩ := decrementReferenceCount_eq_some hdec
  obtain rfl : (⟨ratios, c⟩ : HistoricalRewards) = historical' :=
    Option.some.inj (hhist.symm.trans hhist')
  set v := val.operatorAddress with hv
  simp only at hpos hhist
  -- the fields of the new state
  have hcur : s'.currentRewards = s.currentRewards.insert v ⟨0, p + 1⟩ := by rw [hs', hs₁]
  have hrecords : s'.historicalRewards =
      (if c = 1 then s.historicalRewards.erase (v, p - 1)
        else s.historicalRewards.insert (v, p - 1) ⟨ratios, c - 1⟩).insert (v, p)
        ⟨ratios + current, 1⟩ := by rw [hs', hs₁]
  have hrefs := referencesTo_of_insert_current hcur (by rw [hs', hs₁])
    (by rw [hs', hs₁]) _ hrew
  simp only [Option.map_some, Option.getD_some, Nat.add_sub_cancel] at hrefs
  -- what the old state says of the period before
  obtain ⟨hcount, -, r, hr, hlt, hle⟩ := hs.record _ _ hhist
  obtain rfl : (⟨currentPool, p⟩ : CurrentRewards) = r := Option.some.inj (hrew.symm.trans hr)
  simp only at hlt hle
  have hp : 0 < p := by omega
  rw [if_pos (by omega)] at hle
  -- the period that ends has no record yet, and so no reference
  have hnew : (v, p) ∉ s.historicalRewards := fun hmem => by
    obtain ⟨h', hh'⟩ := Option.isSome_iff_exists.mp (TreeMap.mem_iff_isSome_getElem?.mp hmem)
    obtain ⟨-, -, r', hr', hlt', -⟩ := hs.record _ _ hh'
    obtain rfl : (⟨currentPool, p⟩ : CurrentRewards) = r' := Option.some.inj (hrew.symm.trans hr')
    exact lt_irrefl _ hlt'
  have hzero : s.referencesTo (v, p) = 0 := by
    have := s.referencesTo_nonneg (v, p)
    by_contra hne
    exact hnew (hs.referred _ (by omega))
  -- a record other than the two touched keeps its count, its references and its bound
  have hother : ∀ key historical'', key ≠ (v, p) → key ≠ (v, p - 1) →
      s.historicalRewards[key]? = some historical'' →
      (historical''.referenceCount : ℤ) = s'.referencesTo key ∧ 0 < historical''.referenceCount ∧
      ∃ rewards', s'.currentRewards[key.1]? = some rewards' ∧ key.2 < rewards'.period ∧
        historical''.referenceCount ≤ if key.2 + 1 = rewards'.period then 2 else 1 := by
    intro key historical'' hkp hkp' hkey
    obtain ⟨hcount'', hpos'', r'', hr'', hlt'', hle''⟩ := hs.record _ _ hkey
    refine ⟨by rw [hrefs, if_neg (Ne.symm hkp'), if_neg (Ne.symm hkp), hcount'']; ring, hpos'', ?_⟩
    rw [hcur, TreeMap.getElem?_insert]
    split_ifs with hkv
    · -- an older period of the same validator, referred to once at most
      have hk1 : key.1 = v := (Std.compare_eq_iff_eq.mp hkv).symm
      rw [hk1] at hr''
      obtain rfl : (⟨currentPool, p⟩ : CurrentRewards) = r'' :=
        Option.some.inj (hrew.symm.trans hr'')
      have hk2 : key.2 + 1 ≠ p := fun he => hkp' (Prod.ext hk1 (by simp only; omega))
      rw [if_neg hk2] at hle''
      refine ⟨⟨0, p + 1⟩, rfl, by simp only at hlt'' ⊢; omega, ?_⟩
      simp only at hlt'' ⊢
      rw [if_neg (by omega)]
      exact hle''
    · exact ⟨r'', hr'', hlt'', hle''⟩
  refine ⟨⟨fun key historical'' hkey => ?_, fun key hkey => ?_, ?_⟩,
    ⟨⟨0, p + 1⟩, ⟨ratios + current, 1⟩, by rw [hcur]; exact TreeMap.getElem?_insert_self,
      by rw [hrecords, Nat.add_sub_cancel]; exact TreeMap.getElem?_insert_self, rfl⟩⟩
  · -- every record of the new state
    rw [hrecords, TreeMap.getElem?_insert] at hkey
    split_ifs at hkey with hkp hc
    · -- the period just ended
      obtain rfl := Std.compare_eq_iff_eq.mp hkp
      cases hkey
      refine ⟨?_, Nat.one_pos, ⟨0, p + 1⟩, by rw [hcur]; exact TreeMap.getElem?_insert_self,
        by simp only; omega, by simp⟩
      rw [hrefs, hzero, if_neg (fun he => by simp only [Prod.mk.injEq] at he; omega), if_pos rfl]
      rfl
    · -- the period before, when it had the validator's reference alone: gone
      rw [TreeMap.getElem?_erase] at hkey
      split_ifs at hkey with hkp'
      exact hother key historical'' (fun he => hkp (by rw [he]; exact ReflCmp.compare_self))
        (fun he => hkp' (by rw [he]; exact ReflCmp.compare_self)) hkey
    · rw [TreeMap.getElem?_insert] at hkey
      split_ifs at hkey with hkp'
      · -- the period before: one reference fewer
        obtain rfl := Std.compare_eq_iff_eq.mp hkp'
        cases hkey
        refine ⟨?_, by simp only; omega, ⟨0, p + 1⟩, by rw [hcur]; exact TreeMap.getElem?_insert_self,
          by simp only; omega, ?_⟩
        · rw [hrefs, if_pos rfl, if_neg (fun he => by simp only [Prod.mk.injEq] at he; omega),
            ← hcount]
          simp only
          push_cast [Nat.one_le_iff_ne_zero.mpr hpos.ne']
          ring
        · simp only
          rw [if_neg (by omega)]
          omega
      · exact hother key historical'' (fun he => hkp (by rw [he]; exact ReflCmp.compare_self))
          (fun he => hkp' (by rw [he]; exact ReflCmp.compare_self)) hkey
  · -- whatever the new state refers to is recorded
    rw [hrefs] at hkey
    rw [hrecords, TreeMap.mem_insert]
    by_cases hkp : key = (v, p)
    · exact Or.inl (by rw [hkp]; exact ReflCmp.compare_self)
    refine Or.inr ?_
    rw [if_neg (Ne.symm hkp)] at hkey
    by_cases hkp' : key = (v, p - 1)
    · -- still referred to after losing the validator's reference: it had two, and stays
      subst hkp'
      have hc : c ≠ 1 := by
        rw [if_pos rfl] at hkey
        simp only at hcount
        omega
      rw [if_neg hc, TreeMap.mem_insert]
      exact Or.inl ReflCmp.compare_self
    · rw [if_neg (Ne.symm hkp')] at hkey
      have hmem := hs.referred key (by omega)
      split_ifs
      · exact TreeMap.mem_erase.mpr ⟨fun he => hkp' (Std.compare_eq_iff_eq.mp he).symm, hmem⟩
      · exact TreeMap.mem_insert.mpr (Or.inr hmem)
  · intro key event hkey
    rw [hs', hs₁] at hkey
    exact hs.slash_key key event hkey

/-! ### Delegations and slashes -/

/-- A delegation starts after the period its validator ended last, while that period has the
validator's reference alone. -/
theorem ReferencesCounted.initializeDelegation {s s' : State} {val : Validator} {delAddr : ℕ}
    {shares : DecCoins} {height : ℕ} (hs : s.ReferencesCounted)
    (hfresh : s.PeriodFresh val.operatorAddress)
    (hnew : s.startingInfos[(val.operatorAddress, delAddr)]? = none)
    (h : initializeDelegation s val delAddr shares height = some s') : s'.ReferencesCounted := by
  obtain ⟨rewards, historical, stake, hrew, hhist, -, -, rfl⟩ := initializeDelegation_eq_some h
  obtain ⟨rewards', historical', hrew', hhist', hone⟩ := hfresh
  obtain rfl : rewards' = rewards := Option.some.inj (hrew'.symm.trans hrew)
  obtain rfl : historical' = historical := Option.some.inj (hhist'.symm.trans hhist)
  refine hs.addReference hrew hhist hone rfl rfl (fun key => ?_) hs.slash_key
  -- the new starting info is the one new reference
  unfold referencesTo
  rw [TreeMap.countBy_insert, hnew, Option.map_none, Option.getD_none, sub_zero]
  ring

/-- A slash event refers to the period the slash ended, which has the validator's reference alone
until then. -/
theorem ReferencesCounted.updateValidatorSlashFraction {s s' : State} {val : Validator}
    {height : ℕ} {fractions : DecCoins} (hs : s.ReferencesCounted)
    (h : updateValidatorSlashFraction s val height fractions = some s') : s'.ReferencesCounted := by
  obtain ⟨s₁, period, s₂, hinc, hinc', rfl⟩ := updateValidatorSlashFraction_eq_some h
  obtain ⟨hs₁, rewards, historical, hrew, hhist, hone⟩ := hs.incrementValidatorPeriod hinc
  obtain ⟨historical', hhist', -, rfl⟩ := incrementReferenceCount_eq_some hinc'
  -- the period the slash ended is the one before the new running one
  have hperiod : rewards.period - 1 = period := by
    rw [incrementValidatorPeriod_currentRewards hinc, TreeMap.getElem?_insert_self] at hrew
    rw [← Option.some.inj hrew, Nat.add_sub_cancel]
  subst hperiod
  obtain rfl : historical' = historical := Option.some.inj (hhist'.symm.trans hhist)
  -- and no slash event names it yet
  have hfree : s₁.slashEvents[(val.operatorAddress, height, rewards.period - 1)]? = none := by
    cases hkey : s₁.slashEvents[(val.operatorAddress, height, rewards.period - 1)]? with
    | none => rfl
    | some event =>
      have hnamed := TreeMap.one_le_countBy
        (p := fun k event => (k.1, event.validatorPeriod) = (val.operatorAddress, rewards.period - 1))
        hkey (by rw [← hs₁.slash_key _ event hkey])
      have hunnamed := (hs₁.fresh_unnamed hrew hhist hone).2
      omega
  refine hs₁.addReference hrew hhist hone rfl rfl (fun key => ?_) ?_
  · unfold referencesTo
    rw [TreeMap.countBy_insert, hfree, Option.map_none, Option.getD_none, sub_zero]
    ring
  · intro key event hkey
    rw [TreeMap.getElem?_insert] at hkey
    split_ifs at hkey with hk
    · obtain rfl := Std.compare_eq_iff_eq.mp hk
      cases hkey
      rfl
    · exact hs₁.slash_key key event hkey

/-- A withdrawal ends the period, then drops the delegation's starting info with its reference:
the period it ended stays fresh, and the delegation has no starting info left. -/
theorem ReferencesCounted.withdrawDelegationRewards {s s' : State} {val : Validator}
    {delAddr : ℕ} {shares : DecCoins} {height : ℕ} {paid : Pools} (hs : s.ReferencesCounted)
    (h : withdrawDelegationRewards s val delAddr shares height = some (s', paid)) :
    s'.ReferencesCounted ∧ s'.PeriodFresh val.operatorAddress ∧
      s'.startingInfos[(val.operatorAddress, delAddr)]? = none := by
  obtain ⟨s₁, _, _, _, _, _, _, info, s₂, hsi, hinc, -, -, -, -, -, hdec, rfl⟩ :=
    withdrawDelegationRewards_eq_some h
  obtain ⟨hs₁, rewards, historical, hrew, hhist, hone⟩ := hs.incrementValidatorPeriod hinc
  obtain ⟨historical', hhist', -, rfl⟩ := decrementReferenceCount_eq_some hdec
  have hsi₁ : s₁.startingInfos[(val.operatorAddress, delAddr)]? = some info := by
    rw [(incrementValidatorPeriod_delegations hinc).1]
    exact hsi
  -- the starting info names an older period than the fresh one
  have hold : (val.operatorAddress, info.previousPeriod) ≠
      (val.operatorAddress, rewards.period - 1) := by
    intro he
    have hnamed := TreeMap.one_le_countBy
      (p := fun k info => (k.1, info.previousPeriod) = (val.operatorAddress, rewards.period - 1))
      hsi₁ he
    have hunnamed := (hs₁.fresh_unnamed hrew hhist hone).1
    omega
  refine ⟨hs₁.dropReference hhist' rfl rfl (fun key => ?_) hs₁.slash_key,
    ⟨rewards, historical, hrew, ?_, hone⟩, TreeMap.getElem?_erase_self⟩
  · unfold referencesTo
    rw [TreeMap.countBy_erase, hsi₁, Option.map_some, Option.getD_some]
    ring
  · -- the fresh period's record is untouched
    show (if historical'.referenceCount = 1 then _ else _)[_]? = _
    split_ifs
    · rw [TreeMap.getElem?_erase, if_neg (mt Std.compare_eq_iff_eq.mp hold), hhist]
    · rw [TreeMap.getElem?_insert, if_neg (mt Std.compare_eq_iff_eq.mp hold), hhist]

/-! ### Removing a validator -/

/-- Removing a validator that no delegation starts from deletes its records with every reference
to them. -/
theorem ReferencesCounted.afterValidatorRemoved {s s' : State} {valAddr : ℕ}
    (hs : s.ReferencesCounted)
    (hdel : ∀ (key : ℕ × ℕ) (info : StartingInfo), s.startingInfos[key]? = some info →
      key.1 ≠ valAddr)
    (h : Hooks.afterValidatorRemoved s valAddr = some s') : s'.ReferencesCounted := by
  obtain ⟨hrecords, hcur, hsi, hse, -⟩ := afterValidatorRemoved_records h
  -- the references to another validator's records stay
  have hrefs : ∀ key : ℕ × ℕ, key.1 ≠ valAddr → s'.referencesTo key = s.referencesTo key := by
    intro key hk
    have hne : ∀ p : ℕ, (valAddr, p) ≠ key := fun p he => hk (congrArg Prod.fst he).symm
    have hcurv : (s.currentRewards[valAddr]?.map fun r =>
        if (valAddr, r.period - 1) = key then (1 : ℤ) else 0).getD 0 = 0 := by
      cases s.currentRewards[valAddr]? with
      | none => rfl
      | some r => rw [Option.map_some, Option.getD_some, if_neg (hne _)]
    have hsev : (s.slashEvents.countBy fun k event =>
          (k.1 != valAddr) = true ∧ (k.1, event.validatorPeriod) = key) =
        s.slashEvents.countBy fun k event => (k.1, event.validatorPeriod) = key :=
      TreeMap.countBy_congr fun k event _ => ⟨And.right, fun he =>
        ⟨bne_iff_ne.mpr fun hv => hk (by rw [← he, hv]), he⟩⟩
    unfold referencesTo
    rw [hcur, hsi, hse, TreeMap.countBy_erase, TreeMap.countBy_filter, hcurv, hsev, sub_zero]
  -- and nothing refers to the removed validator's
  have hzero : ∀ p : ℕ, s'.referencesTo (valAddr, p) = 0 := by
    intro p
    have hcur0 := TreeMap.countBy_eq_zero (t := s'.currentRewards)
      (p := fun v r => (v, r.period - 1) = (valAddr, p)) fun k r hkr he => by
        have hk : k = valAddr := congrArg Prod.fst he
        rw [hcur, hk, TreeMap.getElem?_erase_self] at hkr
        cases hkr
    have hsi0 := TreeMap.countBy_eq_zero (t := s'.startingInfos)
      (p := fun k info => (k.1, info.previousPeriod) = (valAddr, p)) fun k info hki he =>
        hdel k info (by rw [← hsi]; exact hki) (congrArg Prod.fst he)
    have hse0 := TreeMap.countBy_eq_zero (t := s'.slashEvents)
      (p := fun k event => (k.1, event.validatorPeriod) = (valAddr, p)) fun k event hke he => by
        rw [hse, TreeMap.getElem?_filter', Option.filter_eq_some_iff] at hke
        exact absurd (congrArg Prod.fst he) (bne_iff_ne.mp hke.2)
    unfold referencesTo
    rw [hcur0, hsi0, hse0]
    rfl
  refine ⟨fun key historical hkey => ?_, fun key hkey => ?_, fun key event hkey => ?_⟩
  · rw [hrecords, TreeMap.getElem?_filter', Option.filter_eq_some_iff] at hkey
    have hk : key.1 ≠ valAddr := bne_iff_ne.mp hkey.2
    obtain ⟨hc, hpos, r, hr, hlt, hle⟩ := hs.record _ _ hkey.1
    refine ⟨by rw [hrefs key hk, hc], hpos, r, ?_, hlt, hle⟩
    rw [hcur, TreeMap.getElem?_erase, if_neg (mt Std.compare_eq_iff_eq.mp (Ne.symm hk)), hr]
  · have hk : key.1 ≠ valAddr := fun hv => by
      rw [← hzero key.2, ← hv] at hkey
      exact lt_irrefl _ hkey
    rw [hrefs key hk] at hkey
    rw [hrecords, TreeMap.mem_filter]
    refine ⟨hs.referred key hkey, ?_⟩
    rw [TreeMap.getKey_eq]
    exact bne_iff_ne.mpr hk
  · rw [hse, TreeMap.getElem?_filter', Option.filter_eq_some_iff] at hkey
    exact hs.slash_key key event hkey.1

end State

end Initia.Distribution
