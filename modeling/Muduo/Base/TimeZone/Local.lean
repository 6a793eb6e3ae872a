import Muduo.Base.TimeZone

/-!
# Local time across daylight saving

A zone enters and leaves daylight saving by turns. The local times of one hour occur twice, and
`fromLocalTime` tells them apart by a trial conversion.

## Main results

* `findLocaltime_governing`: the search finds the local time type that governs a time.
* `fromLocalTime_toLocalTime`: a time is converted to local time and back.
-/

namespace Muduo

open Machine

namespace TimeZone

variable {data : Data} {S : ℤ}

/-! ### The search -/

lemma Comp.time_gmt (s : ℤ) : (Comp.mk true).time ⟨s, 0, 0⟩ = s := rfl

lemma Comp.time_local (s : ℤ) : (Comp.mk false).time ⟨0, s, 0⟩ = s := rfl

namespace Data

/-- The search finds the last transition that is not beyond the time. -/
lemma findLocaltime_isLast {comp : Comp} {sentry front : Transition} {s : ℤ}
    (hs : comp.time sentry = s) (hinc : Increasing comp.time data.transitions)
    (hfront : data.transitions[0]? = some front) (hle : comp.time front ≤ s) :
    ∃ i t, IsLast comp.time data.transitions s i t ∧
      data.findLocaltime sentry comp = data.localtimeAt t.localtimeIdx := by
  subst hs
  obtain ⟨i, t, ht, hle, hnext, hfind⟩ := findLocaltime_eq_localtimeAt hfront hle
  refine ⟨i, t, ⟨ht, hle, fun y hy => ?_⟩, hfind⟩
  rcases hnext with heq | hlt
  · rw [← heq]
    exact hinc i t y ht hy
  · exact hlt y hy

/-- The search for a time, given the last transition that is not beyond it. -/
lemma findLocaltime_eq {comp : Comp} {sentry t : Transition} {s : ℤ} {i : ℕ}
    (hs : comp.time sentry = s) (hinc : Increasing comp.time data.transitions)
    (hlast : IsLast comp.time data.transitions s i t) :
    data.findLocaltime sentry comp = data.localtimeAt t.localtimeIdx := by
  have hlen : 0 < data.transitions.length := by
    have := (List.getElem?_eq_some_iff.mp hlast.get).1
    omega
  have hfront := List.getElem?_eq_getElem hlen
  have hle : comp.time data.transitions[0] ≤ s := by
    rcases Nat.eq_zero_or_pos i with rfl | hi
    · cases hfront.symm.trans hlast.get
      exact hlast.le
    · exact ((hinc.lt hi hfront hlast.get).trans_le hlast.le).le
  obtain ⟨j, t', hlast', hfind⟩ := findLocaltime_isLast hs hinc hfront hle
  rw [hfind, hlast.unique hinc hlast']

/-- The last transition whose time is not beyond `s`. -/
def governing (data : Data) (comp : Comp) (s : ℤ) : Option Transition :=
  (data.transitions.filter (comp.time · ≤ s)).getLast?

/-- The local time type of that transition, and the first one before all transitions. -/
def governingLocaltime (data : Data) (comp : Comp) (s : ℤ) : Option Localtime :=
  match data.governing comp s with
  | some t => data.localtimes[t.localtimeIdx.toNat]?
  | none => data.localtimes.head?

/-- The indices of the transitions are those of local time types, of which there is one at least. -/
structure InRange (data : Data) : Prop where
  localtimes : data.localtimes ≠ []
  localtimeIdx : ∀ t ∈ data.transitions,
    0 ≤ t.localtimeIdx ∧ t.localtimeIdx < data.localtimes.length

/-- `findLocaltime` yields the local time type of the last transition that is not beyond the time,
and the first local time type if there is none. -/
theorem findLocaltime_governing (h : data.InRange) {comp : Comp}
    (hsorted : data.transitions.Pairwise fun t t' => comp.time t < comp.time t')
    (sentry : Transition) :
    Yields (data.findLocaltime sentry comp) fun l =>
      data.governingLocaltime comp (comp.time sentry) = some l := by
  have hinc := increasing_of_pairwise hsorted
  by_cases hbefore : ∀ front, data.transitions[0]? = some front → comp.time sentry < comp.time front
  · have hhead : (data.transitions.head?.all fun front => comp.less sentry front) = true := by
      rw [List.head?_eq_getElem?, Option.all_eq_true]
      intro front hfront
      exact decide_eq_true (hbefore front hfront)
    have hnone : data.governing comp (comp.time sentry) = none := by
      rw [governing, filter_eq_nil_of_front hinc hbefore]
      rfl
    obtain ⟨l, ls, hlocal⟩ := List.exists_cons_of_ne_nil h.localtimes
    rw [findLocaltime, if_pos hhead, localtimeFront, hlocal]
    refine ⟨l, rfl, ?_⟩
    rw [governingLocaltime, hnone, hlocal]
    rfl
  · push Not at hbefore
    obtain ⟨front, hfront, hle⟩ := hbefore
    obtain ⟨i, t, hlast, hfind⟩ := findLocaltime_isLast rfl hinc hfront hle
    obtain ⟨l, hl, hget⟩ := exists_localtimeAt (h.localtimeIdx t (List.mem_of_getElem? hlast.get))
    refine ⟨l, hfind.trans hl, ?_⟩
    rw [governingLocaltime, governing, hlast.getLast?_filter hinc]
    exact hget

end Data

/-- The zone enters daylight saving, an hour ahead of the offset `S`, and leaves it by turns. -/
structure DaylightSaving (data : Data) (S : ℤ) : Prop where
  localtime : ∀ t ∈ data.transitions, Yields (data.localtimeAt t.localtimeIdx) fun l =>
    l.gmtOffset = (if l.isDst then S + 3600 else S) ∧ t.localtime = t.gmttime + l.gmtOffset ∧
      0 ≤ l.arrbIdx ∧ l.arrbIdx ≤ data.abbreviation.length
  apart : ∀ i t t', data.transitions[i]? = some t → data.transitions[i + 1]? = some t' →
    t.gmttime + 7200 < t'.gmttime
  alternate : ∀ i t t' l l', data.transitions[i]? = some t → data.transitions[i + 1]? = some t' →
    data.localtimeAt t.localtimeIdx = .ok l → data.localtimeAt t'.localtimeIdx = .ok l' →
      l'.isDst = !l.isDst

namespace DaylightSaving

variable {i : ℕ} {t t' : Transition} {l l' : Localtime} {s : ℤ}

lemma increasing_gmttime (h : DaylightSaving data S) :
    Increasing (Comp.mk true).time data.transitions := by
  intro i t t' ht ht'
  have := h.apart i t t' ht ht'
  show t.gmttime < t'.gmttime
  omega

lemma exists_localtime (h : DaylightSaving data S) (ht : data.transitions[i]? = some t) :
    ∃ l, data.localtimeAt t.localtimeIdx = .ok l ∧
      (l.gmtOffset = if l.isDst then S + 3600 else S) ∧ t.localtime = t.gmttime + l.gmtOffset ∧
      0 ≤ l.arrbIdx ∧ l.arrbIdx ≤ data.abbreviation.length :=
  h.localtime t (List.mem_of_getElem? ht)

lemma increasing_localtime (h : DaylightSaving data S) :
    Increasing (Comp.mk false).time data.transitions := by
  intro i t t' ht ht'
  obtain ⟨l, -, hl, hlocal, -⟩ := h.exists_localtime ht
  obtain ⟨l', -, hl', hlocal', -⟩ := h.exists_localtime ht'
  have := h.apart i t t' ht ht'
  show t.localtime < t'.localtime
  split_ifs at hl hl' <;> omega

/-- The conversion to local time behind a transition. -/
lemma toLocalTime_eq (h : DaylightSaving data S)
    (hlast : IsLast (Comp.mk true).time data.transitions s i t)
    (hl : data.localtimeAt t.localtimeIdx = .ok l) :
    ∃ zone, Zone.toLocalTime ⟨some data⟩ s =
      .ok ((gmtime (s + l.gmtOffset)).inZone (if l.isDst then 1 else 0) l.gmtOffset zone) := by
  obtain ⟨l', hl', -, -, hindex⟩ := h.exists_localtime hlast.get
  cases hl.symm.trans hl'
  have hfind : data.findLocaltime ⟨s, 0, 0⟩ ⟨true⟩ = .ok l :=
    (Data.findLocaltime_eq (Comp.time_gmt s) h.increasing_gmttime hlast).trans hl
  rw [Zone.toLocalTime, Zone.getData]
  dsimp only
  rw [pure_bind, hfind, ok_bind, check_of hindex]
  exact ⟨_, rfl⟩

/-- The conversion from local time, by the offset of the last transition that is not beyond the
local time. -/
lemma fromLocalTime_eq (h : DaylightSaving data S) {tm : Tm} (htm : timegm tm = s)
    (hlast : IsLast (Comp.mk false).time data.transitions s i t)
    (hl : data.localtimeAt t.localtimeIdx = .ok l) :
    Zone.fromLocalTime ⟨some data⟩ tm =
      if tm.isdst ≠ 0 then do
        let tryTm ← Zone.toLocalTime ⟨some data⟩ (s - l.gmtOffset)
        if tryTm.isdst = 0 ∧ tryTm.hour = tm.hour ∧ tryTm.min = tm.min then
          return s - 3600 - l.gmtOffset
        else
          return s - l.gmtOffset
      else
        return s - l.gmtOffset := by
  have hfind : data.findLocaltime ⟨0, s, 0⟩ ⟨false⟩ = .ok l :=
    (Data.findLocaltime_eq (Comp.time_local s) h.increasing_localtime hlast).trans hl
  rw [Zone.fromLocalTime, Zone.getData]
  dsimp only
  rw [pure_bind, htm, hfind, ok_bind]

/-- What `toLocalTime` returns, for the offset of a transition. -/
def localTm (l : Localtime) (s : ℤ) (zone : List UInt8) : Tm :=
  (gmtime (s + l.gmtOffset)).inZone (if l.isDst then 1 else 0) l.gmtOffset zone

lemma timegm_localTm (l : Localtime) (s : ℤ) (zone : List UInt8) :
    timegm (localTm l s zone) = s + l.gmtOffset := timegm_gmtime _

/-- The local times that occur only once, and those that occur for the second time. -/
lemma fromLocalTime_once (h : DaylightSaving data S)
    (hlast : IsLast (Comp.mk true).time data.transitions s i t)
    (hl : data.localtimeAt t.localtimeIdx = .ok l)
    (hnext : ∀ t', data.transitions[i + 1]? = some t' → s + l.gmtOffset < t'.localtime)
    (zone : List UInt8) : Zone.fromLocalTime ⟨some data⟩ (localTm l s zone) = .ok s := by
  obtain ⟨l', hl', -, hlocal, -⟩ := h.exists_localtime hlast.get
  cases hl.symm.trans hl'
  obtain ⟨zone', hto⟩ := h.toLocalTime_eq hlast hl
  have hle : t.gmttime ≤ s := hlast.le
  have hlast' : IsLast (Comp.mk false).time data.transitions (s + l.gmtOffset) i t := by
    refine ⟨hlast.get, ?_, hnext⟩
    show t.localtime ≤ _
    omega
  rw [h.fromLocalTime_eq (timegm_localTm l s zone) hlast' hl, add_sub_cancel_right, hto]
  cases hdst : l.isDst with
  | false =>
    rw [if_neg (by simp [localTm, hdst, Tm.inZone])]
    rfl
  | true =>
    rw [if_pos (by simp [localTm, hdst, Tm.inZone]), ok_bind, if_neg (by simp [Tm.inZone])]
    rfl

/-- The last hour of daylight saving, whose local times occur again: the search finds the next
transition, and the trial conversion the same hour and minute in standard time. -/
lemma fromLocalTime_repeated (h : DaylightSaving data S)
    (hlast : IsLast (Comp.mk true).time data.transitions s i t)
    (hl : data.localtimeAt t.localtimeIdx = .ok l)
    (ht' : data.transitions[i + 1]? = some t') (hle : t'.localtime ≤ s + l.gmtOffset)
    (zone : List UInt8) : Zone.fromLocalTime ⟨some data⟩ (localTm l s zone) = .ok s := by
  obtain ⟨l₁, hl₁, hoffset, -⟩ := h.exists_localtime hlast.get
  cases hl.symm.trans hl₁
  obtain ⟨l', hl', hoffset', hlocal', -⟩ := h.exists_localtime ht'
  have hlt : s < t'.gmttime := hlast.lt t' ht'
  have hturn := h.alternate i t t' l l' hlast.get ht' hl hl'
  have hdst : l.isDst = true ∧ l'.isDst = false ∧ l.gmtOffset = S + 3600 ∧ l'.gmtOffset = S := by
    cases hdst : l.isDst with
    | true =>
      rw [hdst] at hturn hoffset
      rw [hturn] at hoffset'
      exact ⟨rfl, hturn, hoffset, hoffset'⟩
    | false =>
      rw [hdst] at hturn hoffset
      rw [hturn] at hoffset'
      simp only [Bool.not_false, if_true, Bool.false_eq_true, if_false] at hoffset hoffset'
      omega
  obtain ⟨hdst, hstd, hoffset, hoffset'⟩ := hdst
  have hlast' : IsLast (Comp.mk false).time data.transitions (s + l.gmtOffset) (i + 1) t' := by
    refine ⟨ht', hle, fun y hy => ?_⟩
    obtain ⟨ly, -, hoffsety, hlocaly, -⟩ := h.exists_localtime hy
    have := h.apart _ _ _ ht' hy
    show s + l.gmtOffset < y.localtime
    split_ifs at hoffsety <;> omega
  have hlast'' : IsLast (Comp.mk true).time data.transitions
      (s + l.gmtOffset - l'.gmtOffset) (i + 1) t' := by
    refine ⟨ht', ?_, fun y hy => ?_⟩
    · show t'.gmttime ≤ _
      omega
    · have := h.apart _ _ _ ht' hy
      show _ < y.gmttime
      omega
  obtain ⟨zone', hto'⟩ := h.toLocalTime_eq hlast'' hl'
  rw [h.fromLocalTime_eq (timegm_localTm l s zone) hlast' hl',
    if_pos (by simp [localTm, hdst, Tm.inZone]), hto', ok_bind, sub_add_cancel,
    if_pos ⟨by simp [hstd, Tm.inZone], rfl, rfl⟩]
  exact congrArg Except.ok (by omega)

end DaylightSaving

/-- A time that is not before the first transition is converted to local time and back. -/
theorem fromLocalTime_toLocalTime (h : DaylightSaving data S) {first : Transition}
    (hfirst : data.transitions[0]? = some first) {t : ℤ} (ht : first.gmttime ≤ t) :
    Yields (Zone.toLocalTime ⟨some data⟩ t) fun tm =>
      Zone.fromLocalTime ⟨some data⟩ tm = .ok t := by
  obtain ⟨i, tr, hlast, -⟩ :=
    Data.findLocaltime_isLast (Comp.time_gmt t) h.increasing_gmttime hfirst ht
  obtain ⟨l, hl, -⟩ := h.exists_localtime hlast.get
  obtain ⟨zone, hto⟩ := h.toLocalTime_eq hlast hl
  refine ⟨_, hto, ?_⟩
  by_cases hrepeated : ∃ tr', data.transitions[i + 1]? = some tr' ∧
      tr'.localtime ≤ t + l.gmtOffset
  · obtain ⟨tr', htr', hle⟩ := hrepeated
    exact h.fromLocalTime_repeated hlast hl htr' hle zone
  · refine h.fromLocalTime_once hlast hl (fun tr' htr' => ?_) zone
    by_contra hge
    exact hrepeated ⟨tr', htr', not_lt.mp hge⟩

/-- New York in 2021. -/
def newYork : Data where
  transitions := [⟨1615705200, 1615690800, 1⟩, ⟨1636264800, 1636246800, 0⟩]
  localtimes := [⟨-18000, false, 0⟩, ⟨-14400, true, 4⟩]
  abbreviation := ascii "EST\x00EDT\x00"

lemma daylightSaving_newYork : DaylightSaving newYork (-18000) where
  localtime := by decide +kernel
  apart i t t' ht ht' := by
    match i with
    | 0 =>
      cases ht
      cases ht'
      decide
    | i + 1 => simp [newYork] at ht'
  alternate i t t' l l' ht ht' hl hl' := by
    match i with
    | 0 =>
      cases ht
      cases ht'
      cases hl
      cases hl'
      rfl
    | i + 1 => simp [newYork] at ht'

/-- The first second of winter time, in the order of local times. -/
theorem findLocaltime_governing_newYork :
    newYork.InRange ∧ (newYork.transitions.Pairwise fun t t' =>
      (Comp.mk false).time t < (Comp.mk false).time t') ∧
    Yields (newYork.findLocaltime ⟨0, 1636246800, 0⟩ ⟨false⟩) fun l =>
      newYork.governingLocaltime ⟨false⟩ 1636246800 = some l :=
  ⟨⟨by decide, by decide⟩, by decide,
    Data.findLocaltime_governing ⟨by decide, by decide⟩ (by decide) ⟨0, 1636246800, 0⟩⟩

/-- Half past one, before and after the clock is turned back. -/
theorem fromLocalTime_toLocalTime_newYork :
    (Yields (Zone.toLocalTime ⟨some newYork⟩ 1636263000) fun tm =>
      Zone.fromLocalTime ⟨some newYork⟩ tm = .ok 1636263000) ∧
    Yields (Zone.toLocalTime ⟨some newYork⟩ 1636266600) fun tm =>
      Zone.fromLocalTime ⟨some newYork⟩ tm = .ok 1636266600 :=
  ⟨fromLocalTime_toLocalTime daylightSaving_newYork rfl (by decide),
    fromLocalTime_toLocalTime daylightSaving_newYork rfl (by decide)⟩

end TimeZone

end Muduo
