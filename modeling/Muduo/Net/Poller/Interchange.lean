import Muduo.Net.Poller.Interest

/-!
# The pollers are interchangeable

`EPollPoller` follows the abstract poller whatever its client does, and `PollPoller` follows it as
long as the client is disciplined. So over disciplined runs the two agree.
-/

namespace Muduo.Poller

open Machine

variable {ι : Type} {fd : ι → ℕ} {st : ι → Status}

/-! ### epoll -/

namespace EPollPoller

/-- The index that a channel has for its status. -/
def indexOf : Status → ℤ
  | .fresh | .removed => kNew
  | .watched _ => kAdded
  | .ignored => kDeleted

/-- The entry of a channel in the interest set. -/
def entryOf (i : ι) : Status → Option (PollEvents × ι)
  | .watched ev => some (ev, i)
  | _ => none

structure Follows (fd : ι → ℕ) (st : ι → Status) (s : Loop ι (EPollPoller ι)) : Prop
    extends Reflects fd st s.channel s.poller.channels where
  index_eq : ∀ i, (s.channel i).index = indexOf (st i)
  interest_eq : ∀ i, s.poller.interest (fd i) = entryOf i (st i)
  interest_other : ∀ k : ℤ, (∀ i, k ≠ fd i) → s.poller.interest k = none

lemma Follows.init (fd : ι → ℕ) :
    Follows fd (fun _ => .fresh) ⟨fun i => Channel.new (fd i), new⟩ :=
  ⟨Reflects.init fd, fun _ => rfl, fun _ => rfl, fun _ _ => rfl⟩

lemma Follows.watched_eq {s : Loop ι (EPollPoller ι)} (h : Follows fd st s) :
    watched s.poller = Interest.watched fd st := by
  ext ⟨k, ev⟩
  constructor
  · rintro ⟨i, hi⟩
    by_cases hk : ∃ j, k = fd j
    · obtain ⟨j, rfl⟩ := hk
      refine ⟨j, rfl, ?_⟩
      rw [h.interest_eq] at hi
      unfold entryOf at hi
      split at hi
      · rename_i hst
        cases hi
        exact hst
      · cases hi
    · rw [h.interest_other k (not_exists.mp hk)] at hi
      cases hi
  · rintro ⟨i, rfl, hi⟩
    refine ⟨i, ?_⟩
    rw [h.interest_eq, show st i = .watched ev from hi, entryOf]

variable [DecidableEq ι] {s : Loop ι (EPollPoller ι)}

/-- The entry of `i` in the interest set follows the new status of `i`. -/
lemma Follows.set (hfd : Function.Injective fd) (h : Follows fd st s) {i : ι} {st' : Status}
    {channels : ChannelMap ι} {interest : ℤ → Option (PollEvents × ι)}
    (hr : Reflects fd (Function.update st i st')
      (Function.update s.channel i ⟨fd i, st'.events, indexOf st', st'.registered⟩) channels)
    (hinterest : interest = Function.update s.poller.interest (fd i) (entryOf i st')) :
    Follows fd (Function.update st i st')
      ⟨Function.update s.channel i ⟨fd i, st'.events, indexOf st', st'.registered⟩,
        ⟨channels, interest⟩⟩ := by
  subst hinterest
  refine ⟨hr, ?_, ?_, ?_⟩
  · intro j
    by_cases hj : j = i
    · subst hj
      simp
    · simp [hj, h.index_eq]
  · intro j
    by_cases hj : j = i
    · subst hj
      simp
    · simp [hj, hfd.ne hj, h.interest_eq]
  · intro k hk
    simp [hk i, h.interest_other k hk]

/-- An update of a channel that the poller does not know adds it, with whatever interest it has. -/
lemma Follows.update_unregistered (hfd : Function.Injective fd) (h : Follows fd st s) {i : ι}
    (hst : st i = .fresh ∨ st i = .removed) (ev : PollEvents) :
    Yields (Poller.update impl s i ev) (Follows fd (Function.update st i (.watched ev))) := by
  have hindex : (s.channel i).index = kNew := by
    rw [h.index_eq]
    rcases hst with hst | hst <;> rw [hst] <;> rfl
  have hmap : s.poller.channels (fd i) = none := by
    rw [h.channels_eq]
    rcases hst with hst | hst <;> rw [hst] <;> rfl
  have hentry : s.poller.interest (fd i) = none := by
    rw [h.interest_eq]
    rcases hst with hst | hst <;> rw [hst] <;> rfl
  refine ⟨_, ?_, h.set hfd (h.toReflects.set hfd rfl rfl rfl) rfl⟩
  simp [Poller.update, impl, updateChannel, updateChannelVia, EPollPoller.update, Loop.setChannel,
    Loop.setIndex, h.fd_eq, hindex, hmap, hentry, indexOf, entryOf, Status.registered,
    Status.events, check, epollCtl, bind, Except.bind, pure, Except.pure]

/-- An update of a channel that the kernel does not watch any more adds it again. -/
lemma Follows.update_ignored (hfd : Function.Injective fd) (h : Follows fd st s) {i : ι}
    (hst : st i = .ignored) (ev : PollEvents) :
    Yields (Poller.update impl s i ev) (Follows fd (Function.update st i (.watched ev))) := by
  have hindex : (s.channel i).index = kDeleted := by rw [h.index_eq, hst]; rfl
  have hmap : s.poller.channels (fd i) = some i := by rw [h.channels_eq, hst]; rfl
  have hentry : s.poller.interest (fd i) = none := by rw [h.interest_eq, hst]; rfl
  refine ⟨_, ?_, h.set hfd (h.toReflects.set_registered hfd rfl rfl rfl (by rw [hst]; rfl)) rfl⟩
  simp [Poller.update, impl, updateChannel, updateChannelVia, EPollPoller.update, Loop.setChannel,
    Loop.setIndex, h.fd_eq, hindex, hmap, hentry, indexOf, entryOf, Status.registered,
    Status.events, check, epollCtl, kNew, kDeleted, bind, Except.bind, pure, Except.pure]

lemma Follows.update_watched (hfd : Function.Injective fd) (h : Follows fd st s) {i : ι}
    {ev' : PollEvents} (hst : st i = .watched ev') (ev : PollEvents) :
    Yields (Poller.update impl s i ev)
      (Follows fd (Function.update st i ((Status.watched ev').update ev))) := by
  have hindex : (s.channel i).index = kAdded := by rw [h.index_eq, hst]; rfl
  have hmap : s.poller.channels (fd i) = some i := by rw [h.channels_eq, hst]; rfl
  have hentry : s.poller.interest (fd i) = some (ev', i) := by rw [h.interest_eq, hst]; rfl
  by_cases hev : ev = kNoneEvent
  · rw [Status.update, if_pos hev]
    refine ⟨_, ?_, h.set hfd (h.toReflects.set_registered hfd rfl rfl rfl (by rw [hst]; rfl)) rfl⟩
    simp [Poller.update, impl, updateChannel, updateChannelVia, EPollPoller.update, Loop.setChannel,
      Loop.setIndex, h.fd_eq, hindex, hmap, hentry, hev, indexOf, entryOf, Status.registered,
      Status.events, Channel.isNoneEvent, check, epollCtl, kNew, kAdded, kDeleted, bind,
      Except.bind, pure, Except.pure]
  · rw [Status.update, if_neg hev]
    refine ⟨_, ?_, h.set hfd (h.toReflects.set_registered hfd rfl rfl rfl (by rw [hst]; rfl)) rfl⟩
    simp [Poller.update, impl, updateChannel, updateChannelVia, EPollPoller.update, Loop.setChannel,
      h.fd_eq, hindex, hmap, hentry, hev, indexOf, entryOf, Status.registered, Status.events,
      Channel.isNoneEvent, check, epollCtl, kNew, kAdded, kDeleted, bind, Except.bind, pure,
      Except.pure]

lemma Follows.update (hfd : Function.Injective fd) (h : Follows fd st s) (i : ι)
    (ev : PollEvents) :
    Yields (Poller.update impl s i ev) (Follows fd (Function.update st i ((st i).update ev))) := by
  cases hst : st i with
  | fresh => exact h.update_unregistered hfd (Or.inl hst) ev
  | removed => exact h.update_unregistered hfd (Or.inr hst) ev
  | ignored => exact h.update_ignored hfd hst ev
  | watched ev' => exact h.update_watched hfd hst ev

lemma Follows.remove (hfd : Function.Injective fd) (h : Follows fd st s) {i : ι}
    (hev : (st i).events = kNoneEvent) (hreg : (st i).registered = true) :
    Yields (Poller.remove impl s i) (Follows fd (Function.update st i .removed)) := by
  have hmap : s.poller.channels (fd i) = some i := by rw [h.channels_eq, hreg]; rfl
  have hevents : (s.channel i).events = kNoneEvent := by rw [h.events_eq, hev]
  cases hst : st i with
  | fresh => simp [hst, Status.registered] at hreg
  | removed => simp [hst, Status.registered] at hreg
  | ignored =>
    have hindex : (s.channel i).index = kDeleted := by rw [h.index_eq, hst]; rfl
    have hentry : Function.update s.poller.interest (fd i) none = s.poller.interest := by
      rw [Function.update_eq_self_iff, h.interest_eq, hst]
      rfl
    refine ⟨_, ?_, h.set hfd (h.toReflects.set hfd rfl rfl rfl) hentry.symm⟩
    simp [Poller.remove, impl, removeChannel, removeChannelVia, Loop.setChannel, Loop.setIndex,
      h.fd_eq, hindex, hmap, hevents, indexOf, Status.registered, Status.events,
      Channel.isNoneEvent, check, kAdded, kDeleted, bind, Except.bind, pure, Except.pure]
  | watched ev' =>
    have hindex : (s.channel i).index = kAdded := by rw [h.index_eq, hst]; rfl
    have hentry : s.poller.interest (fd i) = some (ev', i) := by rw [h.interest_eq, hst]; rfl
    refine ⟨_, ?_, h.set hfd (h.toReflects.set hfd rfl rfl rfl) rfl⟩
    simp [Poller.remove, impl, removeChannel, removeChannelVia, EPollPoller.update, Loop.setChannel,
      Loop.setIndex, h.fd_eq, hindex, hmap, hentry, hevents, indexOf, entryOf, Status.registered,
      Status.events, Channel.isNoneEvent, check, epollCtl, bind, Except.bind, pure, Except.pure]

lemma removeChannel_fails {i : ι} (hmap : s.poller.channels (s.channel i).fd = none) :
    removeChannel s i = .error (.failed .epollRemoveUnknown) := by
  simp [removeChannel, removeChannelVia, hmap, check, bind, Except.bind]

end EPollPoller
/-! ### poll -/

namespace PollPoller

/-- The descriptor in the `pollfd` of a registered channel. -/
def fdOf (fd : ℕ) : Status → ℤ
  | .ignored => -fd - 1
  | _ => fd

/-- The `pollfd` at index `k` is the one of channel `i`. -/
structure Owns (fd : ι → ℕ) (st : ι → Status) (s : Loop ι (PollPoller ι)) (i : ι) (k : ℕ) :
    Prop where
  index_eq : (s.channel i).index = k
  entry : ∃ pfd, s.poller.pollfds[k]? = some pfd ∧ pfd.fd = fdOf (fd i) (st i) ∧
    pfd.events = (st i).events

/-- The array of `pollfd`s has one entry for each registered channel and no other entries. -/
structure Follows (fd : ι → ℕ) (st : ι → Status) (s : Loop ι (PollPoller ι)) : Prop
    extends Reflects fd st s.channel s.poller.channels where
  index_fresh : ∀ i, st i = .fresh → (s.channel i).index = -1
  slot : ∀ i, (st i).registered = true → ∃ k, Owns fd st s i k
  owner : ∀ k < s.poller.pollfds.length, ∃ i, (st i).registered = true ∧ Owns fd st s i k

lemma Follows.init (fd : ι → ℕ) :
    Follows fd (fun _ => .fresh) ⟨fun i => Channel.new (fd i), new⟩ := by
  refine ⟨Reflects.init fd, fun _ _ => rfl, ?_, ?_⟩
  · intro i hi
    cases hi
  · intro k hk
    simp [new] at hk

variable {s : Loop ι (PollPoller ι)}

lemma fdOf_injective {a b : ℕ} {sta stb : Status} (h : fdOf a sta = fdOf b stb) : a = b := by
  unfold fdOf at h
  split at h <;> split at h <;> omega

/-- The descriptor of an entry without its sign is the channel's. -/
lemma unsigned_fdOf (n : ℕ) (st : Status) :
    (if fdOf n st < 0 then -fdOf n st - 1 else fdOf n st) = (n : ℤ) := by
  unfold fdOf
  split <;> split <;> omega

namespace Owns

lemma lt {i : ι} {k : ℕ} (h : Owns fd st s i k) : k < s.poller.pollfds.length := by
  obtain ⟨pfd, hpfd, -⟩ := h.entry
  exact (List.getElem?_eq_some_iff.mp hpfd).1

lemma inj (hfd : Function.Injective fd) {i j : ι} {k : ℕ} (hi : Owns fd st s i k)
    (hj : Owns fd st s j k) : i = j := by
  obtain ⟨p, hp, hpfd, -⟩ := hi.entry
  obtain ⟨q, hq, hqfd, -⟩ := hj.entry
  rw [hp] at hq
  cases hq
  exact hfd (fdOf_injective (hpfd.symm.trans hqfd))

lemma unique {i : ι} {k k' : ℕ} (h : Owns fd st s i k) (h' : Owns fd st s i k') : k = k' := by
  have := h.index_eq.symm.trans h'.index_eq
  exact_mod_cast this

/-- An entry that has moved with its channel's index. -/
lemma frame {st' : ι → Status} {t : Loop ι (PollPoller ι)} {i : ι} {k k' : ℕ}
    (h : Owns fd st s i k) (hst : st' i = st i) (hindex : (t.channel i).index = k')
    (hget : t.poller.pollfds[k']? = s.poller.pollfds[k]?) : Owns fd st' t i k' := by
  obtain ⟨pfd, hpfd, hown⟩ := h.entry
  refine ⟨hindex, pfd, hget.trans hpfd, ?_⟩
  rwa [hst]

end Owns

lemma Follows.watched_eq (h : Follows fd st s) : watched s.poller = Interest.watched fd st := by
  ext ⟨k, ev⟩
  constructor
  · rintro ⟨hk, pfd, hmem, hpfd, hev⟩
    obtain ⟨n, hn⟩ := List.getElem?_of_mem hmem
    obtain ⟨i, hreg, hown⟩ := h.owner n (List.getElem?_eq_some_iff.mp hn).1
    obtain ⟨q, hq, hqfd, hqev⟩ := hown.entry
    rw [hn] at hq
    cases hq
    -- an entry whose descriptor is not negative belongs to a watched channel
    cases hst : st i with
    | fresh => simp [hst, Status.registered] at hreg
    | removed => simp [hst, Status.registered] at hreg
    | ignored =>
      simp only [hst, fdOf] at hqfd
      simp only at hk hpfd
      omega
    | watched ev' =>
      rw [hst] at hqfd hqev
      refine ⟨i, hpfd.symm.trans hqfd, ?_⟩
      simp only at hev
      rw [hst, ← hev, hqev]
      rfl
  · rintro ⟨i, rfl, hi⟩
    simp only at hi
    obtain ⟨n, hown⟩ := h.slot i (by rw [hi]; rfl)
    obtain ⟨pfd, hpfd, hfd, hev⟩ := hown.entry
    rw [hi] at hfd hev
    exact ⟨by simp, pfd, List.mem_of_getElem? hpfd, hfd, hev⟩

variable [DecidableEq ι]

/-- The array after a channel that has no entry is appended to it. -/
lemma Follows.append (hfd : Function.Injective fd) (h : Follows fd st s) {i : ι}
    (hreg : (st i).registered = false) (ev : PollEvents) {t : Loop ι (PollPoller ι)}
    (hchannel : t.channel =
      Function.update s.channel i ⟨fd i, ev, s.poller.pollfds.length, true⟩)
    (hchannels : t.poller.channels = Function.update s.poller.channels (fd i) (some i))
    (hpollfds : t.poller.pollfds = s.poller.pollfds ++ [⟨fd i, ev, kNoneEvent⟩]) :
    Follows fd (Function.update st i (.watched ev)) t := by
  have hself : Owns fd (Function.update st i (.watched ev)) t i s.poller.pollfds.length := by
    refine ⟨by simp [hchannel], ⟨fd i, ev, kNoneEvent⟩, by simp [hpollfds], ?_, ?_⟩
    · simp [fdOf]
    · simp [Status.events]
  have hother : ∀ j k, (st j).registered = true → Owns fd st s j k →
      j ≠ i ∧ Owns fd (Function.update st i (.watched ev)) t j k := by
    intro j k hj hown
    have hne : j ≠ i := by
      rintro rfl
      simp [hreg] at hj
    refine ⟨hne, hown.frame (by simp [hne]) (by simp [hchannel, hne, hown.index_eq]) ?_⟩
    rw [hpollfds, List.getElem?_append_left hown.lt]
  refine ⟨?_, ?_, ?_, ?_⟩
  · rw [hchannel, hchannels]
    exact h.toReflects.set hfd rfl rfl rfl
  · intro j hj
    have hne : j ≠ i := by
      rintro rfl
      simp at hj
    rw [Function.update_of_ne hne] at hj
    simp [hchannel, hne, h.index_fresh j hj]
  · intro j hj
    by_cases hne : j = i
    · subst hne
      exact ⟨_, hself⟩
    · rw [Function.update_of_ne hne] at hj
      obtain ⟨k, hk⟩ := h.slot j hj
      exact ⟨k, (hother j k hj hk).2⟩
  · intro k hk
    rw [hpollfds, List.length_append, List.length_singleton] at hk
    rcases Nat.lt_succ_iff_lt_or_eq.mp hk with hk | rfl
    · obtain ⟨j, hj, hown⟩ := h.owner k hk
      obtain ⟨hne, hown'⟩ := hother j k hj hown
      exact ⟨j, by rwa [Function.update_of_ne hne], hown'⟩
    · exact ⟨i, by simp [Status.registered], hself⟩

/-- The array after the entry of a registered channel is overwritten. -/
lemma Follows.replace (hfd : Function.Injective fd) (h : Follows fd st s) {i : ι} {k : ℕ}
    (hreg : (st i).registered = true) (hown : Owns fd st s i k) {st' : Status}
    (hreg' : st'.registered = true) {t : Loop ι (PollPoller ι)}
    (hchannel : t.channel = Function.update s.channel i ⟨fd i, st'.events, k, true⟩)
    (hchannels : t.poller.channels = s.poller.channels)
    (hpollfds : t.poller.pollfds =
      s.poller.pollfds.set k ⟨fdOf (fd i) st', st'.events, kNoneEvent⟩) :
    Follows fd (Function.update st i st') t := by
  have hself : Owns fd (Function.update st i st') t i k := by
    refine ⟨by simp [hchannel], ⟨fdOf (fd i) st', st'.events, kNoneEvent⟩, ?_, by simp, by simp⟩
    rw [hpollfds, List.getElem?_set_self hown.lt]
  have hother : ∀ j n, j ≠ i → Owns fd st s j n → Owns fd (Function.update st i st') t j n := by
    intro j n hne hj
    have hkn : k ≠ n := by
      rintro rfl
      exact hne (hj.inj hfd hown)
    refine hj.frame (by simp [hne]) (by simp [hchannel, hne, hj.index_eq]) ?_
    rw [hpollfds, List.getElem?_set_ne hkn]
  refine ⟨?_, ?_, ?_, ?_⟩
  · rw [hchannel, hchannels]
    exact h.toReflects.set_registered hfd rfl rfl hreg'.symm (hreg.trans hreg'.symm)
  · intro j hj
    have hne : j ≠ i := by
      rintro rfl
      rw [Function.update_self] at hj
      simp [hj, Status.registered] at hreg'
    rw [Function.update_of_ne hne] at hj
    simp [hchannel, hne, h.index_fresh j hj]
  · intro j hj
    by_cases hne : j = i
    · subst hne
      exact ⟨k, hself⟩
    · rw [Function.update_of_ne hne] at hj
      obtain ⟨n, hn⟩ := h.slot j hj
      exact ⟨n, hother j n hne hn⟩
  · intro n hn
    rw [hpollfds, List.length_set] at hn
    obtain ⟨j, hj, hjn⟩ := h.owner n hn
    by_cases hne : j = i
    · subst hne
      exact ⟨j, by simpa using hreg', (hjn.unique hown) ▸ hself⟩
    · exact ⟨j, by rwa [Function.update_of_ne hne], hother j n hne hjn⟩

lemma getElem?_dropLast_set {α : Type} {l : List α} {k n : ℕ} {a : α} (hn : n < l.length - 1) :
    (l.set k a).dropLast[n]? = if k = n then some a else l[n]? := by
  rw [List.getElem?_dropLast, List.length_set, if_pos hn, List.getElem?_set]
  split <;> simp
  omega

/-- The array after the entry of channel `i` is replaced by the last one. -/
lemma Follows.erase (hfd : Function.Injective fd) (h : Follows fd st s) {i : ι} {k : ℕ}
    (hown : Owns fd st s i k) {last : PollFd} (hlast : s.poller.pollfds.getLast? = some last)
    {channel : ι → Channel} {channels : ChannelMap ι}
    (hr : Reflects fd (Function.update st i .removed) channel channels)
    (hfresh : ∀ j, st j = .fresh → (channel j).index = (s.channel j).index)
    (hindex : ∀ j n, j ≠ i → Owns fd st s j n →
      (channel j).index = if n = s.poller.pollfds.length - 1 then (k : ℤ) else n) :
    Follows fd (Function.update st i .removed)
      ⟨channel, ⟨channels, (s.poller.pollfds.set k last).dropLast⟩⟩ := by
  rw [List.getLast?_eq_getElem?] at hlast
  have hother : ∀ j n, j ≠ i → Owns fd st s j n →
      Owns fd (Function.update st i .removed)
        ⟨channel, ⟨channels, (s.poller.pollfds.set k last).dropLast⟩⟩ j
        (if n = s.poller.pollfds.length - 1 then k else n) := by
    intro j n hne hj
    have hkn : k ≠ n := by
      rintro rfl
      exact hne (hj.inj hfd hown)
    have hk := hown.lt
    have hn := hj.lt
    apply hj.frame (Function.update_of_ne hne ..)
    · rw [hindex j n hne hj]
      split <;> rfl
    · split
      · rename_i hend
        rw [getElem?_dropLast_set (by omega), if_pos rfl, hend, hlast]
      · rw [getElem?_dropLast_set (by omega), if_neg hkn]
  refine ⟨hr, ?_, ?_, ?_⟩
  · intro j hj
    have hne : j ≠ i := by
      rintro rfl
      simp at hj
    rw [Function.update_of_ne hne] at hj
    exact (hfresh j hj).trans (h.index_fresh j hj)
  · intro j hj
    have hne : j ≠ i := by
      rintro rfl
      simp [Status.registered] at hj
    rw [Function.update_of_ne hne] at hj
    obtain ⟨n, hn⟩ := h.slot j hj
    exact ⟨_, hother j n hne hn⟩
  · intro n hn
    rw [List.length_dropLast, List.length_set] at hn
    -- the entry now at `n` comes from the end of the array if `n` is the hole
    obtain ⟨m, hm, hmk, hnm⟩ : ∃ m, m < s.poller.pollfds.length ∧ m ≠ k ∧
        n = if m = s.poller.pollfds.length - 1 then k else m := by
      by_cases hnk : n = k
      · exact ⟨s.poller.pollfds.length - 1, by omega, by omega, by simp [hnk]⟩
      · exact ⟨n, by omega, hnk, by rw [if_neg (by omega)]⟩
    obtain ⟨j, hj, hjm⟩ := h.owner m hm
    have hne : j ≠ i := by
      rintro rfl
      exact hmk (hjm.unique hown)
    exact ⟨j, by rwa [Function.update_of_ne hne], hnm ▸ hother j m hne hjm⟩

/-- The channel of the last entry is removed. -/
lemma Follows.erase_last (hfd : Function.Injective fd) (h : Follows fd st s) {i : ι}
    (hst : st i = .ignored) (hown : Owns fd st s i (s.poller.pollfds.length - 1)) {last : PollFd}
    (hlast : s.poller.pollfds.getLast? = some last) {c : Channel} {channels : ChannelMap ι}
    (hr : Reflects fd (Function.update st i .removed) (Function.update s.channel i c) channels) :
    Follows fd (Function.update st i .removed)
      ⟨Function.update s.channel i c,
        ⟨channels, (s.poller.pollfds.set (s.poller.pollfds.length - 1) last).dropLast⟩⟩ := by
  apply h.erase hfd hown hlast hr
  · intro m hm
    have hne : m ≠ i := by
      rintro rfl
      simp [hst] at hm
    rw [Function.update_of_ne hne]
  · intro m n hne hm
    have hn : n ≠ s.poller.pollfds.length - 1 := by
      rintro rfl
      exact hne (hm.inj hfd hown)
    rw [Function.update_of_ne hne, hm.index_eq, if_neg hn]

/-- Another channel is removed: that of the last entry, `j`, gets its index. -/
lemma Follows.erase_inner (hfd : Function.Injective fd) (h : Follows fd st s) {i j : ι} {k : ℕ}
    (hst : st i = .ignored) (hown : Owns fd st s i k) (hji : j ≠ i)
    (hj : (st j).registered = true) (hend : Owns fd st s j (s.poller.pollfds.length - 1))
    {last : PollFd} (hlast : s.poller.pollfds.getLast? = some last) {c : Channel}
    {channels : ChannelMap ι}
    (hr : Reflects fd (Function.update st i .removed) (Function.update s.channel i c) channels) :
    Follows fd (Function.update st i .removed)
      ⟨Function.update (Function.update s.channel i c) j { s.channel j with index := k },
        ⟨channels, (s.poller.pollfds.set k last).dropLast⟩⟩ := by
  have hr' := hr.setIndex j k
  rw [Function.update_of_ne hji] at hr'
  apply h.erase hfd hown hlast hr'
  · intro m hm
    have hmi : m ≠ i := by
      rintro rfl
      simp [hst] at hm
    have hmj : m ≠ j := by
      rintro rfl
      simp [hm, Status.registered] at hj
    rw [Function.update_of_ne hmj, Function.update_of_ne hmi]
  · intro m n hne hm
    by_cases hmj : m = j
    · subst hmj
      rw [Function.update_self, if_pos (hm.unique hend)]
    · have hn : n ≠ s.poller.pollfds.length - 1 := by
        rintro rfl
        exact hmj (hm.inj hfd hend)
      rw [Function.update_of_ne hmj, Function.update_of_ne hne, hm.index_eq, if_neg hn]

/-- An update of a channel that has no entry, and a negative index, appends one. -/
lemma Follows.update_new (hfd : Function.Injective fd) (h : Follows fd st s) {i : ι}
    (hreg : (st i).registered = false) (hindex : (s.channel i).index < 0) (ev : PollEvents) :
    Yields (Poller.update impl s i ev) (Follows fd (Function.update st i (.watched ev))) := by
  have hmap : s.poller.channels (fd i) = none := by rw [h.channels_eq, hreg]; rfl
  have hstep : Poller.update impl s i ev =
      .ok ⟨Function.update s.channel i ⟨fd i, ev, s.poller.pollfds.length, true⟩,
        ⟨Function.update s.poller.channels (fd i) (some i),
          s.poller.pollfds ++ [⟨fd i, ev, kNoneEvent⟩]⟩⟩ := by
    simp [Poller.update, impl, updateChannel, Loop.setChannel, Loop.setIndex, h.fd_eq, hindex, hmap,
      check, bind, Except.bind, pure, Except.pure]
  exact ⟨_, hstep, h.append hfd hreg ev rfl rfl rfl⟩

/-- An update of a registered channel overwrites its entry. -/
lemma Follows.update_registered (hfd : Function.Injective fd) (h : Follows fd st s) {i : ι}
    (hreg : (st i).registered = true) (ev : PollEvents) {st' : Status}
    (hreg' : st'.registered = true) (hevents : st'.events = ev)
    (hneg : fdOf (fd i) st' = if ev = kNoneEvent then -(fd i : ℤ) - 1 else fd i) :
    Yields (Poller.update impl s i ev) (Follows fd (Function.update st i st')) := by
  have hmap : s.poller.channels (fd i) = some i := by rw [h.channels_eq, hreg]; rfl
  obtain ⟨k, hown⟩ := h.slot i hreg
  obtain ⟨pfd, hpfd, hpfd_fd, -⟩ := hown.entry
  have hsign : pfd.fd = fd i ∨ pfd.fd = -(fd i : ℤ) - 1 := by
    rw [hpfd_fd]
    unfold fdOf
    split
    · exact Or.inr rfl
    · exact Or.inl rfl
  have hstep : Poller.update impl s i ev =
      .ok ⟨Function.update s.channel i ⟨fd i, st'.events, k, true⟩,
        ⟨s.poller.channels,
          s.poller.pollfds.set k ⟨fdOf (fd i) st', st'.events, kNoneEvent⟩⟩⟩ := by
    simp [Poller.update, impl, updateChannel, Loop.setChannel, h.fd_eq, hown.index_eq, hmap, hpfd,
      hsign, hneg, hevents, Channel.isNoneEvent, check, bind, Except.bind, pure, Except.pure]
  exact ⟨_, hstep, h.replace hfd hreg hown hreg' rfl rfl rfl⟩

/-- `PollPoller` follows an update, unless the channel has been removed or loses an interest that it
does not have. -/
lemma Follows.update (hfd : Function.Injective fd) (h : Follows fd st s) {i : ι} {ev : PollEvents}
    (hremoved : st i ≠ .removed) (hignored : ev = kNoneEvent → st i ≠ .ignored) :
    Yields (Poller.update impl s i ev) (Follows fd (Function.update st i ((st i).update ev))) := by
  cases hst : st i with
  | fresh =>
    apply h.update_new hfd (by rw [hst]; rfl)
    rw [h.index_fresh i hst]
    exact neg_one_lt_zero
  | removed => exact absurd hst hremoved
  | ignored =>
    have hev : ev ≠ kNoneEvent := fun hev => hignored hev hst
    apply h.update_registered hfd (by rw [hst]; rfl) ev (by simp) (by simp)
    rw [if_neg hev]
    rfl
  | watched ev' =>
    apply h.update_registered hfd (by rw [hst]; rfl) ev (by simp) (by simp)
    rw [Status.update]
    split <;> rfl

lemma removeChannel_fails {i : ι} (hmap : s.poller.channels (s.channel i).fd = none) :
    removeChannel s i = .error (.failed .pollRemoveUnknown) := by
  simp [removeChannel, hmap, check, bind, Except.bind]

/-- `PollPoller` removes a channel whose entry is negated. No index changes but that of the channel
of the last entry. -/
lemma Follows.remove (hfd : Function.Injective fd) (h : Follows fd st s) {i : ι}
    (hst : st i = .ignored) :
    Yields (Poller.remove impl s i) fun t => Follows fd (Function.update st i .removed) t ∧
      ∀ m, (t.channel m).index ≠ (s.channel m).index →
        m ≠ i ∧ Owns fd st s m (s.poller.pollfds.length - 1) := by
  have hmap : s.poller.channels (fd i) = some i := by rw [h.channels_eq, hst]; rfl
  have hevents : (s.channel i).events = kNoneEvent := by rw [h.events_eq, hst]; rfl
  obtain ⟨k, hown⟩ := h.slot i (by rw [hst]; rfl)
  obtain ⟨pfd, hpfd, hpfd_fd, hpfd_ev⟩ := hown.entry
  rw [hst] at hpfd_fd hpfd_ev
  have hk := hown.lt
  -- the channel of the last entry
  obtain ⟨j, hj, hend⟩ := h.owner (s.poller.pollfds.length - 1) (by omega)
  obtain ⟨last, hlast, hlast_fd, -⟩ := hend.entry
  have hlast' : s.poller.pollfds.getLast? = some last := by
    rw [List.getLast?_eq_getElem?, hlast]
  have hr : Reflects fd (Function.update st i .removed)
      (Function.update s.channel i ⟨fd i, kNoneEvent, k, false⟩)
      (Function.update s.poller.channels (fd i) none) := h.toReflects.set hfd rfl rfl rfl
  by_cases hlastk : k = s.poller.pollfds.length - 1
  · subst hlastk
    refine ⟨_, ?_, h.erase_last hfd hst hown hlast' hr, ?_⟩
    swap
    · intro m hm
      by_cases hmi : m = i
      · subst hmi
        simp [hown.index_eq] at hm
      · simp [hmi] at hm
    simp [Poller.remove, impl, removeChannel, Loop.setChannel, h.fd_eq, hown.index_eq, hmap, hpfd,
      hpfd_fd, hpfd_ev, hevents, hlast', fdOf, Status.events, Channel.isNoneEvent, check, bind,
      Except.bind, pure, Except.pure]
  · have hji : j ≠ i := by
      rintro rfl
      exact hlastk (hown.unique hend)
    have hmapj : s.poller.channels (fd j) = some j := by rw [h.channels_eq, hj]; rfl
    refine ⟨_, ?_, h.erase_inner hfd hst hown hji hj hend hlast' hr, ?_⟩
    swap
    · intro m hm
      by_cases hmj : m = j
      · subst hmj
        exact ⟨hji, hend⟩
      · by_cases hmi : m = i
        · subst hmi
          simp [hmj, hown.index_eq] at hm
        · simp [hmj, hmi] at hm
    simp only [fdOf] at hpfd_fd
    simp [Poller.remove, impl, removeChannel, Loop.setChannel, Loop.setIndex, h.fd_eq,
      hown.index_eq, hmap, hmapj, hpfd, hpfd_fd, hpfd_ev, hevents, hlast', hlast_fd, hlastk, hji,
      hfd.ne hji, unsigned_fdOf, Status.events, Channel.isNoneEvent, check, bind, Except.bind,
      pure, Except.pure]

end PollPoller
/-! ### The two together -/

section

variable [DecidableEq ι] {P : Type}

/-- A poller whose updates and removals follow the abstract poller follows each of its steps. -/
lemma agree_step {impl : Impl ι P} {R : (ι → Status) → Loop ι P → Prop} {s : Loop ι P}
    {channels : ChannelMap ι} (hr : Reflects fd st s.channel channels) {i : ι} {op : Op}
    (hupdate : ∀ ev, op.interest (st i).events = some ev →
      Yields (update impl s i ev) (R (Function.update st i ((st i).update ev))))
    (hremove : op.interest (st i).events = none → (st i).events = kNoneEvent →
      (st i).registered = true → Yields (remove impl s i) (R (Function.update st i .removed)))
    (hunknown : (st i).registered = false → ∃ f,
      impl.removeChannel (s.setChannel i { s.channel i with addedToLoop := false }) i =
        .error (.failed f)) :
    Agree R (Interest.step st (i, op)) (step impl s (i, op)) := by
  cases hop : op.interest (st i).events with
  | some ev =>
    obtain ⟨t, ht, hR⟩ := hupdate ev hop
    rw [step_of_update (by rw [hr.events_eq, hop]), ht, Interest.step, hop]
    exact hR
  | none =>
    rw [step_of_remove (by rw [hr.events_eq, hop]), Interest.step, hop]
    by_cases hev : (st i).events = kNoneEvent
    · by_cases hreg : (st i).registered = true
      · obtain ⟨t, ht, hR⟩ := hremove hop hev hreg
        simpa [ht, check, hev, hreg] using hR
      · obtain ⟨f, hf⟩ := hunknown (by simpa using hreg)
        have hnone : (s.channel i).isNoneEvent = true := by
          simp [Channel.isNoneEvent, hr.events_eq, hev]
        simp only [remove, hnone, hf, check, hev, hreg]
        trivial
    · have hsome : ¬ (s.channel i).isNoneEvent = true := by
        simp [Channel.isNoneEvent, hr.events_eq, hev]
      simp only [remove, hsome, check, hev]
      trivial

/-- `EPollPoller` follows every step of the abstract poller. -/
lemma EPollPoller.Follows.step (hfd : Function.Injective fd) {s : Loop ι (EPollPoller ι)}
    (h : EPollPoller.Follows fd st s) (e : ι × Op) :
    Agree (EPollPoller.Follows fd) (Interest.step st e) (step EPollPoller.impl s e) := by
  apply agree_step h.toReflects
  · intro ev _
    exact h.update hfd e.1 ev
  · intro _ hev hreg
    exact h.remove hfd hev hreg
  · intro hreg
    refine ⟨_, EPollPoller.removeChannel_fails ?_⟩
    simp [Loop.setChannel, h.fd_eq, h.channels_eq, hreg]

/-- `PollPoller` follows every disciplined step of the abstract poller. -/
lemma PollPoller.Follows.step (hfd : Function.Injective fd) {s : Loop ι (PollPoller ι)}
    (h : PollPoller.Follows fd st s) {e : ι × Op} (he : Interest.Disciplined st e) :
    Agree (PollPoller.Follows fd) (Interest.step st e) (step PollPoller.impl s e) := by
  apply agree_step h.toReflects
  · intro ev hop
    simp only [Interest.Disciplined, hop] at he
    exact h.update hfd he.1 he.2
  · intro hop hev hreg
    simp only [Interest.Disciplined, hop] at he
    have hignored : st e.1 = .ignored := by
      cases hst : st e.1 with
      | fresh => simp [hst, Status.registered] at hreg
      | removed => simp [hst, Status.registered] at hreg
      | ignored => rfl
      | watched ev =>
        rw [hst] at hev he
        exact absurd (congrArg Status.watched hev) he
    obtain ⟨t, ht, hfollows, -⟩ := h.remove hfd hignored
    exact ⟨t, ht, hfollows⟩
  · intro hreg
    refine ⟨_, PollPoller.removeChannel_fails ?_⟩
    simp [Loop.setChannel, h.fd_eq, h.channels_eq, hreg]

/-- A loop with fresh channels. -/
def Loop.init (fd : ι → ℕ) (p : P) : Loop ι P := ⟨fun i => Channel.new (fd i), p⟩

/-- After every operation of a disciplined client, an assertion has failed under one poller if and
only if one has failed under the other, and both ask the kernel for the same. -/
theorem pollers_interchangeable (fd : ι → ℕ) (hfd : Function.Injective fd) (ops : List (ι × Op))
    (h : Along Interest.step Interest.Disciplined (fun _ => .fresh) ops) :
    ∀ done, done <+: ops →
      Agree (fun s t => s.poller.watched = t.poller.watched)
        (run (step EPollPoller.impl) (Loop.init fd EPollPoller.new) done)
        (run (step PollPoller.impl) (Loop.init fd PollPoller.new) done) := by
  rintro done ⟨rest, rfl⟩
  have hepoll := run_agree (fun _ _ e hs _ => hs.step hfd e) (EPollPoller.Follows.init fd) h.left
  have hpoll := run_agree (fun _ _ _ hs he => hs.step hfd he) (PollPoller.Follows.init fd) h.left
  apply (hepoll.comp hpoll).mono
  rintro s t ⟨st, hs, ht⟩
  rw [hs.watched_eq, ht.watched_eq]

/-- Two channels, of which the first is registered first and removed first. -/
def twoFds : Bool → ℕ
  | false => 3
  | true => 4

theorem pollers_interchangeable_swap :
    Function.Injective twoFds ∧
      Along Interest.step Interest.Disciplined (fun _ => .fresh)
        [(false, .enableReading), (true, .enableWriting), (false, .disableAll), (false, .remove)] ∧
      ∀ done, done <+:
          [(false, .enableReading), (true, .enableWriting), (false, .disableAll),
            (false, .remove)] →
        Agree (fun s t => s.poller.watched = t.poller.watched)
          (run (step EPollPoller.impl) (Loop.init twoFds EPollPoller.new) done)
          (run (step PollPoller.impl) (Loop.init twoFds PollPoller.new) done) := by
  have hfd : Function.Injective twoFds := by decide
  have h : Along Interest.step Interest.Disciplined (fun _ => .fresh)
      [(false, .enableReading), (true, .enableWriting), (false, .disableAll),
        (false, .remove)] := by decide
  exact ⟨hfd, h, pollers_interchangeable twoFds hfd _ h⟩

/-- The run of one channel, with descriptor 3, under each poller. -/
def epollRun (ops : List Op) : Code (Loop Unit (EPollPoller Unit)) :=
  run (step EPollPoller.impl) (Loop.init (fun _ => 3) EPollPoller.new) (ops.map ((), ·))

def pollRun (ops : List Op) : Code (Loop Unit (PollPoller Unit)) :=
  run (step PollPoller.impl) (Loop.init (fun _ => 3) PollPoller.new) (ops.map ((), ·))

/-- A channel that is enabled after its removal, and one that is removed after a first update
without interest, fail an assertion of `PollPoller` and none of `EPollPoller`. A channel that is
disabled twice is watched by `EPollPoller` and not by `PollPoller`. -/
theorem pollers_differ :
    ((epollRun [.enableReading, .disableAll, .remove, .enableReading]).isOk = true ∧
        failure (pollRun [.enableReading, .disableAll, .remove, .enableReading]) =
          some .pollUpdateUnknown) ∧
      ((epollRun [.disableAll, .remove]).isOk = true ∧
        failure (pollRun [.disableAll, .remove]) = some .pollRemoveFd) ∧
      Yields (epollRun [.enableReading, .disableAll, .disableAll])
        (fun s => (3, kNoneEvent) ∈ s.poller.watched) ∧
      Yields (pollRun [.enableReading, .disableAll, .disableAll])
        (fun t => (3, kNoneEvent) ∉ t.poller.watched) := by
  refine ⟨by decide, by decide, ⟨_, rfl, (), rfl⟩, ⟨_, rfl, ?_⟩⟩
  rintro ⟨-, pfd, hpfd, hfd, -⟩
  have hneg : ∀ p ∈ [(⟨-4, kNoneEvent, kNoneEvent⟩ : PollFd)], p.fd ≠ 3 := by decide
  exact hneg pfd hpfd hfd

end

end Muduo.Poller
