import Mathlib.Data.Set.Card
import Muduo.Net.Poller.Interchange

/-!
# The array of PollPoller

`PollPoller` keeps one `pollfd` for each registered channel, at the channel's index. A removal fills
the hole with the last entry and finds the channel of that entry through its descriptor, negated or
not, so the array stays in step with `channels_` whatever calls its channels make. A call that the
poller does not allow fails one of the assertions on entry.
-/

namespace Muduo.Poller

open Machine

/-- A call that a channel makes to its poller, after it has set its events. -/
inductive Call (ι : Type) where
  | update (i : ι) (events : PollEvents)
  | remove (i : ι)
  deriving DecidableEq, Repr

section

variable {ι P : Type} [DecidableEq ι]

def callStep (impl : Impl ι P) (s : Loop ι P) : Call ι → Code (Loop ι P)
  | .update i ev => update impl s i ev
  | .remove i => remove impl s i

end

namespace PollPoller

variable {ι : Type} {fd : ι → ℕ} {st : ι → Status} {s t : Loop ι (PollPoller ι)}

/-- The channel is in `channels_`. -/
def Registered (s : Loop ι (PollPoller ι)) (i : ι) : Prop :=
  s.poller.channels (s.channel i).fd = some i

lemma Follows.registered_iff (h : Follows fd st s) {i : ι} :
    Registered s i ↔ (st i).registered = true := by
  rw [Registered, h.fd_eq, h.channels_eq]
  cases (st i).registered <;> simp

/-! ### What the array says -/

/-- The array and `channels_` have the same size, and the entry of a registered channel is the one
at its index, which no other channel has. -/
structure ArrayMatches (s : Loop ι (PollPoller ι)) : Prop where
  size : s.poller.pollfds.length = { k | s.poller.channels k ≠ none }.ncard
  entry : ∀ i, Registered s i → 0 ≤ (s.channel i).index ∧
    (s.channel i).index < s.poller.pollfds.length ∧
    ∃ pfd, s.poller.pollfds[(s.channel i).index.toNat]? = some pfd ∧
      (pfd.fd = (s.channel i).fd ∨ pfd.fd = -(s.channel i).fd - 1) ∧
      pfd.events = (s.channel i).events
  distinct : ∀ i j, Registered s i → Registered s j →
    (s.channel i).index = (s.channel j).index → i = j

/-- `channels_` has no keys but descriptors of channels. -/
def KeysOf (fd : ι → ℕ) (s : Loop ι (PollPoller ι)) : Prop :=
  ∀ k : ℤ, (∀ i, k ≠ fd i) → s.poller.channels k = none

/-- The descriptor that an entry stands for. -/
def PollFd.unsigned (pfd : PollFd) : ℤ := if pfd.fd < 0 then -pfd.fd - 1 else pfd.fd

/-- The entry at `k` and its owner. -/
lemma Follows.owner_entry (h : Follows fd st s) {k : ℕ} {pfd : PollFd}
    (hk : s.poller.pollfds[k]? = some pfd) :
    ∃ i, (st i).registered = true ∧ Owns fd st s i k ∧ pfd.fd = fdOf (fd i) (st i) := by
  obtain ⟨i, hi, hown⟩ := h.owner k (List.getElem?_eq_some_iff.mp hk).1
  obtain ⟨pfd', hpfd, hfd, -⟩ := hown.entry
  rw [hk] at hpfd
  cases hpfd
  exact ⟨i, hi, hown, hfd⟩

lemma Follows.size_eq (hfd : Function.Injective fd) (h : Follows fd st s) (hkeys : KeysOf fd s) :
    s.poller.pollfds.length = { k | s.poller.channels k ≠ none }.ncard := by
  -- the entries stand for the keys of `channels_`, each for one
  have howner (k : ℕ) (hk : k < s.poller.pollfds.length) : ∃ i, (st i).registered = true ∧
      Owns fd st s i k ∧ PollFd.unsigned s.poller.pollfds[k] = fd i := by
    obtain ⟨i, hi, hown, hfd⟩ := h.owner_entry (List.getElem?_eq_getElem hk)
    refine ⟨i, hi, hown, ?_⟩
    rw [PollFd.unsigned, hfd]
    exact unsigned_fdOf _ _
  symm
  refine Set.ncard_eq_of_bijective (fun k hk => PollFd.unsigned s.poller.pollfds[k]) ?_ ?_ ?_
  · intro key hkey
    have hex : ∃ i, key = fd i := by
      by_contra hno
      exact hkey (hkeys key (not_exists.mp hno))
    obtain ⟨i, rfl⟩ := hex
    have hi : (st i).registered = true := by
      by_contra hreg
      simp [h.channels_eq, hreg] at hkey
    obtain ⟨k, hown⟩ := h.slot i hi
    obtain ⟨j, -, hown', hj⟩ := howner k hown.lt
    exact ⟨k, hown.lt, by rw [hj, hown'.inj hfd hown]⟩
  · intro k hk
    obtain ⟨i, hi, -, hunsigned⟩ := howner k hk
    simp [hunsigned, h.channels_eq, hi]
  · intro k l hk hl heq
    obtain ⟨i, -, hown, hi⟩ := howner k hk
    obtain ⟨j, -, hown', hj⟩ := howner l hl
    rw [hi, hj] at heq
    have hij : i = j := hfd (by exact_mod_cast heq)
    exact hown.unique (hij ▸ hown')

lemma Follows.arrayMatches (hfd : Function.Injective fd) (h : Follows fd st s)
    (hkeys : KeysOf fd s) : ArrayMatches s := by
  refine ⟨h.size_eq hfd hkeys, ?_, ?_⟩
  · intro i hi
    obtain ⟨k, hown⟩ := h.slot i (h.registered_iff.mp hi)
    obtain ⟨pfd, hpfd, hpfd_fd, hpfd_ev⟩ := hown.entry
    rw [hown.index_eq]
    refine ⟨Int.natCast_nonneg k, by exact_mod_cast hown.lt, pfd, by simpa using hpfd, ?_, ?_⟩
    · rw [hpfd_fd, h.fd_eq]
      unfold fdOf
      split
      · exact Or.inr rfl
      · exact Or.inl rfl
    · rw [hpfd_ev, h.events_eq]
  · intro i j hi hj heq
    obtain ⟨k, hown⟩ := h.slot i (h.registered_iff.mp hi)
    obtain ⟨l, hown'⟩ := h.slot j (h.registered_iff.mp hj)
    rw [hown.index_eq, hown'.index_eq] at heq
    have hkl : k = l := by exact_mod_cast heq
    exact hown.inj hfd (hkl ▸ hown')

/-! ### What poll reports -/

/-- The entries have different descriptors. -/
lemma Follows.fds_nodup (hfd : Function.Injective fd) (h : Follows fd st s) :
    (s.poller.pollfds.map (·.fd)).Nodup := by
  rw [List.Nodup, List.pairwise_map, List.pairwise_iff_getElem]
  intro k l hk hl hlt heq
  obtain ⟨i, -, hown, hi⟩ := h.owner_entry (List.getElem?_eq_getElem hk)
  obtain ⟨j, -, hown', hj⟩ := h.owner_entry (List.getElem?_eq_getElem hl)
  have hij : i = j := hfd (fdOf_injective (hi.symm.trans (heq.trans hj)))
  exact hlt.ne (hown.unique (hij ▸ hown'))

/-- `::poll` writes the `revents` of each entry. -/
def polled (s : Loop ι (PollPoller ι)) (answer : ℕ → PollEvents) : Loop ι (PollPoller ι) :=
  { s with
    poller := { s.poller with
      pollfds := s.poller.pollfds.mapIdx fun k pfd => { pfd with revents := answer k } } }

lemma polled_fds (s : Loop ι (PollPoller ι)) (answer : ℕ → PollEvents) :
    (polled s answer).poller.pollfds.map (·.fd) = s.poller.pollfds.map (·.fd) := by
  apply List.ext_getElem?
  intro k
  simp [polled, Function.comp_def]

lemma mem_polled {answer : ℕ → PollEvents} {pfd : PollFd} :
    pfd ∈ (polled s answer).poller.pollfds ↔
      ∃ (k : ℕ) (p : PollFd), s.poller.pollfds[k]? = some p ∧
        pfd = { p with revents := answer k } := by
  simp only [polled, List.mem_iff_getElem?, List.getElem?_mapIdx, Option.map_eq_some_iff]
  simp only [eq_comm]

/-- `poll` has nothing to say of an entry with a negative descriptor. -/
def SkipsNegative (s : Loop ι (PollPoller ι)) (answer : ℕ → PollEvents) : Prop :=
  ∀ k pfd, s.poller.pollfds[k]? = some pfd → pfd.fd < 0 → answer k = kNoneEvent

/-- The channel of an entry that `poll` has reported. -/
lemma Follows.reported_entry (h : Follows fd st s) {answer : ℕ → PollEvents}
    (hanswer : SkipsNegative s answer) {k : ℕ} {pfd : PollFd}
    (hk : s.poller.pollfds[k]? = some pfd) (hev : answer k ≠ kNoneEvent) :
    ∃ i, Registered s i ∧ (s.channel i).index = k ∧ pfd.fd = fd i := by
  obtain ⟨i, hi, hown, hpfd⟩ := h.owner_entry hk
  refine ⟨i, h.registered_iff.mpr hi, hown.index_eq, ?_⟩
  have hpos : 0 ≤ pfd.fd := not_lt.mp fun hneg => hev (hanswer k pfd hk hneg)
  rw [hpfd] at hpos ⊢
  unfold fdOf at hpos ⊢
  split at hpos
  · omega
  · rfl

/-! ### What the calls do -/

variable [DecidableEq ι]

lemma updateChannel_channels {i : ι} (h : updateChannel s i = .ok t) {k : ℤ}
    (hk : k ≠ (s.channel i).fd) : t.poller.channels k = s.poller.channels k := by
  simp only [updateChannel] at h
  split at h
  · simp only [bind_eq_ok] at h
    obtain ⟨-, -, h⟩ := h
    cases h
    simp [hk]
  · simp only [bind_eq_ok] at h
    obtain ⟨-, -, -, -, h⟩ := h
    split at h
    · cases h
    · rw [bind_eq_ok] at h
      obtain ⟨-, -, h⟩ := h
      cases h
      rfl

lemma removeChannel_channels {i : ι} (h : removeChannel s i = .ok t) {k : ℤ}
    (hk : k ≠ (s.channel i).fd) : t.poller.channels k = s.poller.channels k := by
  simp only [removeChannel, bind_eq_ok] at h
  obtain ⟨-, -, -, -, -, -, -, -, h⟩ := h
  split at h
  · rw [bind_eq_ok] at h
    obtain ⟨-, -, h⟩ := h
    split at h
    · cases h
      simp [hk]
    · split at h
      · cases h
      · cases h
        simp [hk]
  · cases h

lemma KeysOf.update (h : KeysOf fd s) (hfd : ∀ i, (s.channel i).fd = fd i) {i : ι}
    {ev : PollEvents} (ht : Poller.update impl s i ev = .ok t) : KeysOf fd t := by
  intro k hk
  rw [updateChannel_channels ht]
  · exact h k hk
  · simpa [Loop.setChannel, hfd] using hk i

lemma KeysOf.remove (h : KeysOf fd s) (hfd : ∀ i, (s.channel i).fd = fd i) {i : ι}
    (ht : Poller.remove impl s i = .ok t) : KeysOf fd t := by
  rw [Poller.remove, bind_eq_ok] at ht
  obtain ⟨-, -, ht⟩ := ht
  intro k hk
  rw [removeChannel_channels ht]
  · exact h k hk
  · simpa [Loop.setChannel, hfd] using hk i

/-- The assertions on entry: everything but the entry of `channels_` that `removeChannel` writes the
new index through. -/
def OnEntry (f : Fault) : Prop := f ≠ .pollRemoveAtEnd

/-- An update appends an entry, overwrites one, or fails on entry. -/
lemma Follows.update_upTo (hfd : Function.Injective fd) (h : Follows fd st s) (i : ι)
    (ev : PollEvents) :
    SafeUpTo OnEntry (Poller.update impl s i ev) fun t => ∃ st', Follows fd st' t := by
  by_cases hreg : (st i).registered = true
  · have hstatus : ∃ st' : Status, st'.registered = true ∧ st'.events = ev ∧
        fdOf (fd i) st' = if ev = kNoneEvent then -(fd i : ℤ) - 1 else fd i := by
      by_cases hev : ev = kNoneEvent
      · exact ⟨.ignored, rfl, hev.symm, by rw [if_pos hev]; rfl⟩
      · exact ⟨.watched ev, rfl, rfl, by rw [if_neg hev]; rfl⟩
    obtain ⟨st', hreg', hevents, hneg⟩ := hstatus
    apply (h.update_registered hfd hreg ev hreg' hevents hneg).safeUpTo.mono
    exact fun t ht => ⟨_, ht⟩
  · rw [Bool.not_eq_true] at hreg
    by_cases hindex : (s.channel i).index < 0
    · exact (h.update_new hfd hreg hindex ev).safeUpTo.mono fun t ht => ⟨_, ht⟩
    · have hfail : Poller.update impl s i ev = .error (.failed .pollUpdateUnknown) := by
        simp [Poller.update, impl, updateChannel, Loop.setChannel, h.fd_eq, h.channels_eq, hreg,
          hindex, check, bind, Except.bind]
      rw [hfail]
      rintro ⟨⟩

/-- A removal takes out a negated entry, or fails on entry. -/
lemma Follows.remove_upTo (hfd : Function.Injective fd) (h : Follows fd st s) (i : ι) :
    SafeUpTo OnEntry (Poller.remove impl s i) fun t => (∃ st', Follows fd st' t) ∧
      ∀ m, (t.channel m).index ≠ (s.channel m).index →
        m ≠ i ∧ Owns fd st s m (s.poller.pollfds.length - 1) := by
  by_cases hst : st i = .ignored
  · apply (h.remove hfd hst).safeUpTo.mono
    exact fun t ht => ⟨⟨_, ht.1⟩, ht.2⟩
  have hfail : ∃ f, Poller.remove impl s i = .error (.failed f) ∧ OnEntry f := by
    by_cases hev : (s.channel i).isNoneEvent = true
    swap
    · exact ⟨.channelRemove, by simp [Poller.remove, check, hev, bind, Except.bind], by rintro ⟨⟩⟩
    simp only [Poller.remove, check_of hev, ok_bind, impl]
    by_cases hreg : (st i).registered = true
    · -- the entry of a watched channel is not negated
      obtain ⟨k, hown⟩ := h.slot i hreg
      obtain ⟨pfd, hpfd, hpfd_fd, -⟩ := hown.entry
      have hlast : ∃ last, s.poller.pollfds.getLast? = some last := by
        rw [List.getLast?_eq_getElem?]
        exact ⟨_, List.getElem?_eq_getElem (by have := hown.lt; omega)⟩
      obtain ⟨last, hlast⟩ := hlast
      have hne : pfd.fd ≠ -(fd i : ℤ) - 1 := by
        rw [hpfd_fd]
        unfold fdOf
        split
        · contradiction
        · omega
      refine ⟨.pollRemoveFd, ?_, by rintro ⟨⟩⟩
      have hevents : (s.channel i).events = kNoneEvent := by simpa [Channel.isNoneEvent] using hev
      simp [removeChannel, Loop.setChannel, h.fd_eq, h.channels_eq, hreg, hevents, hown.index_eq,
        hpfd, hlast, hne, Channel.isNoneEvent, check, bind, Except.bind]
    · rw [Bool.not_eq_true] at hreg
      refine ⟨.pollRemoveUnknown, removeChannel_fails ?_, by rintro ⟨⟩⟩
      simp [Loop.setChannel, h.fd_eq, h.channels_eq, hreg]
  obtain ⟨f, hf, hentry⟩ := hfail
  rw [hf]
  exact hentry

/-- What holds between any two calls. -/
def Arrayed (fd : ι → ℕ) (s : Loop ι (PollPoller ι)) : Prop :=
  (∃ st, Follows fd st s) ∧ KeysOf fd s

lemma callStep_arrayed (hfd : Function.Injective fd) (h : Arrayed fd s) (c : Call ι) :
    SafeUpTo OnEntry (callStep impl s c) (Arrayed fd) := by
  obtain ⟨⟨st, hst⟩, hkeys⟩ := h
  cases c with
  | update i ev =>
    exact (hst.update_upTo hfd i ev).and_of_ok fun t ht => hkeys.update hst.fd_eq ht
  | remove i =>
    have hfollows := (hst.remove_upTo hfd i).mono fun t ht => ht.1
    exact hfollows.and_of_ok fun t ht => hkeys.remove hst.fd_eq ht

/-! ### fillActiveChannels -/

/-- The loop of `fillActiveChannels` over the entries that are left, with `numEvents` to go. The
accumulator has the `revents_` of the channels and the active ones. -/
def fillEntries (s : Loop ι (PollPoller ι)) :
    List PollFd → ℕ → (ι → PollEvents) × List ι → Code ((ι → PollEvents) × List ι)
  | [], _, r => return r
  | _ :: _, 0, r => return r
  | pfd :: pfds, n + 1, r =>
    if pfd.revents ≠ kNoneEvent then
      match s.poller.channels pfd.fd with
      | none => .error (.failed .pollFillUnknown)
      | some channel => do
        check .pollFillFd ((s.channel channel).fd = pfd.fd)
        fillEntries s pfds n (Function.update r.1 channel pfd.revents, r.2 ++ [channel])
    else
      fillEntries s pfds (n + 1) r

def fillActiveChannels (s : Loop ι (PollPoller ι)) (numEvents : ℕ) (revents : ι → PollEvents) :
    Code ((ι → PollEvents) × List ι) :=
  fillEntries s s.poller.pollfds numEvents (revents, [])

/-- The channel that an entry reports. -/
def reported (s : Loop ι (PollPoller ι)) (pfd : PollFd) : Option ι :=
  if pfd.revents ≠ kNoneEvent then s.poller.channels pfd.fd else none

omit [DecidableEq ι] in
lemma reported_eq_some {pfd : PollFd} {i : ι} :
    reported s pfd = some i ↔ pfd.revents ≠ kNoneEvent ∧ s.poller.channels pfd.fd = some i := by
  unfold reported
  split
  · rename_i h
    exact (and_iff_right h).symm
  · simp_all

/-- If the channel of every entry with an event is known, and `numEvents` counts these entries, the
loop reports them all. -/
lemma fillEntries_yields {pfds : List PollFd}
    (h : ∀ pfd ∈ pfds, pfd.revents ≠ kNoneEvent →
      ∃ i, s.poller.channels pfd.fd = some i ∧ (s.channel i).fd = pfd.fd)
    (r : (ι → PollEvents) × List ι) :
    Yields (fillEntries s pfds (pfds.countP fun pfd => pfd.revents ≠ kNoneEvent) r) fun r' =>
      r'.2 = r.2 ++ pfds.filterMap (reported s) := by
  induction pfds generalizing r with
  | nil => exact ⟨r, by simp [fillEntries, pure, Except.pure], by simp⟩
  | cons pfd pfds ih =>
    have hrest := fun p hp => h p (List.mem_cons_of_mem pfd hp)
    by_cases hev : pfd.revents ≠ kNoneEvent
    · obtain ⟨i, hi, hfd⟩ := h pfd (List.mem_cons_self ..) hev
      have hcount : (pfd :: pfds).countP (fun pfd => pfd.revents ≠ kNoneEvent) =
          pfds.countP (fun pfd => pfd.revents ≠ kNoneEvent) + 1 :=
        List.countP_cons_of_pos (by simpa using hev)
      obtain ⟨r', hr', heq⟩ := ih hrest (Function.update r.1 i pfd.revents, r.2 ++ [i])
      refine ⟨r', ?_, heq.trans ?_⟩
      · rw [hcount, fillEntries, if_pos hev, hi]
        simp only [check_of hfd, ok_bind]
        exact hr'
      · rw [List.filterMap_cons_some (b := i) (by simp [reported, hev, hi])]
        simp
    · have hcount : (pfd :: pfds).countP (fun pfd => pfd.revents ≠ kNoneEvent) =
          pfds.countP (fun pfd => pfd.revents ≠ kNoneEvent) :=
        List.countP_cons_of_neg (by simpa using hev)
      have hskip (n : ℕ) : fillEntries s (pfd :: pfds) n r = fillEntries s pfds n r := by
        cases n with
        | zero => cases pfds <;> rfl
        | succ n => rw [fillEntries, if_neg hev]
      rw [hcount, hskip, List.filterMap_cons_none (by simp [reported, hev])]
      exact ih hrest r

omit [DecidableEq ι] in
/-- An entry that has an event is the entry of a channel. -/
lemma Follows.exists_channel (h : Follows fd st s) {answer : ℕ → PollEvents}
    (hanswer : SkipsNegative s answer) {pfd : PollFd}
    (hpfd : pfd ∈ (polled s answer).poller.pollfds) (hev : pfd.revents ≠ kNoneEvent) :
    ∃ i, s.poller.channels pfd.fd = some i ∧ (s.channel i).fd = pfd.fd := by
  obtain ⟨k, p, hp, rfl⟩ := mem_polled.mp hpfd
  obtain ⟨i, hi, -, hpi⟩ := h.reported_entry hanswer hp hev
  rw [Registered, h.fd_eq, ← hpi] at hi
  exact ⟨i, hi, by rw [h.fd_eq]; exact hpi.symm⟩

omit [DecidableEq ι] in
/-- The channels that are reported are the registered ones whose entry has an event. -/
lemma Follows.exists_reported (hfd : Function.Injective fd) (h : Follows fd st s)
    {answer : ℕ → PollEvents} (hanswer : SkipsNegative s answer) (i : ι) :
    (∃ pfd ∈ (polled s answer).poller.pollfds, reported (polled s answer) pfd = some i) ↔
      Registered s i ∧ answer (s.channel i).index.toNat ≠ kNoneEvent := by
  constructor
  · rintro ⟨pfd, hpfd, hi⟩
    obtain ⟨hev, hi⟩ := reported_eq_some.mp hi
    obtain ⟨k, p, hp, rfl⟩ := mem_polled.mp hpfd
    obtain ⟨j, hj, hindex, hpj⟩ := h.reported_entry hanswer hp hev
    have hij : j = i := by
      have hj' := hj
      rw [Registered, h.fd_eq, ← hpj] at hj'
      exact Option.some.inj (hj'.symm.trans hi)
    subst hij
    exact ⟨hj, by rwa [hindex, Int.toNat_natCast]⟩
  · rintro ⟨hreg, hev⟩
    obtain ⟨k, hown⟩ := h.slot i (h.registered_iff.mp hreg)
    obtain ⟨p, hp, -⟩ := hown.entry
    rw [hown.index_eq, Int.toNat_natCast] at hev
    obtain ⟨j, hj, hindex, hpj⟩ := h.reported_entry hanswer hp hev
    have hij : j = i := by
      obtain ⟨l, hown'⟩ := h.slot j (h.registered_iff.mp hj)
      have hl : l = k := by exact_mod_cast hown'.index_eq.symm.trans hindex
      exact (hl ▸ hown').inj hfd hown
    subst hij
    refine ⟨_, mem_polled.mpr ⟨k, p, hp, rfl⟩, reported_eq_some.mpr ⟨hev, ?_⟩⟩
    rw [Registered, h.fd_eq, ← hpj] at hj
    exact hj

/-- After `poll`, `fillActiveChannels` reports the registered channels whose entry has an event,
each once. -/
lemma Follows.fillActiveChannels (hfd : Function.Injective fd) (h : Follows fd st s)
    {answer : ℕ → PollEvents} (hanswer : SkipsNegative s answer) (revents : ι → PollEvents) :
    Yields (fillActiveChannels (polled s answer)
        ((polled s answer).poller.pollfds.countP fun pfd => pfd.revents ≠ kNoneEvent) revents)
      fun r => r.2.Nodup ∧
        ∀ i, i ∈ r.2 ↔ Registered s i ∧ answer (s.channel i).index.toNat ≠ kNoneEvent := by
  obtain ⟨r, hr, heq⟩ := fillEntries_yields (s := polled s answer)
    (fun _ => h.exists_channel hanswer) (revents, [])
  refine ⟨r, hr, ?_, fun i => ?_⟩
  · have hfds := h.fds_nodup hfd
    rw [← polled_fds s answer, List.Nodup, List.pairwise_map] at hfds
    rw [heq, List.nil_append, List.Nodup, List.pairwise_filterMap]
    apply hfds.imp_of_mem
    rintro p p' hp hp' hne i hi _ hj rfl
    -- a channel that two entries report has the descriptor of both
    obtain ⟨hev, hi⟩ := reported_eq_some.mp hi
    obtain ⟨hev', hj⟩ := reported_eq_some.mp hj
    obtain ⟨a, ha, hfda⟩ := h.exists_channel hanswer hp hev
    obtain ⟨b, hb, hfdb⟩ := h.exists_channel hanswer hp' hev'
    have hai : a = i := Option.some.inj (ha.symm.trans hi)
    have hbi : b = i := Option.some.inj (hb.symm.trans hj)
    exact hne (by rw [← hfda, ← hfdb, hai, hbi])
  · rw [heq, List.nil_append, List.mem_filterMap]
    exact h.exists_reported hfd hanswer i

/-! ### Runs -/

/-- Over every sequence of calls on channels with distinct descriptors, no assertion fails but those
on entry, and in every state reached: the array and `channels_` match, a removal changes the index
of at most one other channel, the one that was last, and when `poll` has filled in the array and
`numEvents` counts the entries with an event, `fillActiveChannels` reports the channels of these
entries, each once. -/
theorem poll_array_bijection (fd : ι → ℕ) (hfd : Function.Injective fd) (calls : List (Call ι)) :
    SafeUpTo OnEntry (run (callStep impl) (Loop.init fd new) calls) fun s =>
      ArrayMatches s ∧
      (∀ i t, Poller.remove impl s i = .ok t →
        { j | (t.channel j).index ≠ (s.channel j).index }.Subsingleton ∧
        ∀ j, (t.channel j).index ≠ (s.channel j).index →
          j ≠ i ∧ Registered s j ∧ (s.channel j).index = s.poller.pollfds.length - 1) ∧
      ∀ answer revents, SkipsNegative s answer →
        Yields (fillActiveChannels (polled s answer)
          ((polled s answer).poller.pollfds.countP fun pfd => pfd.revents ≠ kNoneEvent) revents)
          fun r => r.2.Nodup ∧
            ∀ i, i ∈ r.2 ↔ Registered s i ∧ answer (s.channel i).index.toNat ≠ kNoneEvent := by
  have hinit : Arrayed fd (Loop.init fd new) := ⟨⟨_, Follows.init fd⟩, fun _ _ => rfl⟩
  apply (run_safeUpTo (fun s c hs => callStep_arrayed hfd hs c) hinit calls).mono
  rintro s ⟨⟨st, hst⟩, hkeys⟩
  refine ⟨hst.arrayMatches hfd hkeys, ?_, fun answer revents hanswer =>
    hst.fillActiveChannels hfd hanswer revents⟩
  intro i t ht
  have hmoved := hst.remove_upTo hfd i
  rw [ht] at hmoved
  replace hmoved := hmoved.2
  constructor
  · intro j hj j' hj'
    exact (hmoved j hj).2.inj hfd (hmoved j' hj').2
  · intro j hj
    obtain ⟨hne, hown⟩ := hmoved j hj
    have hlt := hown.lt
    obtain ⟨j', hreg, hown'⟩ := hst.owner _ hlt
    refine ⟨hne, hst.registered_iff.mpr ((hown'.inj hfd hown) ▸ hreg), ?_⟩
    rw [hown.index_eq]
    omega

/-- The first of three channels is removed, and the third one moves into its place. -/
theorem poll_array_bijection_swap :
    Yields (run (callStep impl) (Loop.init (fun i : Fin 3 => i.val) new)
        [.update 0 kReadEvent, .update 1 kWriteEvent, .update 2 kNoneEvent, .update 0 kNoneEvent,
          .remove 0]) fun s =>
      ArrayMatches s ∧ (s.channel 2).index = 0 ∧ (s.channel 1).index = 1 := by
  have hindex : Yields (run (callStep impl) (Loop.init (fun i : Fin 3 => i.val) new)
      [.update 0 kReadEvent, .update 1 kWriteEvent, .update 2 kNoneEvent, .update 0 kNoneEvent,
        .remove 0]) fun s => (s.channel 2).index = 0 ∧ (s.channel 1).index = 1 := by
    decide +kernel
  obtain ⟨s, hs, hs'⟩ := hindex
  have h := poll_array_bijection (fun i : Fin 3 => i.val) Fin.val_injective
    [.update 0 kReadEvent, .update 1 kWriteEvent, .update 2 kNoneEvent, .update 0 kNoneEvent,
      .remove 0]
  rw [hs] at h
  exact ⟨s, hs, h.1, hs'⟩

end PollPoller
end Muduo.Poller
