import Muduo.Net.Poller.Interchange

/-!
# EPollPoller and the kernel

`EPollPoller` keeps two copies of what the kernel knows of a channel: the channel's index and the
entry in `channels_`. They agree with the interest set after every operation, so `epoll_ctl` is
never asked to add a descriptor that is there, nor to modify or delete one that is not. `update`
aborts after a failed addition or modification but only logs a failed deletion, and `strict` is the
poller that takes any failure for a fault.
-/

namespace Muduo.Poller
namespace EPollPoller

open Machine

variable {ι : Type} [DecidableEq ι] {fd : ι → ℕ} {st : ι → Status} {s : Loop ι (EPollPoller ι)}

/-! ### The system calls -/

/-- `update` in which a failed deletion is a fault as well. -/
def strictUpdate (op : CtlOp) (s : Loop ι (EPollPoller ι)) (i : ι) :
    Code (Loop ι (EPollPoller ι)) :=
  match epollCtl op (s.channel i).fd ((s.channel i).events, i) s.poller.interest with
  | some interest => return { s with poller := { s.poller with interest := interest } }
  | none => .error (.failed .epollCtl)

/-- The poller in which every failure of `epoll_ctl` is a fault. -/
def strict : Impl ι (EPollPoller ι) :=
  ⟨updateChannelVia strictUpdate, removeChannelVia strictUpdate⟩

/-- The index of the channel agrees with the interest set. -/
def IndexMatches (s : Loop ι (EPollPoller ι)) (i : ι) : Prop :=
  s.poller.interest (s.channel i).fd = none ↔ (s.channel i).index ≠ kAdded

omit [DecidableEq ι] in
/-- `epoll_ctl` succeeds. -/
lemma strictUpdate_eq {op : CtlOp} {i : ι}
    (h : op = .add ↔ s.poller.interest (s.channel i).fd = none) :
    strictUpdate op s i = update op s i := by
  have hsome : ∃ interest,
      epollCtl op (s.channel i).fd ((s.channel i).events, i) s.poller.interest = some interest := by
    cases op with
    | add => simp [epollCtl, h.mp rfl]
    | mod =>
      obtain ⟨p, hp⟩ := Option.ne_none_iff_exists'.mp (mt h.mpr (by simp))
      simp [epollCtl, hp]
    | del =>
      obtain ⟨p, hp⟩ := Option.ne_none_iff_exists'.mp (mt h.mpr (by simp))
      simp [epollCtl, hp]
  obtain ⟨interest, hinterest⟩ := hsome
  simp only [strictUpdate, update, hinterest]

lemma updateChannel_strict {i : ι} (h : IndexMatches s i) :
    updateChannelVia strictUpdate s i = updateChannel s i := by
  -- the request is made in a state with the same descriptor and the same interest set
  have hadd (hne : (s.channel i).index ≠ kAdded) (channels : ChannelMap ι) :
      strictUpdate .add
          (Loop.setIndex { s with poller := ⟨channels, s.poller.interest⟩ } i kAdded) i =
        update .add
          (Loop.setIndex { s with poller := ⟨channels, s.poller.interest⟩ } i kAdded) i := by
    apply strictUpdate_eq
    simpa [Loop.setIndex, Loop.setChannel] using h.mpr hne
  unfold updateChannel updateChannelVia
  by_cases hnew : (s.channel i).index = kNew ∨ (s.channel i).index = kDeleted
  · have hne : (s.channel i).index ≠ kAdded := by
      rcases hnew with hnew | hnew <;> simp [hnew, kNew, kDeleted, kAdded]
    simp only [if_pos hnew]
    split
    · exact bind_congr fun _ => hadd hne _
    · exact bind_congr fun _ => bind_congr fun _ => hadd hne _
  · simp only [if_neg hnew]
    refine bind_congr fun _ => bind_congr fun _ => ?_
    by_cases hadded : (s.channel i).index = kAdded
    · have hsome : s.poller.interest (s.channel i).fd ≠ none := fun hnone => h.mp hnone hadded
      rw [strictUpdate_eq (by simp [hsome]), strictUpdate_eq (by simp [hsome])]
    · simp [check, hadded, bind, Except.bind]

lemma removeChannel_strict {i : ι} (h : IndexMatches s i) :
    removeChannelVia strictUpdate s i = removeChannel s i := by
  unfold removeChannel removeChannelVia
  by_cases hadded : (s.channel i).index = kAdded
  · have hsome : s.poller.interest (s.channel i).fd ≠ none := fun hnone => h.mp hnone hadded
    simp only [if_pos hadded]
    rw [strictUpdate_eq (by simp [hsome])]
  · simp only [if_neg hadded]

/-! ### The three copies -/

omit [DecidableEq ι] in
lemma Follows.indexMatches (h : Follows fd st s) (i : ι) : IndexMatches s i := by
  rw [IndexMatches, h.fd_eq, h.interest_eq, h.index_eq]
  cases st i with
  | fresh => simp [entryOf, indexOf, kNew, kAdded]
  | removed => simp [entryOf, indexOf, kNew, kAdded]
  | ignored => simp [entryOf, indexOf, kDeleted, kAdded]
  | watched ev => simp [entryOf, indexOf]

/-- What the index of a channel says of `channels_` and of the interest set. -/
structure AgreesWithKernel (s : Loop ι (EPollPoller ι)) (i : ι) : Prop where
  added : (s.channel i).index = kAdded ↔
    s.poller.interest (s.channel i).fd = some ((s.channel i).events, i)
  deleted : (s.channel i).index = kDeleted ↔
    s.poller.channels (s.channel i).fd = some i ∧ s.poller.interest (s.channel i).fd = none
  new : (s.channel i).index = kNew ↔
    s.poller.channels (s.channel i).fd = none ∧ s.poller.interest (s.channel i).fd = none

omit [DecidableEq ι] in
lemma Follows.agreesWithKernel (h : Follows fd st s) (i : ι) : AgreesWithKernel s i := by
  constructor
  all_goals
    simp only [h.fd_eq, h.events_eq, h.index_eq, h.interest_eq, h.channels_eq]
    cases st i
  all_goals
    simp [entryOf, indexOf, Status.registered, Status.events, kNew, kAdded, kDeleted]

/-! ### fillActiveChannels -/

/-- The body of the loop in `fillActiveChannels`, for an event that `epoll_wait` has reported: its
`data.ptr` is the channel. The accumulator has the `revents_` of the channels and the active
ones. -/
def fillEvent (s : Loop ι (EPollPoller ι)) (r : (ι → PollEvents) × List ι)
    (event : PollEvents × ι) : Code ((ι → PollEvents) × List ι) := do
  let channel := event.2
  let fd := (s.channel channel).fd
  check .epollFillUnknown (s.poller.channels fd ≠ none)
  check .epollFillOther (s.poller.channels fd = some channel)
  return (Function.update r.1 channel event.1, r.2 ++ [channel])

/-- `size` is that of the array `events_`. -/
def fillActiveChannels (s : Loop ι (EPollPoller ι)) (size : ℕ) (events : List (PollEvents × ι))
    (revents : ι → PollEvents) : Code ((ι → PollEvents) × List ι) := do
  check .epollFillSize (events.length ≤ size)
  events.foldlM (fillEvent s) (revents, [])

omit [DecidableEq ι] in
/-- Whatever the kernel watches is a registered channel. -/
lemma Follows.registered_of_interest (h : Follows fd st s) {k : ℤ} {mask : PollEvents} {i : ι}
    (hk : s.poller.interest k = some (mask, i)) :
    s.poller.channels (s.channel i).fd = some i := by
  by_cases hfd : ∃ j, k = fd j
  · obtain ⟨j, rfl⟩ := hfd
    rw [h.interest_eq] at hk
    cases hst : st j with
    | watched ev =>
      rw [hst, entryOf] at hk
      cases hk
      rw [h.fd_eq, h.channels_eq, hst]
      rfl
    | fresh => simp [hst, entryOf] at hk
    | ignored => simp [hst, entryOf] at hk
    | removed => simp [hst, entryOf] at hk
  · rw [h.interest_other k (not_exists.mp hfd)] at hk
    cases hk

lemma fillEvents_eq {events : List (PollEvents × ι)}
    (h : ∀ event ∈ events, s.poller.channels (s.channel event.2).fd = some event.2)
    (r : (ι → PollEvents) × List ι) :
    events.foldlM (fillEvent s) r =
      .ok (events.foldl (fun f event => Function.update f event.2 event.1) r.1,
        r.2 ++ events.map Prod.snd) := by
  induction events generalizing r with
  | nil => simp [pure, Except.pure]
  | cons event events ih =>
    have hknown := h event (List.mem_cons_self ..)
    have hfill : fillEvent s r event =
        .ok (Function.update r.1 event.2 event.1, r.2 ++ [event.2]) := by
      simp [fillEvent, check, hknown, bind, Except.bind, pure, Except.pure]
    rw [List.foldlM_cons, hfill, ok_bind, ih fun e he => h e (List.mem_cons_of_mem event he)]
    simp

/-- `epoll_wait` reports at most `size` events, each of a descriptor in the interest set. -/
lemma Follows.fillActiveChannels (h : Follows fd st s) {size : ℕ}
    {events : List (PollEvents × ι)} (hsize : events.length ≤ size)
    (hevents : ∀ event ∈ events, ∃ k mask, s.poller.interest k = some (mask, event.2))
    (revents : ι → PollEvents) :
    fillActiveChannels s size events revents =
      .ok (events.foldl (fun f event => Function.update f event.2 event.1) revents,
        events.map Prod.snd) := by
  rw [EPollPoller.fillActiveChannels, check_of hsize, ok_bind, fillEvents_eq]
  · simp
  · intro event hevent
    obtain ⟨k, mask, hk⟩ := hevents event hevent
    exact h.registered_of_interest hk

/-! ### Runs -/

/-- Only a registered channel without interest is removed. -/
def RemovesIdle (s : Loop ι (EPollPoller ι)) (e : ι × Op) : Prop :=
  e.2 = .remove → (s.channel e.1).addedToLoop = true ∧ (s.channel e.1).isNoneEvent = true

instance (s : Loop ι (EPollPoller ι)) (e : ι × Op) : Decidable (RemovesIdle s e) :=
  inferInstanceAs (Decidable (_ → _))

lemma Follows.step_strict (hfd : Function.Injective fd) (h : Follows fd st s) {e : ι × Op}
    (he : RemovesIdle s e) :
    Yields (Poller.step impl s e) fun t =>
      (∃ st', Follows fd st' t) ∧ Poller.step strict s e = .ok t := by
  obtain ⟨i, op⟩ := e
  have hmatch := h.indexMatches i
  cases hop : op.interest (s.channel i).events with
  | some ev =>
    rw [step_of_update hop, step_of_update hop]
    obtain ⟨t, ht, hfollows⟩ := h.update hfd i ev
    refine ⟨t, ht, ⟨_, hfollows⟩, ?_⟩
    rw [← ht]
    apply updateChannel_strict
    simpa [IndexMatches, Loop.setChannel] using hmatch
  | none =>
    have hremove : op = .remove := by
      cases op with
      | remove => rfl
      | _ => cases hop
    obtain ⟨hadded, hnone⟩ := he hremove
    rw [step_of_remove hop, step_of_remove hop]
    have hreg : (st i).registered = true := by rw [← h.added_eq, hadded]
    have hev : (st i).events = kNoneEvent := by
      rw [← h.events_eq]
      simpa [Channel.isNoneEvent] using hnone
    obtain ⟨t, ht, hfollows⟩ := h.remove hfd hev hreg
    refine ⟨t, ht, ⟨_, hfollows⟩, ?_⟩
    rw [← ht, Poller.remove, Poller.remove]
    refine bind_congr fun _ => removeChannel_strict ?_
    simpa [IndexMatches, Loop.setChannel] using hmatch

/-- For every sequence of operations on channels with distinct descriptors that removes only
registered channels without interest: no assertion fails, and after it the index of each channel
says where the channel is, `kAdded` in the interest set with its own mask, `kDeleted` in `channels_`
only, `kNew` in neither. The poller that takes every failure of `epoll_ctl` for a fault goes the
same way. And `fillActiveChannels` turns whatever `epoll_wait` reports into the list of its
channels. -/
theorem epoll_agrees_with_kernel (fd : ι → ℕ) (hfd : Function.Injective fd) (ops : List (ι × Op))
    (h : Along (step impl) RemovesIdle (Loop.init fd new) ops) :
    Yields (run (step impl) (Loop.init fd new) ops) fun s =>
      (∀ i, AgreesWithKernel s i) ∧
      run (step strict) (Loop.init fd new) ops = .ok s ∧
      ∀ (size : ℕ) (events : List (PollEvents × ι)) (revents : ι → PollEvents),
        events.length ≤ size →
        (∀ event ∈ events, ∃ k mask, s.poller.interest k = some (mask, event.2)) →
        Yields (fillActiveChannels s size events revents) fun r =>
          r.2 = events.map Prod.snd := by
  have hinit : ∃ st, Follows fd st (Loop.init fd new) := ⟨_, Follows.init fd⟩
  have hrun : Yields (run (step impl) (Loop.init fd new) ops) fun s => ∃ st, Follows fd st s := by
    refine run_yields (I := fun s => ∃ st, Follows fd st s) ?_ hinit h
    rintro s e ⟨st, hs⟩ he
    obtain ⟨t, ht, hfollows, -⟩ := hs.step_strict hfd he
    exact ⟨t, ht, hfollows⟩
  -- the strict poller takes the same steps
  have hstrict : Agree (fun s t => s = t ∧ ∃ st, Follows fd st s)
      (run (step impl) (Loop.init fd new) ops) (run (step strict) (Loop.init fd new) ops) := by
    refine run_agree ?_ ⟨rfl, hinit⟩ h
    rintro s t e ⟨rfl, st, hs⟩ he
    obtain ⟨t, ht, hfollows, ht'⟩ := hs.step_strict hfd he
    rw [ht, ht']
    exact ⟨rfl, hfollows⟩
  obtain ⟨s, hs, st, hfollows⟩ := hrun
  refine ⟨s, hs, fun i => hfollows.agreesWithKernel i, ?_, ?_⟩
  · rw [hs] at hstrict
    match ht : run (step strict) (Loop.init fd new) ops, hstrict with
    | .ok t, hst => rw [hst.1]
  · intro size events revents hsize hevents
    exact ⟨_, hfollows.fillActiveChannels hsize hevents revents, rfl⟩

/-- A channel that is disabled, removed and registered again, between the operations of another. -/
theorem epoll_agrees_with_kernel_again :
    Along (step impl) RemovesIdle (Loop.init twoFds new)
        [(false, .enableReading), (true, .enableWriting), (false, .disableAll), (false, .remove),
          (true, .disableWriting), (false, .enableWriting)] ∧
      Yields (run (step impl) (Loop.init twoFds new)
        [(false, .enableReading), (true, .enableWriting), (false, .disableAll), (false, .remove),
          (true, .disableWriting), (false, .enableWriting)]) fun s =>
        (∀ i, AgreesWithKernel s i) ∧ (s.channel false).index = kAdded ∧
          (s.channel true).index = kDeleted := by
  have h : Along (step impl) RemovesIdle (Loop.init twoFds new)
      [(false, .enableReading), (true, .enableWriting), (false, .disableAll), (false, .remove),
        (true, .disableWriting), (false, .enableWriting)] := by decide +kernel
  obtain ⟨s, hs, hagree, -⟩ := epoll_agrees_with_kernel twoFds (by decide) _ h
  refine ⟨h, s, hs, hagree, ?_⟩
  have hindex : Yields (run (step impl) (Loop.init twoFds new)
      [(false, .enableReading), (true, .enableWriting), (false, .disableAll), (false, .remove),
        (true, .disableWriting), (false, .enableWriting)]) fun s =>
      (s.channel false).index = kAdded ∧ (s.channel true).index = kDeleted := by decide +kernel
  exact hindex.safe.of_ok hs

end EPollPoller
end Muduo.Poller
