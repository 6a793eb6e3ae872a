import Muduo.Net.Poller.Basic

/-!
# What a poller is for

The abstract poller keeps for each channel what its client has made of it so far, and watches the
descriptor of a channel with the channel's own mask. Both pollers are compared with it. They follow
it as long as the client does three things in order, which is what `Disciplined` says of a step: a
channel that has been removed is not registered again, a channel without interest is not disabled
again, and a channel is not removed when it was registered without interest and never updated since.
-/

namespace Muduo.Poller

open Machine

/-- What the client of a channel has done with it. -/
inductive Status where
  | fresh
  | watched (events : PollEvents)
  | ignored
  | removed
  deriving DecidableEq, Repr

namespace Status

def events : Status → PollEvents
  | .watched ev => ev
  | _ => kNoneEvent

/-- The poller knows the channel. -/
def registered : Status → Bool
  | .watched _ | .ignored => true
  | .fresh | .removed => false

/-- A channel is watched from its first update on, and ignored when it loses its interest. -/
def update (st : Status) (ev : PollEvents) : Status :=
  match st with
  | .watched _ => if ev = kNoneEvent then .ignored else .watched ev
  | .fresh | .ignored | .removed => .watched ev

@[simp] lemma events_update (st : Status) (ev : PollEvents) : (st.update ev).events = ev := by
  cases st with
  | watched ev' =>
    rw [update]
    split
    · rename_i h
      exact h.symm
    · rfl
  | fresh => rfl
  | ignored => rfl
  | removed => rfl

@[simp] lemma registered_update (st : Status) (ev : PollEvents) :
    (st.update ev).registered = true := by
  cases st with
  | watched ev' =>
    rw [update]
    split <;> rfl
  | fresh => rfl
  | ignored => rfl
  | removed => rfl

end Status

/-- The interest that an operation leaves, or `none` for `remove`. -/
def Op.interest (op : Op) (ev : PollEvents) : Option PollEvents :=
  match op with
  | .enableReading => some (ev ||| kReadEvent)
  | .disableReading => some (ev &&& ~~~kReadEvent)
  | .enableWriting => some (ev ||| kWriteEvent)
  | .disableWriting => some (ev &&& ~~~kWriteEvent)
  | .disableAll => some kNoneEvent
  | .remove => none

section

variable {ι P : Type} [DecidableEq ι]

lemma step_of_update {impl : Impl ι P} {s : Loop ι P} {i : ι} {op : Op} {ev : PollEvents}
    (h : op.interest (s.channel i).events = some ev) :
    step impl s (i, op) = update impl s i ev := by
  cases op with
  | remove => cases h
  | enableReading => cases h; rfl
  | disableReading => cases h; rfl
  | enableWriting => cases h; rfl
  | disableWriting => cases h; rfl
  | disableAll => cases h; rfl

lemma step_of_remove {impl : Impl ι P} {s : Loop ι P} {i : ι} {op : Op}
    (h : op.interest (s.channel i).events = none) : step impl s (i, op) = remove impl s i := by
  cases op with
  | remove => rfl
  | enableReading => cases h
  | disableReading => cases h
  | enableWriting => cases h
  | disableWriting => cases h
  | disableAll => cases h

end

namespace Interest

variable {ι : Type} [DecidableEq ι]

/-- The abstract poller: `remove` needs a registered channel without interest. -/
def step (st : ι → Status) (e : ι × Op) : Code (ι → Status) :=
  match e.2.interest (st e.1).events with
  | some ev => return Function.update st e.1 ((st e.1).update ev)
  | none => do
    check .channelRemove ((st e.1).events = kNoneEvent ∧ (st e.1).registered)
    return Function.update st e.1 .removed

/-- What the kernel is asked to watch. -/
def watched (fd : ι → ℕ) (st : ι → Status) : Set (ℤ × PollEvents) :=
  { w | ∃ i, w.1 = fd i ∧ st i = .watched w.2 }

/-- The uses of a channel on which the pollers agree. -/
def Disciplined (st : ι → Status) (e : ι × Op) : Prop :=
  match e.2.interest (st e.1).events with
  | some ev => st e.1 ≠ .removed ∧ (ev = kNoneEvent → st e.1 ≠ .ignored)
  | none => st e.1 ≠ .watched kNoneEvent

instance (st : ι → Status) (e : ι × Op) : Decidable (Disciplined st e) :=
  match h : e.2.interest (st e.1).events with
  | some ev =>
    decidable_of_iff (st e.1 ≠ .removed ∧ (ev = kNoneEvent → st e.1 ≠ .ignored))
      (by simp only [Disciplined, h])
  | none => decidable_of_iff (st e.1 ≠ .watched kNoneEvent) (by simp only [Disciplined, h])

end Interest

/-! ### What a poller shares with the channels -/

section

variable {ι : Type} {fd : ι → ℕ} {st : ι → Status} {channel : ι → Channel} {channels : ChannelMap ι}

/-- The channels and the map of a poller are those of the abstract state. -/
structure Reflects (fd : ι → ℕ) (st : ι → Status) (channel : ι → Channel)
    (channels : ChannelMap ι) : Prop where
  fd_eq : ∀ i, (channel i).fd = fd i
  events_eq : ∀ i, (channel i).events = (st i).events
  added_eq : ∀ i, (channel i).addedToLoop = (st i).registered
  channels_eq : ∀ i, channels (fd i) = if (st i).registered then some i else none

lemma Reflects.init (fd : ι → ℕ) :
    Reflects fd (fun _ => .fresh) (fun i => Channel.new (fd i)) fun _ => none :=
  ⟨fun _ => rfl, fun _ => rfl, fun _ => rfl, fun _ => rfl⟩

variable [DecidableEq ι]

lemma Reflects.set (hfd : Function.Injective fd) (h : Reflects fd st channel channels) {i : ι}
    {st' : Status} {c : Channel} (hcfd : c.fd = fd i) (hevents : c.events = st'.events)
    (hadded : c.addedToLoop = st'.registered) :
    Reflects fd (Function.update st i st') (Function.update channel i c)
      (Function.update channels (fd i) (if st'.registered then some i else none)) := by
  constructor
  all_goals
    intro j
    by_cases hj : j = i
  · subst hj
    simpa using hcfd
  · simp [hj, h.fd_eq]
  · subst hj
    simpa using hevents
  · simp [hj, h.events_eq]
  · subst hj
    simpa using hadded
  · simp [hj, h.added_eq]
  · subst hj
    simp
  · simp [hj, hfd.ne hj, h.channels_eq]

/-- Where the channel stays registered the map stays as it is. -/
lemma Reflects.set_registered (hfd : Function.Injective fd) (h : Reflects fd st channel channels)
    {i : ι} {st' : Status} {c : Channel} (hcfd : c.fd = fd i) (hevents : c.events = st'.events)
    (hadded : c.addedToLoop = st'.registered) (hreg : (st i).registered = st'.registered) :
    Reflects fd (Function.update st i st') (Function.update channel i c) channels := by
  have hmap : Function.update channels (fd i : ℤ) (if st'.registered then some i else none) =
      channels := by
    rw [Function.update_eq_self_iff, ← hreg, h.channels_eq]
  exact hmap ▸ h.set hfd hcfd hevents hadded

/-- The index is the poller's own business. -/
lemma Reflects.setIndex (h : Reflects fd st channel channels) (i : ι) (index : ℤ) :
    Reflects fd st (Function.update channel i { channel i with index := index }) channels := by
  refine ⟨?_, ?_, ?_, h.channels_eq⟩
  all_goals
    intro j
    by_cases hj : j = i
  · subst hj
    simp [h.fd_eq]
  · simp [hj, h.fd_eq]
  · subst hj
    simp [h.events_eq]
  · simp [hj, h.events_eq]
  · subst hj
    simp [h.added_eq]
  · simp [hj, h.added_eq]

end

end Muduo.Poller
