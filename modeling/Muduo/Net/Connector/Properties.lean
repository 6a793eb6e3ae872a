import Muduo.Machine.Ledger
import Muduo.Net.Connector.Basic

/-!
# What the connector does to its attempt

`Attempt` says which socket is being connected, if there is one, and how the channel stands to the
queued `resetChannel`. `Begins` lists what `startInLoop` can do when nothing is left of the last
attempt, `Ends` what the other functions can do, and both keep the invariant `Inv`.
-/

namespace Muduo
namespace Connector

open Machine

variable {c c' : Connector}

/-! ### The ledger of sockets -/

def Action.opens : Action → Option ℕ
  | .opened sockfd => some sockfd
  | _ => none

/-- The two ways in which a socket leaves the connector. -/
def Action.releases : Action → Option ℕ
  | .closed sockfd => some sockfd
  | .passed sockfd => some sockfd
  | _ => none

lemma mem_opens {log : List Action} {sockfd : ℕ} :
    sockfd ∈ log.filterMap Action.opens ↔ .opened sockfd ∈ log := by
  rw [List.mem_filterMap]
  constructor
  · rintro ⟨x, hx, hopens⟩
    cases x with
    | opened fd =>
      cases hopens
      exact hx
    | closed fd => cases hopens
    | passed fd => cases hopens
    | stopped => cases hopens
  · exact fun h => ⟨_, h, rfl⟩

lemma count_releases (log : List Action) (sockfd : ℕ) :
    (log.filterMap Action.releases).count sockfd =
      log.count (.closed sockfd) + log.count (.passed sockfd) := by
  induction log with
  | nil => rfl
  | cons x log ih =>
    cases x with
    | opened fd =>
      rw [List.filterMap_cons_none rfl, ih]
      simp
    | closed fd =>
      by_cases hfd : fd = sockfd
      · simp [Action.releases, hfd, ih]
        omega
      · simp [Action.releases, hfd, ih]
    | passed fd =>
      by_cases hfd : fd = sockfd
      · simp [Action.releases, hfd, ih]
        omega
      · simp [Action.releases, hfd, ih]
    | stopped =>
      rw [List.filterMap_cons_none rfl, ih]
      simp

/-- The log of sockets, with those that are neither closed nor passed on. -/
abbrev Ledger (log : List Action) (held : List ℕ) : Prop :=
  Balanced Action.opens Action.releases log held

/-! ### Attempts -/

/-- The channel is known neither to its poller nor to the kernel. -/
def Detached (channel : Channel) : Prop := channel.kernel = none ∧ channel.addedToLoop = false

/-- How the attempt stands, and the sockets that it holds. -/
inductive Attempt (c : Connector) : List ℕ → Prop where
  | connecting (channel : Channel) (hstate : c.state = .kConnecting)
      (hchannel : c.channel = some channel) (htimers : c.timers = [])
      (hreset : c.functors.count .resetChannel = 0) : Attempt c [channel.fd]
  /-- The attempt is over, and its channel is about to be destroyed. -/
  | resetting (channel : Channel) (hstate : c.state ≠ .kConnecting)
      (hchannel : c.channel = some channel) (hdetached : Detached channel)
      (hreset : c.functors.count .resetChannel = 1) : Attempt c []
  | idle (hstate : c.state ≠ .kConnecting) (hchannel : c.channel = none)
      (hreset : c.functors.count .resetChannel = 0) : Attempt c []

variable {held : List ℕ}

lemma Attempt.congr (h : Attempt c held) (hstate : c'.state = c.state)
    (hchannel : c'.channel = c.channel) (htimers : c.timers = [] → c'.timers = [])
    (hreset : c'.functors.count .resetChannel = c.functors.count .resetChannel) :
    Attempt c' held := by
  cases h with
  | connecting channel hs hc ht hr =>
    exact .connecting channel (hstate.trans hs) (hchannel.trans hc) (htimers ht) (hreset.trans hr)
  | resetting channel hs hc hdetached hr =>
    exact .resetting channel (hstate ▸ hs) (hchannel.trans hc) hdetached (hreset.trans hr)
  | idle hs hc hr => exact .idle (hstate ▸ hs) (hchannel.trans hc) (hreset.trans hr)

/-- The attempt whose socket is being connected. -/
lemma Attempt.of_connecting (h : Attempt c held) (hstate : c.state = .kConnecting) :
    ∃ channel, c.channel = some channel ∧ c.timers = [] ∧ c.functors.count .resetChannel = 0 ∧
      held = [channel.fd] := by
  cases h with
  | connecting channel hs hc ht hr => exact ⟨channel, hc, ht, hr, rfl⟩
  | resetting channel hs hc hdetached hr => exact absurd hstate hs
  | idle hs hc hr => exact absurd hstate hs

/-- There is no attempt. -/
lemma Attempt.of_none (h : Attempt c held) (hchannel : c.channel = none) :
    held = [] ∧ c.functors.count .resetChannel = 0 := by
  cases h with
  | connecting channel hs hc ht hr => simp [hchannel] at hc
  | resetting channel hs hc hdetached hr => simp [hchannel] at hc
  | idle hs hc hr => exact ⟨rfl, hr⟩

structure Inv (c : Connector) : Prop where
  attempt : ∃ held, Attempt c held ∧ Ledger c.log held
  fresh : ∀ sockfd ∈ c.log.filterMap Action.opens, sockfd < c.numSockets
  /-- There is at most one retry timer, and a queued `resetChannel` is ahead of it. -/
  timers : ∀ t ∈ c.timers, c.timers = [t] ∧ c.state = .kDisconnected ∧
    .resetChannel ∉ c.functors.drop t.ahead

lemma new_inv : Inv new :=
  ⟨⟨[], .idle (by simp [new]) rfl rfl, .nil _ _⟩, by simp [new], by simp [new]⟩

/-- The connector after `removeAndResetChannel`. -/
def detach (c : Connector) (channel : Channel) : Connector :=
  queueInLoop { c with channel := some channel } .resetChannel

/-- No attempt is under way or has succeeded, and nothing is left of the last one. -/
structure Quiet (c : Connector) : Prop where
  state : c.state = .kDisconnected
  channel : c.channel = none
  timers : c.timers = []

instance (c : Connector) : Decidable c.Quiet :=
  decidable_of_iff (c.state = .kDisconnected ∧ c.channel = none ∧ c.timers = [])
    ⟨fun h => ⟨h.1, h.2.1, h.2.2⟩, fun h => ⟨h.state, h.channel, h.timers⟩⟩

/-- What `startInLoop` can do. -/
inductive Begins (c : Connector) : Connector → Prop where
  | nothing (hconnect : c.connect_ = false) : Begins c c
  | connecting (hconnect : c.connect_ = true) :
      Begins c { c.createNonblockingOrDie.1 with
        state := .kConnecting, channel := some (Channel.new c.numSockets).enableWriting }
  | refused (hconnect : c.connect_ = true) :
      Begins c (c.createNonblockingOrDie.1.retry c.numSockets)
  | impossible (hconnect : c.connect_ = true) :
      Begins c (c.createNonblockingOrDie.1.close c.numSockets)

/-- What `stopInLoop`, `handleWrite` and `handleError` can do. -/
inductive Ends (c : Connector) : Connector → Prop where
  | nothing (hstate : c.state ≠ .kConnecting) : Ends c c
  | fails (channel channel' : Channel) (hstate : c.state = .kConnecting)
      (hchannel : c.channel = some channel) (hdetached : Detached channel') :
      Ends c ((c.detach channel').retry channel.fd)
  | passes (channel channel' : Channel) (hstate : c.state = .kConnecting)
      (hchannel : c.channel = some channel) (hdetached : Detached channel')
      (hconnect : c.connect_ = true) :
      Ends c (newConnectionCallback { c.detach channel' with state := .kConnected } channel.fd)
  | drops (channel channel' : Channel) (hstate : c.state = .kConnecting)
      (hchannel : c.channel = some channel) (hdetached : Detached channel')
      (hconnect : c.connect_ = false) :
      Ends c (close { c.detach channel' with state := .kConnected } channel.fd)

/-- Where there is no attempt, none ends. -/
lemma Ends.eq_of_quiet (he : Ends c c') (hq : c.Quiet) : c' = c := by
  cases he with
  | nothing hstate => rfl
  | fails channel channel' hstate hchannel hdetached => simp [hq.channel] at hchannel
  | passes channel channel' hstate hchannel hdetached hconnect => simp [hq.channel] at hchannel
  | drops channel channel' hstate hchannel hdetached hconnect => simp [hq.channel] at hchannel

/-! ### Both keep the invariant -/

section retry

variable (c) (sockfd : ℕ)

@[simp] lemma retry_state : (c.retry sockfd).state = .kDisconnected := by
  simp only [retry]
  split <;> rfl

@[simp] lemma retry_channel : (c.retry sockfd).channel = c.channel := by
  simp only [retry]
  split <;> rfl

@[simp] lemma retry_functors : (c.retry sockfd).functors = c.functors := by
  simp only [retry]
  split <;> rfl

@[simp] lemma retry_log : (c.retry sockfd).log = c.log ++ [.closed sockfd] := by
  simp only [retry]
  split <;> rfl

@[simp] lemma retry_numSockets : (c.retry sockfd).numSockets = c.numSockets := by
  simp only [retry]
  split <;> rfl

@[simp] lemma retry_connect : (c.retry sockfd).connect_ = c.connect_ := by
  simp only [retry]
  split <;> rfl

/-- The timer that `retry` sets comes after the functors that are queued. -/
lemma retry_timers (h : c.timers = []) (t : RetryTimer) (ht : t ∈ (c.retry sockfd).timers) :
    (c.retry sockfd).timers = [t] ∧ t.ahead = c.functors.length := by
  have htimers : (c.retry sockfd).timers = [] ∨
      (c.retry sockfd).timers = [⟨c.retryDelayMs, c.functors.length⟩] := by
    simp only [retry]
    split
    · simp [runAfter, close, h]
    · exact Or.inl h
  rcases htimers with heq | heq
  · simp [heq] at ht
  · rw [heq, List.mem_singleton] at ht
    exact ⟨heq.trans (by rw [ht]), by rw [ht]⟩

end retry

/-- A socket is opened and closed at once. -/
lemma Inv.gaveUp (h : Inv c) (hchannel : c.channel = none) (hstate' : c'.state = .kDisconnected)
    (hchannel' : c'.channel = none) (hfunctors : c'.functors = c.functors)
    (hnum : c'.numSockets = c.numSockets + 1)
    (hlog : c'.log = c.log ++ [.opened c.numSockets] ++ [.closed c.numSockets])
    (htimers : ∀ t ∈ c'.timers, c'.timers = [t] ∧ t.ahead = c.functors.length) : Inv c' := by
  obtain ⟨held, hattempt, hledger⟩ := h.attempt
  obtain ⟨rfl, hreset⟩ := hattempt.of_none hchannel
  have hnew : c.numSockets ∉ c.log.filterMap Action.opens := fun hin => (h.fresh _ hin).false
  refine ⟨⟨[], .idle (by simp [hstate']) hchannel' (hfunctors ▸ hreset), ?_⟩, ?_, ?_⟩
  · rw [hlog]
    exact (hledger.acquire rfl rfl hnew).release rfl rfl
  · intro sockfd hin
    rw [mem_opens, hlog] at hin
    simp only [List.mem_append, List.mem_singleton, reduceCtorEq, or_false, Action.opened.injEq]
      at hin
    rw [hnum]
    rcases hin with hin | rfl
    · exact (h.fresh sockfd (mem_opens.mpr hin)).trans (Nat.lt_succ_self _)
    · exact Nat.lt_succ_self _
  · intro t ht
    obtain ⟨hone, hahead⟩ := htimers t ht
    refine ⟨hone, hstate', ?_⟩
    rw [hfunctors, hahead, List.drop_length]
    exact List.not_mem_nil

/-- The socket that is being connected leaves the connector. -/
lemma Inv.detached (h : Inv c) {channel channel' : Channel} (hstate : c.state = .kConnecting)
    (hchannel : c.channel = some channel) (hdetached : Detached channel')
    (hstate' : c'.state ≠ .kConnecting) (hchannel' : c'.channel = some channel')
    (hfunctors : c'.functors = c.functors ++ [.resetChannel]) (hnum : c'.numSockets = c.numSockets)
    {x : Action} (hlog : c'.log = c.log ++ [x]) (hopens : x.opens = none)
    (hreleases : x.releases = some channel.fd)
    (htimers : ∀ t ∈ c'.timers, c'.timers = [t] ∧ c'.state = .kDisconnected ∧
      t.ahead = c'.functors.length) : Inv c' := by
  obtain ⟨held, hattempt, hledger⟩ := h.attempt
  obtain ⟨channel₀, hchannel₀, -, hreset, rfl⟩ := hattempt.of_connecting hstate
  rw [hchannel, Option.some.injEq] at hchannel₀
  subst hchannel₀
  refine ⟨⟨[], .resetting channel' hstate' hchannel' hdetached ?_, ?_⟩, ?_, ?_⟩
  · rw [hfunctors, List.count_append, hreset]
    rfl
  · rw [hlog]
    exact hledger.release hopens hreleases
  · intro sockfd hin
    rw [hlog, List.filterMap_append, List.filterMap_cons_none hopens, List.filterMap_nil,
      List.append_nil] at hin
    exact hnum ▸ h.fresh sockfd hin
  · intro t ht
    obtain ⟨hone, hdis, hahead⟩ := htimers t ht
    refine ⟨hone, hdis, ?_⟩
    rw [hahead, List.drop_length]
    exact List.not_mem_nil

theorem Begins.inv (hb : Begins c c') (h : Inv c) (hq : c.Quiet) : Inv c' := by
  cases hb with
  | nothing hconnect => exact h
  | connecting hconnect =>
    obtain ⟨held, hattempt, hledger⟩ := h.attempt
    obtain ⟨rfl, hreset⟩ := hattempt.of_none hq.channel
    have hnew : c.numSockets ∉ c.log.filterMap Action.opens := fun hin => (h.fresh _ hin).false
    refine ⟨⟨_, .connecting _ rfl rfl hq.timers hreset, ?_⟩, ?_, ?_⟩
    · exact hledger.acquire rfl rfl hnew
    · intro sockfd hin
      rw [mem_opens] at hin
      simp only [createNonblockingOrDie, List.mem_append, List.mem_singleton,
        Action.opened.injEq] at hin
      rcases hin with hin | rfl
      · exact (h.fresh sockfd (mem_opens.mpr hin)).trans (Nat.lt_succ_self _)
      · exact Nat.lt_succ_self _
    · simp [createNonblockingOrDie, hq.timers]
  | refused hconnect =>
    refine h.gaveUp hq.channel (by simp) ((retry_channel _ _).trans hq.channel) (by simp; rfl)
      (by simp; rfl) (by simp [createNonblockingOrDie]) ?_
    exact retry_timers _ _ hq.timers
  | impossible hconnect =>
    refine h.gaveUp hq.channel hq.state hq.channel rfl rfl rfl ?_
    simp [createNonblockingOrDie, close, hq.timers]

theorem Ends.inv (he : Ends c c') (h : Inv c) : Inv c' := by
  obtain ⟨held, hattempt, -⟩ := h.attempt
  cases he with
  | nothing hstate => exact h
  | fails channel channel' hstate hchannel hdetached =>
    obtain ⟨-, -, htimers, -⟩ := hattempt.of_connecting hstate
    refine h.detached hstate hchannel hdetached (by simp) (by simp; rfl) (by simp; rfl)
      (by simp; rfl) (retry_log _ _) rfl rfl ?_
    intro t ht
    obtain ⟨hone, hahead⟩ := retry_timers (c.detach channel') channel.fd htimers t ht
    exact ⟨hone, by simp, by simpa using hahead⟩
  | passes channel channel' hstate hchannel hdetached hconnect =>
    obtain ⟨-, -, htimers, -⟩ := hattempt.of_connecting hstate
    refine h.detached (x := .passed channel.fd) hstate hchannel hdetached
      (by simp [newConnectionCallback]) rfl rfl rfl rfl rfl rfl ?_
    simp [newConnectionCallback, detach, queueInLoop, htimers]
  | drops channel channel' hstate hchannel hdetached hconnect =>
    obtain ⟨-, -, htimers, -⟩ := hattempt.of_connecting hstate
    refine h.detached (x := .closed channel.fd) hstate hchannel hdetached
      (by simp [close]) rfl rfl rfl rfl rfl rfl ?_
    simp [close, detach, queueInLoop, htimers]

lemma Begins.functors (hb : Begins c c') : c'.functors = c.functors := by
  cases hb with
  | nothing hconnect => rfl
  | connecting hconnect => rfl
  | refused hconnect => exact retry_functors _ _
  | impossible hconnect => rfl

lemma Begins.state_ne (hb : Begins c c') (hstate : c.state = .kDisconnected) :
    c'.state ≠ .kConnected := by
  cases hb with
  | nothing hconnect => simp [hstate]
  | connecting hconnect => simp
  | refused hconnect => simp
  | impossible hconnect => simp [close, createNonblockingOrDie, hstate]

lemma Ends.count_startInLoop (he : Ends c c') :
    c'.functors.count .startInLoop = c.functors.count .startInLoop := by
  have hdetach (channel : Channel) :
      (c.detach channel).functors.count .startInLoop = c.functors.count .startInLoop := by
    simp [detach, queueInLoop]
  cases he with
  | nothing hstate => rfl
  | fails channel channel' hstate hchannel hdetached =>
    rw [retry_functors]
    exact hdetach channel'
  | passes channel channel' hstate hchannel hdetached hconnect => exact hdetach channel'
  | drops channel channel' hstate hchannel hdetached hconnect => exact hdetach channel'

/-! ### What the member functions do -/

lemma connecting_spec (hchannel : c.channel = none) (sockfd : ℕ) :
    c.connecting sockfd = .ok
      { c with state := .kConnecting, channel := some (Channel.new sockfd).enableWriting } := by
  simp [connecting, hchannel, check, bind, Except.bind, pure, Except.pure]

theorem startInLoop_spec (h : c.Quiet) (savedErrno : Option Errno) :
    Yields (c.startInLoop savedErrno) (Begins c) := by
  simp only [startInLoop, check_of h.state, ok_bind]
  by_cases hconnect : c.connect_ = true
  · rw [if_pos hconnect]
    have hconnecting := connecting_spec (c := c.createNonblockingOrDie.1) h.channel c.numSockets
    simp only [connect]
    split
    · exact ⟨_, hconnecting, .connecting hconnect⟩
    · exact ⟨_, hconnecting, .connecting hconnect⟩
    · exact ⟨_, hconnecting, .connecting hconnect⟩
    · exact ⟨_, hconnecting, .connecting hconnect⟩
    all_goals first | exact ⟨_, rfl, .refused hconnect⟩ | exact ⟨_, rfl, .impossible hconnect⟩
  · rw [if_neg hconnect]
    exact ⟨c, rfl, .nothing (Bool.eq_false_of_not_eq_true hconnect)⟩

/-- `channel_` is detached, and `resetChannel` is queued. -/
lemma removeAndResetChannel_spec {channel : Channel} (hchannel : c.channel = some channel)
    {d : Dispatch} (hd : d.mayRemove = true) :
    ∃ channel', Detached channel' ∧
      c.removeAndResetChannel d = .ok (c.detach channel', channel.fd) := by
  have hindex : channel.disableAll.index ≠ .kNew := Channel.update_index_ne_new _ _
  have hnone := Channel.isNoneEvent_disableAll channel
  have hfd : channel.disableAll.fd = channel.fd := Channel.update_fd _ _
  refine ⟨{ channel.disableAll with
    index := .kNew, kernel := none, addedToLoop := false, kernel_eq := rfl }, ⟨rfl, rfl⟩, ?_⟩
  simp [removeAndResetChannel, hchannel, Channel.remove, check_of, hnone, hd, hindex, hfd, detach,
    pure, Except.pure]

theorem stopInLoop_spec (h : Inv c) : Yields c.stopInLoop (Ends c) := by
  obtain ⟨held, hattempt, -⟩ := h.attempt
  simp only [stopInLoop]
  split
  · rename_i hstate
    obtain ⟨channel, hchannel, -⟩ := hattempt.of_connecting hstate
    obtain ⟨channel', hdetached, heq⟩ := removeAndResetChannel_spec
      (c := { c with state := .kDisconnected }) hchannel (d := .functors) rfl
    rw [heq, ok_bind]
    exact ⟨_, rfl, .fails channel channel' hstate hchannel hdetached⟩
  · rename_i hstate
    exact ⟨c, rfl, .nothing hstate⟩

theorem handleError_spec (h : Inv c) :
    Yields c.handleError fun c' =>
      Ends c c' ∧ (c.state ≠ .kConnected → c'.state ≠ .kConnected) := by
  obtain ⟨held, hattempt, -⟩ := h.attempt
  simp only [handleError]
  split
  · rename_i hstate
    obtain ⟨channel, hchannel, -⟩ := hattempt.of_connecting hstate
    obtain ⟨channel', hdetached, heq⟩ := removeAndResetChannel_spec hchannel (d := .callback) rfl
    rw [heq, ok_bind]
    exact ⟨_, rfl, .fails channel channel' hstate hchannel hdetached, by simp⟩
  · rename_i hstate
    exact ⟨c, rfl, .nothing hstate, id⟩

theorem handleWrite_spec (h : Inv c) (hconnected : c.state ≠ .kConnected) (err : Option Errno)
    (isSelfConnect : Bool) : Yields (c.handleWrite err isSelfConnect) (Ends c) := by
  obtain ⟨held, hattempt, -⟩ := h.attempt
  simp only [handleWrite]
  split
  · rename_i hstate
    obtain ⟨channel, hchannel, -⟩ := hattempt.of_connecting hstate
    obtain ⟨channel', hdetached, heq⟩ := removeAndResetChannel_spec hchannel (d := .callback) rfl
    rw [heq, ok_bind]
    have hfails := Ends.fails channel channel' hstate hchannel hdetached
    split
    · exact ⟨_, rfl, hfails⟩
    · split
      · exact ⟨_, rfl, hfails⟩
      · split
        · rename_i hconnect
          exact ⟨_, rfl, .passes channel channel' hstate hchannel hdetached hconnect⟩
        · rename_i hconnect
          replace hconnect : c.connect_ = false := Bool.eq_false_of_not_eq_true hconnect
          exact ⟨_, rfl, .drops channel channel' hstate hchannel hdetached hconnect⟩
  · rename_i hstate
    have hdisconnected : c.state = .kDisconnected := by
      cases hs : c.state with
      | kDisconnected => rfl
      | kConnecting => exact absurd hs hstate
      | kConnected => exact absurd hs hconnected
    rw [check_of hdisconnected, ok_bind]
    exact ⟨c, rfl, .nothing hstate⟩

/-! ### The queue of the loop -/

lemma queueInLoop_inv (h : Inv c) {f : Functor} (hf : f ≠ .resetChannel) :
    Inv (c.queueInLoop f) := by
  obtain ⟨held, hattempt, hledger⟩ := h.attempt
  refine ⟨⟨held, hattempt.congr rfl rfl id ?_, hledger⟩, h.fresh, ?_⟩
  · simp [queueInLoop, List.count_append, hf]
  · intro t ht
    obtain ⟨hone, hstate, hahead⟩ := h.timers t ht
    refine ⟨hone, hstate, fun hin => ?_⟩
    simp only [queueInLoop, List.drop_append, List.mem_append] at hin
    rcases hin with hin | hin
    · exact hahead hin
    · exact hf (List.mem_singleton.mp (List.mem_of_mem_drop hin)).symm

/-- Taking a functor from the queue keeps a queued `resetChannel` ahead of the timer. -/
lemma takeFunctor_timers (h : Inv c) {f : Functor} {fs : List Functor}
    (hfs : c.functors = f :: fs) :
    ∀ t ∈ (c.takeFunctor fs).timers, (c.takeFunctor fs).timers = [t] ∧
      c.state = .kDisconnected ∧ .resetChannel ∉ fs.drop t.ahead := by
  intro t' ht'
  obtain ⟨t, ht, rfl⟩ := List.mem_map.mp ht'
  obtain ⟨hone, hstate, hahead⟩ := h.timers t ht
  refine ⟨by simp [takeFunctor, hone], hstate, fun hin => hahead ?_⟩
  rw [hfs]
  cases ha : t.ahead with
  | zero =>
    simp only [ha] at hin
    exact List.mem_cons_of_mem f hin
  | succ n =>
    simp only [ha, Nat.add_sub_cancel] at hin
    rwa [List.drop_succ_cons]

lemma takeFunctor_inv (h : Inv c) {f : Functor} {fs : List Functor} (hfs : c.functors = f :: fs)
    (hf : f ≠ .resetChannel) : Inv (c.takeFunctor fs) := by
  obtain ⟨held, hattempt, hledger⟩ := h.attempt
  refine ⟨⟨held, hattempt.congr rfl rfl ?_ ?_, hledger⟩, h.fresh, takeFunctor_timers h hfs⟩
  · intro htimers
    simp [takeFunctor, htimers]
  · simp [takeFunctor, hfs, hf]

/-- `resetChannel` finds the channel of an attempt that is over. -/
theorem resetChannel_spec (h : Inv c) {fs : List Functor} (hfs : c.functors = .resetChannel :: fs) :
    Yields (c.takeFunctor fs).resetChannel fun c' =>
      c' = { c.takeFunctor fs with channel := none } ∧ Inv c' := by
  obtain ⟨held, hattempt, hledger⟩ := h.attempt
  cases hattempt with
  | connecting channel hstate hchannel htimers hreset => simp [hfs] at hreset
  | idle hstate hchannel hreset => simp [hfs] at hreset
  | resetting channel hstate hchannel hdetached hreset =>
    refine ⟨{ c.takeFunctor fs with channel := none }, ?_, rfl, ⟨[], ?_, hledger⟩, h.fresh,
      takeFunctor_timers h hfs⟩
    · have hchannel' : (c.takeFunctor fs).channel = some channel := hchannel
      simp only [resetChannel, hchannel', check_of hdetached.2, ok_bind]
      rfl
    · refine .idle hstate rfl ?_
      simpa [takeFunctor, hfs] using hreset

/-! ### Stores -/

lemma Quiet.connect (h : c.Quiet) (b : Bool) : Quiet { c with connect_ := b } :=
  ⟨h.state, h.channel, h.timers⟩

lemma Inv.connect (h : Inv c) (b : Bool) : Inv { c with connect_ := b } := by
  obtain ⟨held, hattempt, hledger⟩ := h.attempt
  exact ⟨⟨held, hattempt.congr rfl rfl id rfl, hledger⟩, h.fresh, h.timers⟩

lemma Inv.clearConnect (h : Inv c) : Inv c.clearConnect := by
  obtain ⟨held, hattempt, hledger⟩ := h.attempt
  refine ⟨⟨held, hattempt.congr rfl rfl id rfl, hledger.other rfl rfl⟩, ?_, h.timers⟩
  intro sockfd hin
  rw [mem_opens] at hin
  simp only [Connector.clearConnect, List.mem_append, List.mem_singleton, reduceCtorEq,
    or_false] at hin
  exact h.fresh sockfd (mem_opens.mpr hin)

/-- A channel is left only while `resetChannel` is queued. -/
lemma Inv.channel_eq_none (h : Inv c) (hstate : c.state ≠ .kConnecting)
    (hreset : .resetChannel ∉ c.functors) : c.channel = none := by
  obtain ⟨held, hattempt, -⟩ := h.attempt
  cases hattempt with
  | connecting channel hs hc ht hr => exact absurd hs hstate
  | resetting channel hs hc hdetached hr => simp [List.count_eq_zero_of_not_mem hreset] at hr
  | idle hs hc hr => exact hc

/-! ### Open sockets -/

/-- The socket is neither closed nor handed to `newConnectionCallback_`. -/
def IsOpen (c : Connector) (sockfd : ℕ) : Prop :=
  .opened sockfd ∈ c.log ∧ .closed sockfd ∉ c.log ∧ .passed sockfd ∉ c.log

/-- The socket that is being connected. -/
def IsCurrent (c : Connector) (sockfd : ℕ) : Prop :=
  c.state = .kConnecting ∧ ∃ channel ∈ c.channel, channel.fd = sockfd

/-- How often an opened socket has left the connector. -/
lemma Inv.released_once (h : Inv c) {sockfd : ℕ} (hopened : .opened sockfd ∈ c.log) :
    c.log.count (.closed sockfd) + c.log.count (.passed sockfd) = 1 ∨
      c.log.count (.closed sockfd) + c.log.count (.passed sockfd) = 0 ∧ c.IsCurrent sockfd := by
  obtain ⟨held, hattempt, hledger⟩ := h.attempt
  have hone := hledger.count_eq_one (mem_opens.mpr hopened)
  rw [count_releases] at hone
  cases hattempt with
  | connecting channel hstate hchannel htimers hreset =>
    by_cases hfd : channel.fd = sockfd
    · have hheld : [channel.fd].count sockfd = 1 := by simp [hfd]
      exact Or.inr ⟨by omega, hstate, channel, hchannel, hfd⟩
    · have hheld : [channel.fd].count sockfd = 0 := by simp [hfd]
      exact Or.inl (by omega)
  | resetting channel hstate hchannel hdetached hreset => exact Or.inl hone
  | idle hstate hchannel hreset => exact Or.inl hone

/-- The connector closes and passes on only sockets that it has opened. -/
lemma Inv.opened_of_released (h : Inv c) {sockfd : ℕ}
    (hreleased : .passed sockfd ∈ c.log ∨ .closed sockfd ∈ c.log) : .opened sockfd ∈ c.log := by
  obtain ⟨held, -, hledger⟩ := h.attempt
  refine mem_opens.mp (hledger.acquired_of_released ?_)
  rw [List.mem_filterMap]
  rcases hreleased with hpassed | hclosed
  · exact ⟨_, hpassed, rfl⟩
  · exact ⟨_, hclosed, rfl⟩

lemma Inv.isCurrent_of_isOpen (h : Inv c) {sockfd : ℕ} (hopen : c.IsOpen sockfd) :
    c.IsCurrent sockfd := by
  obtain ⟨hopened, hclosed, hpassed⟩ := hopen
  rcases h.released_once hopened with hone | ⟨-, hcurrent⟩
  · rw [List.count_eq_zero_of_not_mem hclosed, List.count_eq_zero_of_not_mem hpassed] at hone
    simp at hone
  · exact hcurrent

lemma IsCurrent.eq {sockfd sockfd' : ℕ} (h : c.IsCurrent sockfd) (h' : c.IsCurrent sockfd') :
    sockfd = sockfd' := by
  obtain ⟨-, channel, hchannel, rfl⟩ := h
  obtain ⟨-, channel', hchannel', rfl⟩ := h'
  rw [Option.mem_unique hchannel hchannel']

end Connector
end Muduo
