import Muduo.Base.Code
import Muduo.Protorpc.RpcChannel

/-!
# The balancer of RPC requests

`BackendSession` and `Balancer` of `protobuf/rpcbalancer/balancer.cc`, for one thread. The session
of `balancer_raw.cc` is the same code as a template: `Carrier` holds what it asks of the type of
messages it is used with, and what is put on a connection is returned.

Connections are numbers. The balancer holds a client's connection by a `weak_ptr`, so whether it
can still be had is an argument.
-/

namespace Muduo

open Machine

/-- The messages of the template, and what `sendTo` makes of them. `wireId` is the id that is read
at the other end. -/
class Carrier (M : Type) (W : outParam Type) where
  id : M → BitVec 64
  setId : M → BitVec 64 → M
  sendTo : M → W
  wireId : W → Option (BitVec 64)
  wireId_sendTo : ∀ m x, wireId (sendTo (setId m x)) = some x

/-- The codec sends the message as it is. -/
instance : Carrier RpcMessage RpcMessage where
  id := RpcMessage.id
  setId m x := { m with id := x }
  sendTo m := m
  wireId m := some m.id
  wireId_sendTo _ _ := rfl

/-- A message that is put on a connection. -/
structure Sent (W : Type) where
  conn : ℕ
  message : W
  deriving DecidableEq, Repr

structure Request where
  origId : BitVec 64
  clientConn : ℕ
  deriving DecidableEq, Repr

structure BackendSession where
  conn : Option ℕ
  nextId : BitVec 64
  outstandings : BitVec 64 → Option Request

/-- What `send` returns, the message and the session as it leaves them, and what it has sent. -/
structure Sending (M W : Type) where
  succeed : Bool
  msg : M
  session : BackendSession
  sent : List (Sent W)

variable {M W : Type} [Carrier M W]

namespace BackendSession

def new : BackendSession := ⟨none, 0, fun _ => none⟩

/-- The session behind a request that is forwarded. -/
def assign (b : BackendSession) (r : Request) : BackendSession :=
  { b with
    nextId := b.nextId + 1
    outstandings := Function.update b.outstandings (b.nextId + 1) (some r) }

def send (b : BackendSession) (msg : M) (clientConn : ℕ) : Code (Sending M W) :=
  match b.conn with
  | some conn => do
    let id := b.nextId + 1
    let r : Request := ⟨Carrier.id msg, clientConn⟩
    check .balancerSend (b.outstandings id = none)
    let msg := Carrier.setId msg id
    return ⟨true, msg, b.assign r, [⟨conn, Carrier.sendTo msg⟩]⟩
  | none => return ⟨false, msg, b, []⟩

def onConnection (b : BackendSession) (conn : ℕ) (connected : Bool) : BackendSession :=
  { b with conn := if connected then some conn else none }

def erase (b : BackendSession) (id : BitVec 64) : BackendSession :=
  { b with outstandings := Function.update b.outstandings id none }

def onRpcMessage (b : BackendSession) (msg : M) (lock : ℕ → Bool) :
    BackendSession × List (Sent W) :=
  match b.outstandings (Carrier.id msg) with
  | some r =>
    (b.erase (Carrier.id msg),
      if lock r.clientConn then
        [⟨r.clientConn, Carrier.sendTo (Carrier.setId msg r.origId)⟩]
      else
        [])
  | none => (b, [])

end BackendSession

structure PerThread where
  current : ℕ
  backends : List BackendSession

namespace PerThread

/-- `initPerThread`, in the `count`-th thread. `main` does not start without a backend. -/
def init (count backends : ℕ) : PerThread where
  current := count % backends
  backends := List.replicate backends .new

/-- The rounds of the loop in `Balancer::onRpcMessage`, `n` of which are left. What is sent comes
with the index of the backend. -/
def forward (t : PerThread) (msg : M) (conn : ℕ) :
    ℕ → Code (PerThread × List (ℕ × Sent W))
  | 0 => return (t, [])
  | n + 1 =>
    match t.backends[t.current]? with
    | some b => do
      let r : Sending M W ← b.send msg conn
      let sent := r.sent.map (t.current, ·)
      let t : PerThread :=
        ⟨(t.current + 1) % t.backends.length, t.backends.set t.current r.session⟩
      if r.succeed then
        return (t, sent)
      else
        let p ← t.forward r.msg conn n
        return (p.1, sent ++ p.2)
    | none => .error (.failed .balancerBackend)

def onRpcMessage (t : PerThread) (msg : M) (conn : ℕ) :
    Code (PerThread × List (ℕ × Sent W)) :=
  t.forward msg conn t.backends.length

end PerThread

/-! ### The loop over the backends -/

namespace BackendSession

variable {b : BackendSession} {c conn : ℕ} {msg : M}

lemma send_connected (hc : b.conn = some c) (hfree : b.outstandings (b.nextId + 1) = none) :
    b.send msg conn = .ok ⟨true, Carrier.setId msg (b.nextId + 1),
      b.assign ⟨Carrier.id msg, conn⟩,
      [⟨c, Carrier.sendTo (Carrier.setId msg (b.nextId + 1))⟩]⟩ := by
  unfold send
  rw [hc]
  dsimp only
  rw [check_of hfree, ok_bind]
  rfl

lemma send_taken (hc : b.conn = some c) (htaken : b.outstandings (b.nextId + 1) ≠ none) :
    b.send msg conn = .error (.failed .balancerSend) := by
  unfold send
  rw [hc]
  dsimp only
  rw [check, if_neg htaken]
  rfl

lemma send_unconnected (hc : b.conn = none) : b.send msg conn = .ok ⟨false, msg, b, []⟩ := by
  unfold send
  rw [hc]
  rfl

lemma outstandings_assign (b : BackendSession) (r : Request) (i : BitVec 64) :
    (b.assign r).outstandings i = if i = b.nextId + 1 then some r else b.outstandings i :=
  Function.update_apply ..

lemma outstandings_erase (b : BackendSession) (id i : BitVec 64) :
    (b.erase id).outstandings i = if i = id then none else b.outstandings i :=
  Function.update_apply ..

end BackendSession

namespace PerThread

variable {t : PerThread} {msg : M} {conn : ℕ}

/-- What becomes of a request: no backend is connected, or one that is gets it. -/
inductive Routed (t : PerThread) (msg : M) (conn : ℕ) : PerThread × List (ℕ × Sent W) → Prop where
  | dropped {current : ℕ} (hnone : ∀ b ∈ t.backends, b.conn = none) :
    Routed t msg conn (⟨current, t.backends⟩, [])
  | forwarded {current j c : ℕ} {b : BackendSession} (hb : t.backends[j]? = some b)
      (hc : b.conn = some c) :
    Routed t msg conn (⟨current, t.backends.set j (b.assign ⟨Carrier.id msg, conn⟩)⟩,
      [(j, ⟨c, Carrier.sendTo (Carrier.setId msg (b.nextId + 1))⟩)])

/-- The rounds visit the backends from `current` on. As long as these are not connected nothing
changes but `current`. -/
lemma forward_spec (hfree : ∀ b ∈ t.backends, b.outstandings (b.nextId + 1) = none)
    (hcurrent : t.current < t.backends.length) (n : ℕ)
    (hvisited : ∀ b ∈ t.backends, b.conn.isSome = true →
      ∃ i < n, t.backends[(t.current + i) % t.backends.length]? = some b) :
    Yields (t.forward msg conn n) fun p =>
      p.1.current < p.1.backends.length ∧ Routed t msg conn p := by
  induction n generalizing t with
  | zero =>
    refine ⟨(t, []), rfl, hcurrent, .dropped fun b hb => ?_⟩
    by_contra hc
    obtain ⟨i, hi, -⟩ := hvisited b hb (Option.isSome_iff_ne_none.mpr hc)
    exact absurd hi (Nat.not_lt_zero i)
  | succ n ih =>
    obtain ⟨b, hb⟩ : ∃ b, t.backends[t.current]? = some b := ⟨_, List.getElem?_eq_getElem hcurrent⟩
    have hnext : (t.current + 1) % t.backends.length < t.backends.length :=
      Nat.mod_lt _ (by omega)
    unfold forward
    rw [hb]
    dsimp only
    match hc : b.conn with
    | some c =>
      rw [BackendSession.send_connected hc (hfree b (List.mem_of_getElem? hb)), ok_bind]
      refine ⟨_, rfl, ?_, .forwarded hb hc⟩
      rwa [List.length_set]
    | none =>
      rw [BackendSession.send_unconnected hc, ok_bind]
      dsimp only
      have hset : t.backends.set t.current b = t.backends := by
        obtain ⟨hlt, rfl⟩ := List.getElem?_eq_some_iff.mp hb
        exact List.set_getElem_self hlt
      rw [hset]
      -- the visit of the first round is not one of the others
      have hvisited' : ∀ b' ∈ t.backends, b'.conn.isSome = true →
          ∃ i < n, t.backends[((t.current + 1) % t.backends.length + i) % t.backends.length]? =
            some b' := by
        intro b' hb' hc'
        obtain ⟨i, hi, hvisit⟩ := hvisited b' hb' hc'
        cases i with
        | zero =>
          rw [Nat.add_zero, Nat.mod_eq_of_lt hcurrent, hb] at hvisit
          cases hvisit
          rw [hc] at hc'
          cases hc'
        | succ i =>
          refine ⟨i, by omega, ?_⟩
          rwa [Nat.mod_add_mod, Nat.add_right_comm, Nat.add_assoc]
      obtain ⟨p, hp, hlt, hrouted⟩ :=
        ih (t := ⟨(t.current + 1) % t.backends.length, t.backends⟩) hfree hnext hvisited'
      refine ⟨p, ?_, hlt, ?_⟩
      · rw [hp, ok_bind]
        rfl
      · cases hrouted with
        | dropped hnone => exact .dropped hnone
        | forwarded hb' hc' => exact .forwarded hb' hc'

/-- As many rounds as there are backends visit all of them. -/
lemma visited {current j len : ℕ} (hcurrent : current < len) (hj : j < len) :
    ∃ i < len, (current + i) % len = j := by
  by_cases hle : current ≤ j
  · refine ⟨j - current, by omega, ?_⟩
    rw [Nat.add_sub_cancel' hle, Nat.mod_eq_of_lt hj]
  · refine ⟨j + len - current, by omega, ?_⟩
    rw [Nat.add_sub_cancel' (by omega), Nat.add_mod_right, Nat.mod_eq_of_lt hj]

lemma onRpcMessage_spec (hfree : ∀ b ∈ t.backends, b.outstandings (b.nextId + 1) = none)
    (hcurrent : t.backends ≠ [] → t.current < t.backends.length) :
    Yields (t.onRpcMessage msg conn) fun p =>
      (p.1.backends ≠ [] → p.1.current < p.1.backends.length) ∧ Routed t msg conn p := by
  by_cases hempty : t.backends = []
  · refine ⟨(t, []), ?_, hcurrent, .dropped ?_⟩
    · rw [onRpcMessage, hempty]
      rfl
    · rw [hempty]
      nofun
  · have hlt := hcurrent hempty
    have hvisited : ∀ b ∈ t.backends, b.conn.isSome = true → ∃ i < t.backends.length,
        t.backends[(t.current + i) % t.backends.length]? = some b := by
      intro b hb _
      obtain ⟨j, hj, rfl⟩ := List.getElem_of_mem hb
      obtain ⟨i, hi, hmod⟩ := visited hlt hj
      exact ⟨i, hi, by rw [hmod, List.getElem?_eq_getElem hj]⟩
    obtain ⟨p, hp, hcurrent', hrouted⟩ : Yields (t.forward msg conn t.backends.length) _ :=
      forward_spec hfree hlt t.backends.length hvisited
    exact ⟨p, hp, fun _ => hcurrent', hrouted⟩

end PerThread

end Muduo
