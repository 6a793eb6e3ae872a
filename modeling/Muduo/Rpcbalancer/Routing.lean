import Muduo.Machine.Counter
import Muduo.Machine.Log
import Muduo.Machine.Memory
import Muduo.Rpcbalancer.RawMessage

/-!
# Answers go back to their callers

One thread of the balancer with its backends and its clients. Connections go up and down on both
sides, requests come from any client under any id, and a backend answers when it likes, under any
id.

A backend is forwarded its requests under the ids `1, 2, 3, …`. As long as these have not come
round, which takes `2 ^ 64` requests to the same backend, an id stands for one request.

## Main results

* `answers_return_to_callers`: where the answers go, and that each request is forwarded once.
* `forwarded_id_reused`: the assertion in `send` fails when the ids come round.
-/

namespace Muduo

open Machine
open ProtobufCodecLite (rpcCodec wire)
open RpcChannel (requestMessage responseMessage)

variable {M W : Type} [Carrier M W]

/-! ### The clients and the backends around a thread -/

/-- A connection of a client. The object outlives the connection for as long as somebody holds
it. -/
inductive Client where
  | absent
  | connected
  | disconnected
  | destroyed
  deriving DecidableEq, Repr

/-- A request, and whether a backend was connected when it came in. -/
structure Arrival (M : Type) where
  conn : ℕ
  msg : M
  available : Bool

/-- The request with this number was sent to a backend. -/
structure Forwarded (W : Type) where
  request : ℕ
  backend : ℕ
  sent : Sent W

/-- A backend's message was sent to a client. -/
structure Answered (M W : Type) where
  backend : ℕ
  msg : M
  sent : Sent W

/-- The backend, and the id that it reads. -/
def Forwarded.key (M : Type) [Carrier M W] (f : Forwarded W) : ℕ × Option (BitVec 64) :=
  (f.backend, Carrier.wireId (M := M) f.sent.message)

/-- The backend, and the id of its message. -/
def Answered.key (a : Answered M W) : ℕ × Option (BitVec 64) := (a.backend, some (Carrier.id a.msg))

structure BalancerSystem (M W : Type) where
  thread : PerThread
  client : ℕ → Client
  requests : List (Arrival M)
  forwarded : List (Forwarded W)
  answered : List (Answered M W)

inductive BalancerEvent (M : Type) where
  | clientUp (conn : ℕ)
  | clientDown (conn : ℕ)
  | clientDestroyed (conn : ℕ)
  | backendUp (backend conn : ℕ)
  | backendDown (backend conn : ℕ)
  | request (conn : ℕ) (msg : M)
  | answer (backend : ℕ) (msg : M)

namespace BalancerSystem

def init (count backends : ℕ) : BalancerSystem M W where
  thread := .init count backends
  client := fun _ => .absent
  requests := []
  forwarded := []
  answered := []

/-- Some backend is connected. -/
def available (s : BalancerSystem M W) : Bool := s.thread.backends.any (·.conn.isSome)

/-- `clientConn.lock()`. -/
def lock (s : BalancerSystem M W) (conn : ℕ) : Bool :=
  s.client conn = .connected ∨ s.client conn = .disconnected

def setBackend (s : BalancerSystem M W) (j : ℕ) (b : BackendSession) : BalancerSystem M W :=
  { s with thread := { s.thread with backends := s.thread.backends.set j b } }

/-- A client's connection goes from one state to the next. -/
def clientChange (s : BalancerSystem M W) (conn : ℕ) (old new : Client) :
    Code (BalancerSystem M W) := do
  require (s.client conn = old)
  return { s with client := Function.update s.client conn new }

def backendChange (s : BalancerSystem M W) (j conn : ℕ) (connected : Bool) :
    Code (BalancerSystem M W) :=
  match s.thread.backends[j]? with
  | some b => return s.setBackend j (b.onConnection conn connected)
  | none => .error .disabled

/-- A request arrives at the balancer. -/
def request (s : BalancerSystem M W) (conn : ℕ) (msg : M) : Code (BalancerSystem M W) := do
  require (s.client conn = .connected)
  let p ← s.thread.onRpcMessage msg conn
  return { s with
    thread := p.1
    requests := s.requests ++ [⟨conn, msg, s.available⟩]
    forwarded := s.forwarded ++ p.2.map fun q => ⟨s.requests.length, q.1, q.2⟩ }

/-- A message of a backend arrives at the balancer. A connection that is down sends nothing. -/
def answer (s : BalancerSystem M W) (j : ℕ) (msg : M) : Code (BalancerSystem M W) :=
  match s.thread.backends[j]? with
  | some b =>
    let p := b.onRpcMessage msg s.lock
    let sent := p.2.filter (s.client ·.conn = .connected)
    return { s.setBackend j p.1 with answered := s.answered ++ sent.map (⟨j, msg, ·⟩) }
  | none => .error .disabled

def step (s : BalancerSystem M W) : BalancerEvent M → Code (BalancerSystem M W)
  | .clientUp conn => s.clientChange conn .absent .connected
  | .clientDown conn => s.clientChange conn .connected .disconnected
  | .clientDestroyed conn => s.clientChange conn .disconnected .destroyed
  | .backendUp j conn => s.backendChange j conn true
  | .backendDown j conn => s.backendChange j conn false
  | .request conn msg => s.request conn msg
  | .answer j msg => s.answer j msg

end BalancerSystem

variable {bs : List BackendSession} {b b' : BackendSession} {rs : List (Arrival M)}
  {fs : List (Forwarded W)} {f : Forwarded W} {as : List (Answered M W)} {j : ℕ}

/-! ### The ids of a backend -/

/-- How many requests a backend has been sent. -/
def sentTo (fs : List (Forwarded W)) (j : ℕ) : ℕ := fs.countP (·.backend = j)

/-- The requests of each backend are numbered from one on. -/
structure Numbered (M : Type) [Carrier M W] (bs : List BackendSession)
    (fs : List (Forwarded W)) : Prop where
  next : ∀ j b, bs[j]? = some b → b.nextId = BitVec.ofNat 64 (sentTo fs j)
  ids : ∀ f ∈ fs, ∃ n < sentTo fs f.backend, (f.key M).2 = some (BitVec.ofNat 64 (n + 1))
  nodup : (fs.map (Forwarded.key M)).Nodup

lemma Numbered.session (h : Numbered M bs fs) (hb : bs[j]? = some b)
    (hnext : b'.nextId = b.nextId) :
    Numbered M (bs.set j b') fs := by
  refine ⟨fun k c hc => ?_, h.ids, h.nodup⟩
  obtain ⟨rfl, rfl⟩ | ⟨-, hc⟩ := eq_or_getElem?_of_set hc
  · rw [hnext, h.next j b hb]
  · exact h.next k c hc

/-- The next id of a backend is new, as long as its ids have not come round. -/
lemma Numbered.fresh (h : Numbered M bs fs) (hb : bs[j]? = some b) (hlt : sentTo fs j < 2 ^ 64) :
    (j, some (b.nextId + 1)) ∉ fs.map (Forwarded.key M) := by
  intro hmem
  obtain ⟨f, hf, hkey⟩ := List.mem_map.mp hmem
  obtain ⟨n, hn, hid⟩ := h.ids f hf
  obtain ⟨hbackend, hnext⟩ := Prod.mk.inj hkey
  rw [hbackend] at hn
  have hid' := hnext.symm.trans hid
  rw [h.next j b hb, ofNat_add_one] at hid'
  have := ofNat_succ_inj hlt (hn.trans hlt) (Option.some.inj hid')
  omega

lemma sentTo_concat (fs : List (Forwarded W)) (f : Forwarded W) (j : ℕ) :
    sentTo (fs ++ [f]) j = sentTo fs j + if f.backend = j then 1 else 0 := by
  simp [sentTo, List.countP_append, List.countP_singleton]

lemma Numbered.forward (h : Numbered M bs fs) (hb : bs[j]? = some b) (hlt : sentTo fs j < 2 ^ 64)
    (hf : f.key M = (j, some (b.nextId + 1))) (r : Request) :
    Numbered M (bs.set j (b.assign r)) (fs ++ [f]) := by
  have hj : f.backend = j := (Prod.mk.inj hf).1
  have hnext : b.nextId + 1 = BitVec.ofNat 64 (sentTo fs j + 1) := by
    rw [h.next j b hb, ofNat_add_one]
  refine ⟨fun k c hc => ?_, fun f' hf' => ?_, ?_⟩
  · rw [sentTo_concat, hj]
    obtain ⟨rfl, rfl⟩ | ⟨hjk, hc⟩ := eq_or_getElem?_of_set hc
    · rw [if_pos rfl]
      exact hnext
    · rw [if_neg hjk]
      exact h.next k c hc
  · rw [sentTo_concat]
    obtain hf' | hf' := List.mem_append.mp hf'
    · obtain ⟨n, hn, hid⟩ := h.ids f' hf'
      exact ⟨n, by omega, hid⟩
    · cases List.mem_singleton.mp hf'
      refine ⟨sentTo fs j, ?_, ?_⟩
      · rw [hj, if_pos rfl]
        omega
      · rw [hf, hnext]
  · exact nodup_map_concat h.nodup (hf ▸ h.fresh hb hlt)

/-! ### One backend for a request -/

/-- What a backend is sent is a request with another id, and each request that came in while a
backend was connected was sent once. -/
structure Dispatched (rs : List (Arrival M)) (fs : List (Forwarded W)) : Prop where
  origin : ∀ f ∈ fs, ∃ r x, rs[f.request]? = some r ∧
    f.sent.message = Carrier.sendTo (Carrier.setId r.msg x)
  count : ∀ k r, rs[k]? = some r →
    fs.countP (·.request = k) = if r.available = true then 1 else 0

lemma Dispatched.lt (h : Dispatched rs fs) (hf : f ∈ fs) : f.request < rs.length := by
  obtain ⟨r, x, hr, -⟩ := h.origin f hf
  exact (List.getElem?_eq_some_iff.mp hr).1

/-- Nothing is known yet of the next request. -/
lemma Dispatched.next (h : Dispatched rs fs) : fs.countP (·.request = rs.length) = 0 := by
  rw [List.countP_eq_zero]
  intro f hf
  rw [decide_eq_true_eq]
  exact (h.lt hf).ne

lemma Dispatched.drop (h : Dispatched rs fs) {r : Arrival M} (hr : r.available = false) :
    Dispatched (rs ++ [r]) fs := by
  refine ⟨fun f hf => ?_, fun k r' hr' => ?_⟩
  · obtain ⟨r', x, hr', hmessage⟩ := h.origin f hf
    exact ⟨r', x, getElem?_concat_eq_some.mpr (.inl hr'), hmessage⟩
  · obtain hr' | ⟨rfl, rfl⟩ := getElem?_concat_eq_some.mp hr'
    · exact h.count k r' hr'
    · rw [h.next, hr]
      rfl

lemma Dispatched.forward (h : Dispatched rs fs) {r : Arrival M} (hr : r.available = true)
    (hrequest : f.request = rs.length) {x : BitVec 64}
    (hmessage : f.sent.message = Carrier.sendTo (Carrier.setId r.msg x)) :
    Dispatched (rs ++ [r]) (fs ++ [f]) := by
  refine ⟨fun f' hf' => ?_, fun k r' hr' => ?_⟩
  · obtain hf' | hf' := List.mem_append.mp hf'
    · obtain ⟨r', x', hr', hmessage'⟩ := h.origin f' hf'
      exact ⟨r', x', getElem?_concat_eq_some.mpr (.inl hr'), hmessage'⟩
    · cases List.mem_singleton.mp hf'
      exact ⟨r, x, getElem?_concat_eq_some.mpr (.inr ⟨hrequest, rfl⟩), hmessage⟩
  · rw [List.countP_append, List.countP_singleton, hrequest]
    obtain hr' | ⟨rfl, rfl⟩ := getElem?_concat_eq_some.mp hr'
    · have hk : rs.length ≠ k := (List.getElem?_eq_some_iff.mp hr').1.ne'
      rw [h.count k r' hr', decide_eq_false hk]
      rfl
    · rw [h.next, hr]
      simp

lemma Dispatched.inj (h : Dispatched rs fs) {f' : Forwarded W} (hf : f ∈ fs) (hf' : f' ∈ fs)
    (heq : f.request = f'.request) : f = f' := by
  obtain ⟨r, -, hr, -⟩ := h.origin f hf
  have hle : (fs.filter (·.request = f.request)).length ≤ 1 := by
    rw [← List.countP_eq_length_filter, h.count _ r hr]
    split <;> omega
  have hmem : f ∈ fs.filter (·.request = f.request) := List.mem_filter.mpr ⟨hf, by simp⟩
  have hmem' : f' ∈ fs.filter (·.request = f.request) := List.mem_filter.mpr ⟨hf', by simp [heq]⟩
  obtain ⟨g, hg⟩ := List.length_eq_one_iff.mp (le_antisymm hle (List.length_pos_of_mem hmem))
  rw [hg, List.mem_singleton] at hmem hmem'
  exact hmem.trans hmem'.symm

/-! ### The callers -/

/-- The request that was forwarded under this key, and so who waits for the answer and under which
id. -/
def Owner (rs : List (Arrival M)) (fs : List (Forwarded W)) (key : ℕ × Option (BitVec 64))
    (q : Request) : Prop :=
  ∃ f ∈ fs, f.key M = key ∧ ∃ r, rs[f.request]? = some r ∧ q = ⟨Carrier.id r.msg, r.conn⟩

/-- `outstandings_` holds the owners of what is not answered, and the answers went to the owners. -/
structure Owed (bs : List BackendSession) (rs : List (Arrival M)) (fs : List (Forwarded W))
    (as : List (Answered M W)) : Prop where
  outstanding : ∀ j b i q, bs[j]? = some b → b.outstandings i = some q →
    (j, some i) ∉ as.map Answered.key ∧ Owner rs fs (j, some i) q
  answered : ∀ a ∈ as, ∃ q, Owner rs fs a.key q ∧
    a.sent = ⟨q.clientConn, Carrier.sendTo (Carrier.setId a.msg q.origId)⟩
  nodup : (as.map Answered.key).Nodup

variable {key : ℕ × Option (BitVec 64)} {q : Request}

lemma Owner.mono (h : Owner rs fs key q) (r : Arrival M) {fs' : List (Forwarded W)}
    (hfs : fs ⊆ fs') : Owner (rs ++ [r]) fs' key q := by
  obtain ⟨f, hf, hkey, r', hr', hq⟩ := h
  exact ⟨f, hfs hf, hkey, r', getElem?_concat_eq_some.mpr (.inl hr'), hq⟩

lemma Owner.mem (h : Owner rs fs key q) : key ∈ fs.map (Forwarded.key M) := by
  obtain ⟨f, hf, hkey, -⟩ := h
  exact List.mem_map.mpr ⟨f, hf, hkey⟩

lemma Owed.grow (h : Owed bs rs fs as) (r : Arrival M) {fs' : List (Forwarded W)}
    (hfs : fs ⊆ fs') : Owed bs (rs ++ [r]) fs' as where
  outstanding := by
    intro j b i q hb hq
    obtain ⟨hnot, howner⟩ := h.outstanding j b i q hb hq
    exact ⟨hnot, howner.mono r hfs⟩
  answered := by
    intro a ha
    obtain ⟨q, howner, hsent⟩ := h.answered a ha
    exact ⟨q, howner.mono r hfs, hsent⟩
  nodup := h.nodup

/-- What a session has in `outstandings_` is owed. -/
lemma Owed.session (h : Owed bs rs fs as)
    (hout : ∀ i q, b.outstandings i = some q →
      (j, some i) ∉ as.map Answered.key ∧ Owner rs fs (j, some i) q) :
    Owed (bs.set j b) rs fs as := by
  refine ⟨fun k c i q hc hq => ?_, h.answered, h.nodup⟩
  obtain ⟨rfl, rfl⟩ | ⟨-, hc⟩ := eq_or_getElem?_of_set hc
  · exact hout i q hq
  · exact h.outstanding k c i q hc hq

lemma Owed.forward (h : Owed bs rs fs as) (hb : bs[j]? = some b)
    (hfresh : (j, some (b.nextId + 1)) ∉ fs.map (Forwarded.key M)) {r : Arrival M}
    (hrequest : f.request = rs.length) (hf : f.key M = (j, some (b.nextId + 1))) :
    Owed (bs.set j (b.assign ⟨Carrier.id r.msg, r.conn⟩)) (rs ++ [r]) (fs ++ [f]) as := by
  have hgrow := h.grow r (List.subset_append_left fs [f])
  refine hgrow.session fun i q hq => ?_
  rw [BackendSession.outstandings_assign] at hq
  split at hq
  · next hi =>
    subst hi
    cases hq
    constructor
    · intro hmem
      obtain ⟨a, ha, hkey⟩ := List.mem_map.mp hmem
      obtain ⟨q, howner, -⟩ := h.answered a ha
      exact hfresh (hkey ▸ howner.mem)
    · exact ⟨f, List.mem_append_right _ (List.mem_singleton_self f), hf, r,
        getElem?_concat_eq_some.mpr (.inr ⟨hrequest, rfl⟩), rfl⟩
  · exact hgrow.outstanding j b i q hb hq

lemma Owed.answer (h : Owed bs rs fs as) {a : Answered M W} (howner : Owner rs fs a.key q)
    (hsent : a.sent = ⟨q.clientConn, Carrier.sendTo (Carrier.setId a.msg q.origId)⟩)
    (hnew : a.key ∉ as.map Answered.key)
    (hout : ∀ b, bs[a.backend]? = some b → b.outstandings (Carrier.id a.msg) = none) :
    Owed bs rs fs (as ++ [a]) where
  outstanding := by
    intro j b i q hb hq
    obtain ⟨hnot, howner⟩ := h.outstanding j b i q hb hq
    refine ⟨?_, howner⟩
    rw [List.map_append, List.map_singleton, List.mem_append, List.mem_singleton]
    rintro (hmem | hkey)
    · exact hnot hmem
    · obtain ⟨rfl, hi⟩ := Prod.mk.inj hkey
      cases hi
      rw [hout b hb] at hq
      cases hq
  answered := by
    intro a' ha'
    obtain ha' | ha' := List.mem_append.mp ha'
    · exact h.answered a' ha'
    · cases List.mem_singleton.mp ha'
      exact ⟨q, howner, hsent⟩
  nodup := nodup_map_concat h.nodup hnew

/-! ### All runs -/

namespace BalancerSystem

variable {s : BalancerSystem M W} {e : BalancerEvent M}

structure Inv (s : BalancerSystem M W) : Prop where
  current : s.thread.backends ≠ [] → s.thread.current < s.thread.backends.length
  numbered : Numbered M s.thread.backends s.forwarded
  dispatched : Dispatched s.requests s.forwarded
  owed : Owed s.thread.backends s.requests s.forwarded s.answered

lemma init_inv (count backends : ℕ) : (init count backends : BalancerSystem M W).Inv where
  current := by
    intro hne
    have hne' : backends ≠ 0 := by simpa [init, PerThread.init] using hne
    rw [init, PerThread.init, List.length_replicate]
    exact Nat.mod_lt _ (Nat.pos_of_ne_zero hne')
  numbered := by
    refine ⟨fun j b hb => ?_, nofun, List.nodup_nil⟩
    rw [List.eq_of_mem_replicate (List.mem_of_getElem? hb)]
    rfl
  dispatched := ⟨nofun, nofun⟩
  owed := by
    refine ⟨fun j b i q hb hq => ?_, nofun, List.nodup_nil⟩
    rw [List.eq_of_mem_replicate (List.mem_of_getElem? hb)] at hq
    cases hq

/-- A session that counts on and owes no more than before may take the place of another. -/
lemma Inv.setBackend (h : s.Inv) {j : ℕ} {b b' : BackendSession}
    (hb : s.thread.backends[j]? = some b) (hnext : b'.nextId = b.nextId)
    (hout : ∀ i q, b'.outstandings i = some q → b.outstandings i = some q) :
    (s.setBackend j b').Inv where
  current := by
    intro hne
    rw [BalancerSystem.setBackend, List.length_set]
    exact h.current fun hnil => hne (by simp [BalancerSystem.setBackend, hnil])
  numbered := h.numbered.session hb hnext
  dispatched := h.dispatched
  owed := h.owed.session fun i q hq => h.owed.outstanding j b i q hb (hout i q hq)

lemma Inv.clientChange (h : s.Inv) (conn : ℕ) (old new : Client) :
    Safe (s.clientChange conn old new) Inv := by
  unfold BalancerSystem.clientChange
  rw [safe_bind, safe_require]
  intro _
  exact ⟨h.current, h.numbered, h.dispatched, h.owed⟩

lemma Inv.backendChange (h : s.Inv) (j conn : ℕ) (connected : Bool) :
    Safe (s.backendChange j conn connected) Inv := by
  unfold BalancerSystem.backendChange
  split
  · next b hb => exact h.setBackend hb rfl fun i q hq => hq
  · trivial

omit [Carrier M W] in
/-- A message for a client reaches its connection or nobody. -/
lemma filter_sent (s : BalancerSystem M W) (q : Request) (message : W) :
    ((if s.lock q.clientConn then [⟨q.clientConn, message⟩] else []).filter fun m : Sent W =>
      s.client m.conn = .connected) = [] ∨
    ((if s.lock q.clientConn then [⟨q.clientConn, message⟩] else []).filter fun m : Sent W =>
      s.client m.conn = .connected) = [⟨q.clientConn, message⟩] := by
  rw [← List.sublist_singleton]
  refine List.filter_sublist.trans ?_
  split
  · exact List.Sublist.refl _
  · exact List.nil_sublist _

lemma Inv.answer (h : s.Inv) (j : ℕ) (msg : M) : Safe (s.answer j msg) Inv := by
  unfold BalancerSystem.answer
  split
  · next b hb =>
    rw [safe_pure, BackendSession.onRpcMessage]
    match hq : b.outstandings (Carrier.id msg) with
    | none =>
      rw [List.filter_nil, List.map_nil, List.append_nil]
      exact h.setBackend hb rfl fun i q hq => hq
    | some q =>
      have hset : (s.setBackend j (b.erase (Carrier.id msg))).Inv := by
        refine h.setBackend hb rfl fun i q hq => ?_
        rw [BackendSession.outstandings_erase] at hq
        split at hq
        · cases hq
        · exact hq
      dsimp only
      -- the client is sent the message or, if its connection is gone, nothing
      obtain hsent | hsent := filter_sent s q
        (Carrier.sendTo (Carrier.setId msg q.origId))
      · rw [hsent, List.map_nil, List.append_nil]
        exact hset
      · rw [hsent]
        obtain ⟨hnew, howner⟩ := h.owed.outstanding j b _ q hb hq
        have herased : ∀ b', (s.setBackend j (b.erase (Carrier.id msg))).thread.backends[j]? =
            some b' → b'.outstandings (Carrier.id msg) = none := by
          intro b' hb'
          obtain ⟨-, rfl⟩ | ⟨hne, -⟩ := eq_or_getElem?_of_set hb'
          · exact (BackendSession.outstandings_erase ..).trans (if_pos rfl)
          · exact absurd rfl hne
        exact ⟨hset.current, hset.numbered, hset.dispatched,
          hset.owed.answer (a := ⟨j, msg, _⟩) howner rfl hnew herased⟩
  · trivial

/-- No backend has used up its ids. -/
def IdsLeft (s : BalancerSystem M W) : Prop :=
  ∀ j < s.thread.backends.length, sentTo s.forwarded j < 2 ^ 64

instance : DecidablePred (IdsLeft (M := M) (W := W)) := fun s =>
  inferInstanceAs (Decidable (∀ j < s.thread.backends.length, sentTo s.forwarded j < 2 ^ 64))

omit [Carrier M W] in
lemma IdsLeft.lt (h : s.IdsLeft) {j : ℕ} {b : BackendSession}
    (hb : s.thread.backends[j]? = some b) : sentTo s.forwarded j < 2 ^ 64 :=
  h j (List.getElem?_eq_some_iff.mp hb).1

/-- The next id of each session is free. -/
lemma Inv.free (h : s.Inv) (hleft : s.IdsLeft) :
    ∀ b ∈ s.thread.backends, b.outstandings (b.nextId + 1) = none := by
  intro b hb
  obtain ⟨j, hj⟩ := List.mem_iff_getElem?.mp hb
  rw [Option.eq_none_iff_forall_ne_some]
  intro q hq
  exact h.numbered.fresh hj (hleft.lt hj) (h.owed.outstanding j b _ q hj hq).2.mem

lemma Inv.request (h : s.Inv) (hleft : s.IdsLeft) (conn : ℕ) (msg : M) :
    Safe (s.request conn msg) Inv := by
  unfold BalancerSystem.request
  rw [safe_bind, safe_require]
  intro _
  obtain ⟨p, hp, hcurrent, hrouted⟩ : Yields (s.thread.onRpcMessage msg conn) _ :=
    PerThread.onRpcMessage_spec (h.free hleft) h.current
  rw [hp, ok_bind, safe_pure]
  cases hrouted with
  | dropped hnone =>
    have havailable : s.available = false := by
      simpa [available] using hnone
    rw [List.map_nil, List.append_nil]
    exact ⟨hcurrent, h.numbered, h.dispatched.drop havailable,
      h.owed.grow _ (List.Subset.refl _)⟩
  | @forwarded current j c b hb hc =>
    have havailable : s.available = true := by
      rw [available, List.any_eq_true]
      exact ⟨b, List.mem_of_getElem? hb, by rw [hc]; rfl⟩
    have hkey : Forwarded.key M (⟨s.requests.length, j,
        ⟨c, Carrier.sendTo (Carrier.setId msg (b.nextId + 1))⟩⟩ : Forwarded W) =
          (j, some (b.nextId + 1)) :=
      congrArg (Prod.mk j) (Carrier.wireId_sendTo msg (b.nextId + 1))
    exact ⟨hcurrent, h.numbered.forward hb (hleft.lt hb) hkey _,
      h.dispatched.forward havailable rfl rfl,
      h.owed.forward (r := ⟨conn, msg, s.available⟩) hb (h.numbered.fresh hb (hleft.lt hb)) rfl
        hkey⟩

lemma Inv.step (h : s.Inv) (hleft : s.IdsLeft) (e : BalancerEvent M) :
    Safe (s.step e) Inv := by
  cases e with
  | clientUp conn => exact h.clientChange conn _ _
  | clientDown conn => exact h.clientChange conn _ _
  | clientDestroyed conn => exact h.clientChange conn _ _
  | backendUp j conn => exact h.backendChange j conn _
  | backendDown j conn => exact h.backendChange j conn _
  | request conn msg => exact h.request hleft conn msg
  | answer j msg => exact h.answer j msg

/-- The answers that clients have got. Each answers one request that was forwarded, went to the
connection that the request came from, and carries its id. -/
lemma Inv.returned (h : s.Inv) {a : Answered M W} (ha : a ∈ s.answered) :
    ∃ f ∈ s.forwarded, f.key M = a.key ∧ (∀ f' ∈ s.forwarded, f'.key M = a.key → f' = f) ∧
      ∃ r, s.requests[f.request]? = some r ∧ a.sent.conn = r.conn ∧
        a.sent.message = Carrier.sendTo (Carrier.setId a.msg (Carrier.id r.msg)) ∧
        Carrier.wireId (M := M) a.sent.message = some (Carrier.id r.msg) := by
  obtain ⟨q, ⟨f, hf, hkey, r, hr, rfl⟩, hsent⟩ := h.owed.answered a ha
  refine ⟨f, hf, hkey, fun f' hf' hkey' => ?_, r, hr, ?_⟩
  · exact List.inj_on_of_nodup_map h.numbered.nodup hf' hf (hkey'.trans hkey.symm)
  · rw [hsent]
    exact ⟨rfl, rfl, Carrier.wireId_sendTo ..⟩

/-- No two answers are answers to the same request. -/
lemma Inv.once (h : s.Inv) : s.answered.Pairwise fun a a' =>
    ∀ f ∈ s.forwarded, ∀ f' ∈ s.forwarded, f.key M = a.key → f'.key M = a'.key →
      f.request ≠ f'.request := by
  have hnodup := List.pairwise_map.mp h.owed.nodup
  refine hnodup.imp fun hne f hf f' hf' hkey hkey' heq => hne ?_
  rw [← hkey, ← hkey', h.dispatched.inj hf hf' heq]

/-- In every run in which no backend has been sent `2 ^ 64` requests before a step, every answer
that is sent to a client goes to the connection whose request was forwarded under the id of the
answer and carries the id of that request, no request is answered twice, and a request is forwarded
once if a backend was connected when it came in, and otherwise not at all. -/
theorem answers_return_to_callers (count backends : ℕ) (es : List (BalancerEvent M))
    (hleft : Along (BalancerSystem.step (W := W)) (fun s _ => s.IdsLeft) (init count backends) es) :
    Safe (run BalancerSystem.step (init count backends : BalancerSystem M W) es) fun s =>
      (∀ a ∈ s.answered, ∃ f ∈ s.forwarded, f.key M = a.key ∧
        (∀ f' ∈ s.forwarded, f'.key M = a.key → f' = f) ∧
        ∃ r, s.requests[f.request]? = some r ∧ a.sent.conn = r.conn ∧
          a.sent.message = Carrier.sendTo (Carrier.setId a.msg (Carrier.id r.msg)) ∧
          Carrier.wireId (M := M) a.sent.message = some (Carrier.id r.msg)) ∧
      (s.answered.Pairwise fun a a' => ∀ f ∈ s.forwarded, ∀ f' ∈ s.forwarded,
        f.key M = a.key → f'.key M = a'.key → f.request ≠ f'.request) ∧
      (∀ f ∈ s.forwarded, ∃ r x, s.requests[f.request]? = some r ∧
        f.sent.message = Carrier.sendTo (Carrier.setId r.msg x)) ∧
      ∀ k r, s.requests[k]? = some r →
        s.forwarded.countP (·.request = k) = if r.available = true then 1 else 0 := by
  have hinv : Safe (run BalancerSystem.step (init count backends : BalancerSystem M W) es) Inv :=
    run_safe (fun s e h hleft => h.step hleft e) (init_inv count backends) hleft
  exact hinv.mono fun s h =>
    ⟨fun a ha => h.returned ha, h.once, h.dispatched.origin, h.dispatched.count⟩

/-- A request with the id 2, in a frame of its own. -/
def rawRequest : RawFrame rpcCodec :=
  have h : RawMessage.parse rpcCodec wire = some ⟨wire, 2, 11⟩ := by decide +kernel
  ⟨⟨wire, 2, 11⟩, (RawMessage.framed_of_parse h (by decide +kernel)).1⟩

/-- An answer with the id 1. -/
def rawAnswer : RawFrame rpcCodec :=
  ⟨⟨RawMessage.sealed rpcCodec [0, 0, 0, 19] 0x02 (leBytes 8 1) [], 1, 11⟩,
    ⟨rfl, _, _, _, _, _, rfl, rfl, .inr rfl, rfl, length_beBytes ..⟩⟩

def echo : MethodDescriptor := ⟨"Echo", "echo"⟩

/-- Two clients use the same id, and one of them writes frames that have to be parsed. The second
backend answers first, and the first one on a later connection. -/
def sameIds : List (BalancerEvent (RawFrame rpcCodec ⊕ RpcMessage)) :=
  [.clientUp 0, .clientUp 1, .request 0 (.inl rawRequest), .backendUp 0 10, .backendUp 1 11,
    .request 0 (.inl rawRequest), .request 1 (.inr (requestMessage 2 echo [])), .backendDown 0 10,
    .answer 1 (.inr (responseMessage 1 [])), .backendUp 0 12, .answer 0 (.inl rawAnswer)]

theorem answers_return_same_ids :
    Yields (run BalancerSystem.step (init 0 2) sameIds) fun s =>
      (s.answered.map fun a =>
        (a.sent.conn, Carrier.wireId (M := RawFrame rpcCodec ⊕ RpcMessage) a.sent.message)) =
          [(1, some 2), (0, some 2)] ∧
      ∀ k r, s.requests[k]? = some r →
        s.forwarded.countP (·.request = k) = if r.available = true then 1 else 0 := by
  have hrun : (fun s => s.answered.map fun a =>
        (a.sent.conn, Carrier.wireId (M := RawFrame rpcCodec ⊕ RpcMessage) a.sent.message)) <$>
      run BalancerSystem.step (init 0 2) sameIds = .ok [(1, some 2), (0, some 2)] := by
    decide +kernel
  obtain ⟨s, hs, hanswered⟩ := map_eq_ok.mp hrun
  obtain ⟨-, -, -, hcount⟩ := (answers_return_to_callers 0 2 sameIds (by decide +kernel)).of_ok hs
  exact ⟨s, hs, hanswered, hcount⟩

/-! ### The ids come round -/

/-- One backend has been sent `n` requests, and the first one still waits for its answer. -/
structure Waits (n : ℕ) (s : BalancerSystem M W) : Prop where
  inv : s.Inv
  client : s.client 0 = .connected
  session : ∃ b, s.thread.backends = [b] ∧ b.conn = some 0 ∧ (0 < n → b.outstandings 1 ≠ none)
  count : sentTo s.forwarded 0 = n

lemma Waits.request {n : ℕ} (h : s.Waits n) (hn : n < 2 ^ 64) (msg : M) :
    Yields (s.step (.request 0 msg)) (Waits (n + 1)) := by
  obtain ⟨b, hbackends, hconn, hout⟩ := h.session
  have hleft : s.IdsLeft := by
    intro j hj
    rw [hbackends, List.length_singleton, Nat.lt_one_iff] at hj
    rwa [hj, h.count]
  have hsafe : Safe (s.step (.request 0 msg)) Inv := h.inv.request hleft 0 msg
  obtain ⟨p, hp, -, hrouted⟩ : Yields (s.thread.onRpcMessage msg 0) _ :=
    PerThread.onRpcMessage_spec (h.inv.free hleft) h.inv.current
  have hstep : s.step (.request 0 msg) = .ok { s with
      thread := p.1
      requests := s.requests ++ [⟨0, msg, s.available⟩]
      forwarded := s.forwarded ++ p.2.map fun q => ⟨s.requests.length, q.1, q.2⟩ } := by
    change s.request 0 msg = _
    rw [BalancerSystem.request, require, if_pos h.client, ok_bind, hp]
    rfl
  have hnext : b.nextId + 1 = BitVec.ofNat 64 (n + 1) := by
    have hb : s.thread.backends[0]? = some b := by rw [hbackends]; rfl
    rw [h.inv.numbered.next 0 b hb, h.count, ofNat_add_one]
  cases hrouted with
  | dropped hnone =>
    have hnone' := hnone b (by rw [hbackends]; exact List.mem_singleton_self b)
    rw [hconn] at hnone'
    cases hnone'
  | @forwarded current j c b' hb' hc' =>
    rw [hbackends] at hb'
    obtain ⟨rfl, rfl⟩ : j = 0 ∧ b = b' := by
      cases j with
      | zero => exact ⟨rfl, Option.some.inj hb'⟩
      | succ j => cases hb'
    refine ⟨_, hstep, hsafe.of_ok hstep, h.client,
      ⟨b.assign ⟨Carrier.id msg, 0⟩, ?_, hconn, fun _ => ?_⟩, ?_⟩
    · change s.thread.backends.set 0 _ = _
      rw [hbackends]
      rfl
    · rw [BackendSession.outstandings_assign, hnext]
      split
      · exact Option.some_ne_none _
      · next hne =>
        refine hout (Nat.pos_of_ne_zero ?_)
        rintro rfl
        exact hne rfl
    · exact (sentTo_concat ..).trans (congrArg (· + 1) h.count)

/-- An answer under another id than the first one. -/
lemma Waits.answer {n : ℕ} (h : s.Waits n) {msg : M} (hid : Carrier.id msg ≠ 1) :
    Yields (s.step (.answer 0 msg)) (Waits n) := by
  obtain ⟨b, hbackends, hconn, hout⟩ := h.session
  have hb : s.thread.backends[0]? = some b := by rw [hbackends]; rfl
  have hsafe : Safe (s.step (.answer 0 msg)) Inv := h.inv.answer 0 msg
  have hstep : s.step (.answer 0 msg) = .ok { s.setBackend 0 (b.onRpcMessage msg s.lock).1 with
      answered := s.answered ++ ((b.onRpcMessage msg s.lock).2.filter
        (s.client ·.conn = .connected)).map (⟨0, msg, ·⟩) } := by
    change s.answer 0 msg = _
    rw [BalancerSystem.answer, hb]
    rfl
  refine ⟨_, hstep, hsafe.of_ok hstep, h.client,
    ⟨(b.onRpcMessage (W := W) msg s.lock).1, ?_, ?_, fun hpos => ?_⟩, h.count⟩
  · change s.thread.backends.set 0 _ = _
    rw [hbackends]
    rfl
  · rw [BackendSession.onRpcMessage]
    split <;> exact hconn
  · rw [BackendSession.onRpcMessage]
    split
    · rw [BackendSession.outstandings_erase, if_neg hid.symm]
      exact hout hpos
    · exact hout hpos

/-- Requests behind the first one, each of which is answered before the next. -/
def answeredRequests (request : M) (answer : BitVec 64 → M) (n : ℕ) : List (BalancerEvent M) :=
  (List.range n).flatMap fun i =>
    [.request 0 request, .answer 0 (answer (BitVec.ofNat 64 (i + 2)))]

lemma Waits.run (h : s.Waits 1) (request : M) {answer : BitVec 64 → M}
    (hid : ∀ i, Carrier.id (answer i) = i) {n : ℕ} (hn : n < 2 ^ 64) :
    Yields (run BalancerSystem.step s (answeredRequests request answer n)) (Waits (n + 1)) := by
  induction n with
  | zero => exact ⟨s, rfl, h⟩
  | succ n ih =>
    obtain ⟨t, ht, hwaits⟩ := ih (by omega)
    obtain ⟨u, hu, hwaits'⟩ := hwaits.request hn request
    have hne : Carrier.id (answer (BitVec.ofNat 64 (n + 2))) ≠ 1 := by
      rw [hid]
      intro heq
      exact absurd (ofNat_succ_inj hn (by norm_num : 0 < 2 ^ 64) heq) n.succ_ne_zero
    obtain ⟨v, hv, hwaits''⟩ := hwaits'.answer hne
    refine ⟨v, ?_, hwaits''⟩
    rw [answeredRequests, List.range_succ, List.flatMap_append, run_append]
    change Machine.run BalancerSystem.step s (answeredRequests request answer n) >>= _ = _
    rw [ht, ok_bind, List.flatMap_singleton, run_cons, hu, ok_bind, run_cons, hv, ok_bind, run_nil]

/-- The id after the last one is that of the first request. -/
lemma Waits.fails {n : ℕ} (h : s.Waits n) (hn : BitVec.ofNat 64 n = 0) (hpos : 0 < n)
    (msg : M) : s.step (.request 0 msg) = .error (.failed .balancerSend) := by
  obtain ⟨b, hbackends, hconn, hout⟩ := h.session
  have hb : s.thread.backends[0]? = some b := by rw [hbackends]; rfl
  have htaken : b.outstandings (b.nextId + 1) ≠ none := by
    rw [h.inv.numbered.next 0 b hb, h.count, hn]
    exact hout hpos
  have hcurrent : s.thread.current = 0 := by
    have hlt := h.inv.current (by simp [hbackends])
    rwa [hbackends, List.length_singleton, Nat.lt_one_iff] at hlt
  change s.request 0 msg = _
  rw [BalancerSystem.request, require, if_pos h.client, ok_bind, PerThread.onRpcMessage, hbackends,
    List.length_singleton, PerThread.forward, hcurrent, hb]
  dsimp only
  rw [BackendSession.send_taken hconn htaken]
  rfl

lemma comes_round (count : ℕ) (request : M) {answer : BitVec 64 → M}
    (hid : ∀ i, Carrier.id (answer i) = i) {n : ℕ} (hn : n < 2 ^ 64)
    (hround : BitVec.ofNat 64 (n + 1) = 0) :
    failure (run BalancerSystem.step (init count 1 : BalancerSystem M W)
      (.clientUp 0 :: .backendUp 0 0 :: .request 0 request ::
        (answeredRequests request answer n ++ [.request 0 request]))) = some .balancerSend := by
  let b : BackendSession := .onConnection .new 0 true
  let s₁ : BalancerSystem M W :=
    { init count 1 with client := Function.update (fun _ => .absent) 0 .connected }
  have hs₁ : (init count 1 : BalancerSystem M W).step (.clientUp 0) = .ok s₁ := rfl
  have hs₂ : s₁.step (.backendUp 0 0) = .ok (s₁.setBackend 0 b) := rfl
  have hinv₁ : s₁.Inv := ((init_inv count 1).clientChange 0 .absent .connected).of_ok hs₁
  have hstart : (s₁.setBackend 0 b).Waits 0 :=
    ⟨(hinv₁.backendChange 0 0 true).of_ok hs₂, rfl, ⟨b, rfl, rfl, nofun⟩, rfl⟩
  obtain ⟨s₃, hs₃, hfirst⟩ := hstart.request (by norm_num) request
  obtain ⟨s, hs, hwaits⟩ := hfirst.run request hid hn
  rw [run_cons, hs₁, ok_bind, run_cons, hs₂, ok_bind, run_cons, hs₃, ok_bind, run_append, hs,
    ok_bind, run_cons, hwaits.fails hround n.succ_pos]
  rfl

/-- A backend answers each request before the next one comes in, except for the first one, which it
does not answer. The assertion in `send` fails at the request that gets the id of that one. -/
theorem forwarded_id_reused :
    ∃ n, failure (run BalancerSystem.step (init 0 1 : BalancerSystem RpcMessage RpcMessage)
      (.clientUp 0 :: .backendUp 0 0 :: .request 0 (requestMessage 7 echo []) ::
        (answeredRequests (requestMessage 7 echo []) (responseMessage · []) n ++
          [.request 0 (requestMessage 7 echo [])]))) = some .balancerSend :=
  ⟨2 ^ 64 - 1, comes_round 0 _ (fun _ => rfl) (by norm_num) (by decide)⟩

end BalancerSystem

end Muduo
