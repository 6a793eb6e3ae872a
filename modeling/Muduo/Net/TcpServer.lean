import Mathlib.Data.List.AList
import Muduo.Base.Code
import Muduo.Machine.Log
import Muduo.Machine.Size
import Muduo.Machine.Text

/-!
# TcpServer

The server accepts connections in its own loop, hands each of them to one of the loops of its thread
pool in turn, and keeps them in a map from names. A connection closes in the loop that owns it, is
taken out of the map in the loop of the server, and is destroyed in its own loop again. The queues
of the loops are first in, first out, as `EventLoop` shows.

`connection_table` is about every interleaving of these steps.
-/

namespace Muduo

open Machine

/-! ### The pool of loops -/

structure EventLoopThreadPool where
  baseLoop : ℕ
  started : Bool
  loops : List ℕ
  next : ℕ
  deriving DecidableEq, Repr

namespace EventLoopThreadPool

def getNextLoop (p : EventLoopThreadPool) : Code (ℕ × EventLoopThreadPool) := do
  check .getNextLoopStarted (p.started = true)
  if p.loops = [] then
    return (p.baseLoop, p)
  else
    match p.loops[p.next]? with
    | none => .error (.failed .loopsOverrun)
    | some loop =>
      return (loop, { p with next := if p.loops.length ≤ p.next + 1 then 0 else p.next + 1 })

/-- The loop whose turn it is after `n` calls. -/
def loopOf (p : EventLoopThreadPool) (n : ℕ) : ℕ := p.loops.getD (n % p.loops.length) p.baseLoop

/-- The pool is started and `getNextLoop` has been called `n` times. -/
structure Turn (n : ℕ) (p : EventLoopThreadPool) : Prop where
  started : p.started = true
  next : p.loops ≠ [] → p.next = n % p.loops.length

lemma Turn.getNextLoop {n : ℕ} {p : EventLoopThreadPool} (h : p.Turn n) :
    Safe p.getNextLoop fun (loop, p') =>
      loop = p.loopOf n ∧ p'.Turn (n + 1) ∧ p'.baseLoop = p.baseLoop ∧ p'.loops = p.loops := by
  rw [EventLoopThreadPool.getNextLoop, safe_bind, safe_check]
  refine ⟨h.started, ?_⟩
  by_cases hl : p.loops = []
  · rw [if_pos hl]
    exact ⟨by simp [loopOf, hl], ⟨h.started, fun h' => absurd hl h'⟩, rfl, rfl⟩
  · have hpos : 0 < p.loops.length := List.length_pos_iff.mpr hl
    have hlt : n % p.loops.length < p.loops.length := Nat.mod_lt n hpos
    rw [if_neg hl, h.next hl, List.getElem?_eq_getElem hlt]
    refine ⟨?_, ⟨h.started, fun _ => ?_⟩, rfl, rfl⟩
    · rw [loopOf, List.getD_eq_getElem?_getD, List.getElem?_eq_getElem hlt, Option.getD_some]
    · -- The index comes round when it reaches the end of the vector.
      show (if _ then _ else _) = (n + 1) % p.loops.length
      rw [← Nat.mod_add_mod]
      split
      · rw [show n % p.loops.length + 1 = p.loops.length by omega, Nat.mod_self]
      · exact (Nat.mod_eq_of_lt (not_le.mp ‹_›)).symm

end EventLoopThreadPool

/-! ### The server -/

namespace TcpServer

/-- A `TcpConnectionPtr`: the object it points to, with the fields the server reads. -/
structure Conn where
  address : ℕ
  loop : ℕ
  name : List UInt8
  sockfd : ℕ
  deriving DecidableEq, Repr

/-- What the server asks a loop to run. -/
inductive Functor where
  | connectEstablished (conn : Conn)
  | removeConnectionInLoop (conn : Conn)
  | connectDestroyed (conn : Conn)
  deriving DecidableEq, Repr

end TcpServer

structure TcpServer where
  ipPort : List UInt8
  name : List UInt8
  threadPool : EventLoopThreadPool
  nextConnId : ℤ
  connections : AList fun _ : List UInt8 => TcpServer.Conn

namespace TcpServer

def loop (s : TcpServer) : ℕ := s.threadPool.baseLoop

/-- The text of the format `-%s#%d`. -/
def idText (ipPort : List UInt8) (id : ℤ) : List UInt8 :=
  ascii "-" ++ ipPort ++ ascii "#" ++ decimalInt id

def connName (s : TcpServer) (id : ℤ) : List UInt8 := s.name ++ snprintf 64 (idText s.ipPort id)

/-- What happens in the loops, in the order it happens. -/
inductive Entry where
  | queued (loop : ℕ) (f : Functor)
  | ran (loop : ℕ) (f : Functor)
  deriving DecidableEq, Repr

structure System where
  server : TcpServer
  /-- The functors that each loop has still to run. -/
  pending : ℕ → List Functor
  accepted : List Conn
  /-- The connections whose close callback has been called. -/
  closed : List Conn
  log : List Entry

/-- A server that has been started and has accepted nothing yet. -/
def start (name ipPort : List UInt8) (baseLoop : ℕ) (loops : List ℕ) : System where
  server :=
    { ipPort := ipPort
      name := name
      threadPool := { baseLoop := baseLoop, started := true, loops := loops, next := 0 }
      nextConnId := 1
      connections := ∅ }
  pending _ := []
  accepted := []
  closed := []
  log := []

namespace System

def queueInLoop (s : System) (loop : ℕ) (f : Functor) : System :=
  { s with
    pending := Function.update s.pending loop (s.pending loop ++ [f])
    log := s.log ++ [.queued loop f] }

/-- `thread` is the loop in whose thread the function is called. -/
def removeConnectionInLoop (s : System) (thread : ℕ) (conn : Conn) : Code System := do
  check .notInLoopThread (thread = s.server.loop)
  let n := if conn.name ∈ s.server.connections then 1 else 0
  check .removeConnectionErase (n = 1)
  let s := { s with server.connections := s.server.connections.erase conn.name }
  return s.queueInLoop conn.loop (.connectDestroyed conn)

/-- The call of a functor. What the connection does in `connectEstablished` and in
`connectDestroyed` is the subject of `TcpConnection`. -/
def call (s : System) (thread : ℕ) (f : Functor) : Code System :=
  let s := { s with log := s.log ++ [.ran thread f] }
  match f with
  | .connectEstablished _ => return s
  | .removeConnectionInLoop conn => s.removeConnectionInLoop thread conn
  | .connectDestroyed _ => return s

def runInLoop (s : System) (thread loop : ℕ) (f : Functor) : Code System :=
  if thread = loop then s.call thread f else return s.queueInLoop loop f

def newConnection (s : System) (sockfd : ℕ) : Code System := do
  let (ioLoop, threadPool) ← s.server.threadPool.getNextLoop
  let connName := s.server.connName s.server.nextConnId
  let conn := { address := s.accepted.length, loop := ioLoop, name := connName, sockfd := sockfd }
  let server :=
    { s.server with
      threadPool := threadPool
      nextConnId := addInt s.server.nextConnId 1
      connections := s.server.connections.insert connName conn }
  let s := { s with server := server, accepted := s.accepted ++ [conn] }
  s.runInLoop s.server.loop ioLoop (.connectEstablished conn)

/-- The close callback of `conn`, which is called in the loop of `conn`. -/
def removeConnection (s : System) (conn : Conn) : Code System :=
  s.runInLoop conn.loop s.server.loop (.removeConnectionInLoop conn)

end System

inductive Event where
  | accept (sockfd : ℕ)
  /-- A loop runs the next of its functors. -/
  | runFunctor (loop : ℕ)
  /-- The connection closes, which it does once. -/
  | close (conn : Conn)
  deriving DecidableEq, Repr

def System.step (s : System) : Event → Code System
  | .accept sockfd => s.newConnection sockfd
  | .runFunctor loop =>
    match s.pending loop with
    | [] => .error .disabled
    | f :: rest => { s with pending := Function.update s.pending loop rest }.call loop f
  | .close conn => do
    require (conn ∈ s.accepted ∧ conn ∉ s.closed)
    { s with closed := s.closed ++ [conn] }.removeConnection conn

/-! ### Names -/

/-- The number of the connection is an `int`, and its text fits the buffer. -/
def IdFits (ipPort : List UInt8) (id : ℕ) : Prop :=
  id < 2 ^ 31 ∧ (idText ipPort id).length < 64

instance (ipPort : List UInt8) (id : ℕ) : Decidable (IdFits ipPort id) :=
  inferInstanceAs (Decidable (_ ∧ _))

lemma connName_inj {s : TcpServer} {id id' : ℕ} (h : IdFits s.ipPort id) (h' : IdFits s.ipPort id')
    (heq : s.connName id = s.connName id') : id = id' := by
  have htext := List.append_cancel_left heq
  rw [snprintf, snprintf, List.take_of_length_le (Nat.le_of_lt_succ h.2),
    List.take_of_length_le (Nat.le_of_lt_succ h'.2)] at htext
  have hdec := List.append_cancel_left htext
  rw [decimalInt_natCast, decimalInt_natCast] at hdec
  rw [← ofDigits_decimal id, hdec, ofDigits_decimal]

/-! ### The invariant -/

/-- `connectEstablished` was queued in the loop of the connection, or was run there. -/
def Established (log : List Entry) (conn : Conn) : Prop :=
  .queued conn.loop (.connectEstablished conn) ∈ log ∨
    .ran conn.loop (.connectEstablished conn) ∈ log

lemma Established.concat {log : List Entry} {conn : Conn} (h : Established log conn) (e : Entry) :
    Established (log ++ [e]) conn :=
  h.imp (List.mem_append_left _) (List.mem_append_left _)

/-- `conn` is the `i`-th connection of the server. -/
def IsConn (server : TcpServer) (i : ℕ) (conn : Conn) : Prop :=
  conn.address = i ∧ conn.loop = server.threadPool.loopOf i ∧
    conn.name = server.connName (i + 1 : ℕ) ∧ IdFits server.ipPort (i + 1)

namespace System

/-- The invariant of the server. A connection that is `due` has been closed, and its removal is
neither queued nor run: the loop is about to do the one or the other. -/
structure Inv (base : ℕ) (loops : List ℕ) (due : Option Conn) (s : System) : Prop where
  baseLoop : s.server.loop = base
  loops : s.server.threadPool.loops = loops
  turn : s.server.threadPool.Turn s.accepted.length
  nextConnId : s.accepted.length + 1 < 2 ^ 31 → s.server.nextConnId = (s.accepted.length + 1 : ℕ)
  accepted : ∀ i conn, s.accepted[i]? = some conn → IsConn s.server i conn
  established : ∀ conn ∈ s.accepted, Established s.log conn
  closed : ∀ conn ∈ s.closed, conn ∈ s.accepted
  closed_nodup : s.closed.Nodup
  table : ∀ name conn, s.server.connections.lookup name = some conn ↔
    conn ∈ s.accepted ∧ conn.name = name ∧ .ran base (.removeConnectionInLoop conn) ∉ s.log
  removal : ∀ conn, (s.pending base).count (.removeConnectionInLoop conn) +
    s.log.count (.ran base (.removeConnectionInLoop conn)) +
      due.toList.count conn = s.closed.count conn
  elsewhere : ∀ loop, loop ≠ base → ∀ conn, .removeConnectionInLoop conn ∉ s.pending loop
  destroyed : ∀ conn, s.log.count (.queued conn.loop (.connectDestroyed conn)) =
    s.log.count (.ran base (.removeConnectionInLoop conn))
  order : ∀ loop conn, AtEach (.queued loop (.connectDestroyed conn))
    (fun pre => loop = conn.loop ∧ Established pre conn) s.log

variable {base : ℕ} {loops : List ℕ} {due : Option Conn} {s : System} {conn : Conn}

lemma inv_start (name ipPort : List UInt8) (base : ℕ) (loops : List ℕ) :
    (start name ipPort base loops).Inv base loops none where
  baseLoop := rfl
  loops := rfl
  turn := ⟨rfl, fun _ => (Nat.zero_mod _).symm⟩
  nextConnId _ := rfl
  accepted i conn h := by simp [start] at h
  established := by simp [start]
  closed := by simp [start]
  closed_nodup := List.nodup_nil
  table name conn := by simp [start]
  removal conn := by simp [start]
  elsewhere := by simp [start]
  destroyed conn := rfl
  order loop conn := atEach_of_notMem (by simp [start])

lemma Inv.name_nodup (h : s.Inv base loops due) : (s.accepted.map Conn.name).Nodup := by
  rw [List.nodup_iff_getElem?_ne_getElem?]
  intro i j hij hj heq
  rw [List.length_map] at hj
  have hi : i < s.accepted.length := hij.trans hj
  simp only [List.getElem?_map, List.getElem?_eq_getElem hi, List.getElem?_eq_getElem hj,
    Option.map_some, Option.some.injEq] at heq
  obtain ⟨-, -, hni, hfi⟩ := h.accepted i _ (List.getElem?_eq_getElem hi)
  obtain ⟨-, -, hnj, hfj⟩ := h.accepted j _ (List.getElem?_eq_getElem hj)
  rw [hni, hnj] at heq
  have := connName_inj hfi hfj heq
  omega

/-! ### One step -/

@[simp] lemma pending_queueInLoop (s : System) (loop : ℕ) (f : Functor) (loop' : ℕ) :
    (s.queueInLoop loop f).pending loop' =
      if loop' = loop then s.pending loop ++ [f] else s.pending loop' := by
  simp [queueInLoop, Function.update_apply]

@[simp] lemma log_queueInLoop (s : System) (loop : ℕ) (f : Functor) :
    (s.queueInLoop loop f).log = s.log ++ [.queued loop f] := rfl

@[simp] lemma server_queueInLoop (s : System) (loop : ℕ) (f : Functor) :
    (s.queueInLoop loop f).server = s.server := rfl

@[simp] lemma accepted_queueInLoop (s : System) (loop : ℕ) (f : Functor) :
    (s.queueInLoop loop f).accepted = s.accepted := rfl

@[simp] lemma closed_queueInLoop (s : System) (loop : ℕ) (f : Functor) :
    (s.queueInLoop loop f).closed = s.closed := rfl

/-- The removal of a connection that is due is queued. -/
lemma Inv.queueRemoval (h : s.Inv base loops (some conn)) :
    (s.queueInLoop base (.removeConnectionInLoop conn)).Inv base loops none :=
  { h with
    established := fun c hc => (h.established c hc).concat _
    table := fun name c => by
      simpa using h.table name c
    removal := fun c => by
      have := h.removal c
      by_cases hc : conn = c
      · simpa [hc, List.count_append, add_right_comm] using this
      · simpa [hc, List.count_append, List.count_cons] using this
    elsewhere := fun loop hl c => by
      simpa [hl] using h.elsewhere loop hl c
    destroyed := fun c => by simpa [List.count_append] using h.destroyed c
    order := fun loop c => (h.order loop c).concat_of_ne (by simp) }

/-- A connection that is due has been accepted, and its removal has not yet run. -/
lemma Inv.of_due (h : s.Inv base loops (some conn)) :
    conn ∈ s.accepted ∧ Entry.ran base (.removeConnectionInLoop conn) ∉ s.log := by
  have hremoval := h.removal conn
  rw [Option.toList_some, List.count_singleton_self] at hremoval
  have hclosed : conn ∈ s.closed := List.count_pos_iff.mp (by omega)
  rw [List.count_eq_one_of_mem h.closed_nodup hclosed] at hremoval
  exact ⟨h.closed conn hclosed, List.count_eq_zero.mp (by omega)⟩

/-- The table without `conn`. -/
lemma Inv.table_erase (h : s.Inv base loops due) (hconn : conn ∈ s.accepted) (name : List UInt8)
    (c : Conn) : (s.server.connections.erase conn.name).lookup name = some c ↔
      c ∈ s.accepted ∧ c.name = name ∧ .ran base (.removeConnectionInLoop c) ∉ s.log ∧
        c ≠ conn := by
  by_cases hn : name = conn.name
  · rw [hn, AList.lookup_erase]
    constructor
    · nofun
    · rintro ⟨hc, hname, -, hne⟩
      exact absurd (List.inj_on_of_nodup_map h.name_nodup hc hconn hname) hne
  · rw [AList.lookup_erase_ne hn, h.table name c]
    constructor
    · rintro ⟨hc, rfl, hno⟩
      exact ⟨hc, rfl, hno, fun heq => hn (by rw [heq])⟩
    · rintro ⟨hc, hname, hno, -⟩
      exact ⟨hc, hname, hno⟩

/-- The removal of a connection that is due is run. -/
lemma Inv.callRemoval (h : s.Inv base loops (some conn)) :
    Safe (s.call base (.removeConnectionInLoop conn)) (Inv base loops none) := by
  obtain ⟨hacc, hran⟩ := h.of_due
  have hlookup : s.server.connections.lookup conn.name = some conn :=
    (h.table conn.name conn).mpr ⟨hacc, rfl, hran⟩
  have hmem : conn.name ∈ s.server.connections :=
    AList.lookup_isSome.mp (by rw [hlookup]; rfl)
  simp only [call, removeConnectionInLoop, safe_bind, safe_check, safe_pure, hmem, if_true]
  refine ⟨h.baseLoop.symm, trivial, ?_⟩
  exact
    { h with
      established := fun c hc => ((h.established c hc).concat _).concat _
      table := fun name c => by
        simp only [server_queueInLoop, accepted_queueInLoop, log_queueInLoop, List.mem_append,
          List.mem_singleton, reduceCtorEq, or_false, Entry.ran.injEq, true_and,
          Functor.removeConnectionInLoop.injEq, not_or]
        exact h.table_erase hacc name c
      removal := fun c => by
        have := h.removal c
        by_cases hc : conn = c
        · subst hc
          by_cases hl : base = conn.loop
          · simpa [List.count_append, ← hl, add_assoc] using this
          · simpa [List.count_append, hl, add_assoc] using this
        · by_cases hl : base = conn.loop
          · simpa [List.count_append, List.count_cons, ← hl, hc] using this
          · simpa [List.count_append, List.count_cons, hl, hc] using this
      elsewhere := fun loop hl c => by
        have := h.elsewhere loop hl c
        by_cases hc : loop = conn.loop
        · simpa [← hc] using this
        · simpa [hc] using this
      destroyed := fun c => by
        have := h.destroyed c
        by_cases hc : conn = c
        · simpa [List.count_append, hc] using this
        · simpa [List.count_append, List.count_cons, hc] using this
      order := fun loop c => by
        have hest := (h.established conn hacc).concat (.ran base (.removeConnectionInLoop conn))
        have horder := (h.order loop c).concat_of_ne
          (show Entry.ran base (.removeConnectionInLoop conn) ≠ _ by simp)
        by_cases hc : loop = conn.loop ∧ c = conn
        · obtain ⟨rfl, rfl⟩ := hc
          exact horder.concat ⟨rfl, hest⟩
        · refine horder.concat_of_ne ?_
          rintro heq
          cases heq
          exact hc ⟨rfl, rfl⟩ }

/-- The functors other than removals leave the table alone. -/
lemma Inv.ran (h : s.Inv base loops due) (thread : ℕ) {f : Functor}
    (hf : ∀ conn, f ≠ .removeConnectionInLoop conn) :
    { s with log := s.log ++ [Entry.ran thread f] }.Inv base loops due :=
  { h with
    established := fun c hc => (h.established c hc).concat _
    table := fun name c => by
      have := (hf c).symm
      simpa [this] using h.table name c
    removal := fun c => by
      simpa [List.count_append, List.count_cons, hf c] using h.removal c
    destroyed := fun c => by
      simpa [List.count_append, List.count_cons, hf c] using h.destroyed c
    order := fun loop c => (h.order loop c).concat_of_ne (by simp) }

lemma Inv.queued (h : s.Inv base loops due) (loop : ℕ) (conn : Conn) :
    (s.queueInLoop loop (.connectEstablished conn)).Inv base loops due :=
  { h with
    established := fun c hc => (h.established c hc).concat _
    table := fun name c => by simpa using h.table name c
    removal := fun c => by
      by_cases hl : base = loop
      · simpa [hl, List.count_append] using h.removal c
      · simpa [hl, List.count_append] using h.removal c
    elsewhere := fun loop' hl c => by
      by_cases hloop : loop' = loop
      · simpa [hloop] using h.elsewhere loop' hl c
      · simpa [hloop] using h.elsewhere loop' hl c
    destroyed := fun c => by simpa [List.count_append] using h.destroyed c
    order := fun loop c => (h.order loop c).concat_of_ne (by simp) }

/-- The next connection has a name of its own, and its removal has not run. -/
lemma Inv.of_next (h : s.Inv base loops none) (hconn : IsConn s.server s.accepted.length conn) :
    (∀ c ∈ s.accepted, c.name ≠ conn.name) ∧
      Entry.ran base (.removeConnectionInLoop conn) ∉ s.log := by
  constructor
  · intro c hmem heq
    obtain ⟨i, hi, rfl⟩ := List.mem_iff_getElem.mp hmem
    obtain ⟨-, -, hn, hf⟩ := h.accepted i _ (List.getElem?_eq_getElem hi)
    rw [hn, hconn.2.2.1] at heq
    have := connName_inj hf hconn.2.2.2 heq
    omega
  · have hnew : conn ∉ s.accepted := by
      intro hmem
      obtain ⟨i, hi, heq⟩ := List.mem_iff_getElem.mp hmem
      have := (h.accepted i conn (heq ▸ List.getElem?_eq_getElem hi)).1
      rw [hconn.1] at this
      omega
    have hremoval := h.removal conn
    rw [List.count_eq_zero.mpr (mt (h.closed conn) hnew)] at hremoval
    exact List.count_eq_zero.mp (by omega)

/-- The table with the next connection. -/
lemma Inv.table_insert (h : s.Inv base loops none)
    (hconn : IsConn s.server s.accepted.length conn) (name : List UInt8) (c : Conn) :
    (s.server.connections.insert conn.name conn).lookup name = some c ↔
      c ∈ s.accepted ++ [conn] ∧ c.name = name ∧
        .ran base (.removeConnectionInLoop c) ∉ s.log := by
  obtain ⟨hname, hran⟩ := h.of_next hconn
  by_cases hn : name = conn.name
  · rw [hn, AList.lookup_insert]
    constructor
    · rintro ⟨rfl⟩
      exact ⟨List.mem_append_right _ (List.mem_singleton_self _), rfl, hran⟩
    · rintro ⟨hc, heq, -⟩
      rcases List.mem_append.mp hc with hc | hc
      · exact absurd heq (hname c hc)
      · rw [List.mem_singleton.mp hc]
  · rw [AList.lookup_insert_ne hn, h.table name c, List.mem_append, List.mem_singleton]
    constructor
    · exact fun ⟨hc, hrest⟩ => ⟨.inl hc, hrest⟩
    · rintro ⟨hc | rfl, heq, hno⟩
      · exact ⟨hc, heq, hno⟩
      · exact absurd heq.symm hn

/-- The next connection enters the table, after its `connectEstablished` has been seen to. -/
lemma Inv.accept (h : s.Inv base loops none) {threadPool : EventLoopThreadPool}
    (hpool : threadPool.Turn (s.accepted.length + 1))
    (hbase : threadPool.baseLoop = s.server.threadPool.baseLoop)
    (hloops : threadPool.loops = s.server.threadPool.loops)
    (hconn : IsConn s.server s.accepted.length conn) (hest : Established s.log conn) :
    { s with
      server :=
        { s.server with
          threadPool := threadPool
          nextConnId := addInt (s.accepted.length + 1 : ℕ) 1
          connections := s.server.connections.insert conn.name conn }
      accepted := s.accepted ++ [conn] }.Inv base loops none := by
  have hloopOf : ∀ i, threadPool.loopOf i = s.server.threadPool.loopOf i := by
    intro i
    rw [EventLoopThreadPool.loopOf, hbase, hloops]
    rfl
  exact
    { h with
      baseLoop := hbase.trans h.baseLoop
      loops := hloops.trans h.loops
      turn := by simpa using hpool
      nextConnId := fun hlt => by
        simp only [List.length_append, List.length_singleton] at hlt ⊢
        exact addInt_eq (by omega) (by exact_mod_cast hlt)
      accepted := fun i c hc => by
        rcases getElem?_concat_eq_some.mp hc with hc | ⟨rfl, rfl⟩
        · obtain ⟨ha, hl, hrest⟩ := h.accepted i c hc
          exact ⟨ha, hl.trans (hloopOf i).symm, hrest⟩
        · exact ⟨hconn.1, hconn.2.1.trans (hloopOf _).symm, hconn.2.2⟩
      established := fun c hc => by
        rcases List.mem_append.mp hc with hc | hc
        · exact h.established c hc
        · rwa [List.mem_singleton.mp hc]
      closed := fun c hc => List.mem_append_left _ (h.closed c hc)
      table := h.table_insert hconn }

lemma Inv.newConnection (h : s.Inv base loops none) (sockfd : ℕ)
    (hfits : IdFits s.server.ipPort (s.accepted.length + 1)) :
    Safe (s.newConnection sockfd) (Inv base loops none) := by
  rw [System.newConnection, safe_bind]
  refine h.turn.getNextLoop.mono ?_
  rintro ⟨ioLoop, threadPool⟩ ⟨hloop, hpool, hbase, hloops⟩
  rw [h.nextConnId hfits.1]
  obtain ⟨conn, hc⟩ : ∃ conn : Conn, conn =
      { address := s.accepted.length, loop := ioLoop
        name := s.server.connName (s.accepted.length + 1 : ℕ), sockfd := sockfd } := ⟨_, rfl⟩
  have hconn : IsConn s.server s.accepted.length conn := by
    rw [hc]
    exact ⟨rfl, hloop, rfl, hfits⟩
  have hname : s.server.connName (s.accepted.length + 1 : ℕ) = conn.name := by rw [hc]
  have hcl : ioLoop = conn.loop := by rw [hc]
  dsimp only
  rw [← hc, hname, runInLoop]
  split
  · rename_i hl
    refine (h.ran (f := .connectEstablished conn) _ (by simp)).accept hpool hbase hloops hconn
      (.inr ?_)
    rw [← hcl, ← hl]
    exact List.mem_append_right _ (List.mem_singleton_self _)
  · refine (h.queued ioLoop conn).accept hpool hbase hloops hconn (.inl ?_)
    rw [← hcl]
    exact List.mem_append_right _ (List.mem_singleton_self _)

lemma Inv.pop (h : s.Inv base loops none) {loop : ℕ} {f : Functor} {rest : List Functor}
    (hp : s.pending loop = f :: rest) (hf : ∀ conn, f ≠ .removeConnectionInLoop conn) :
    { s with pending := Function.update s.pending loop rest }.Inv base loops none :=
  { h with
    removal := fun c => by
      have := h.removal c
      by_cases hl : base = loop
      · simpa [hl, hp, List.count_cons, hf c] using this
      · simpa [hl] using this
    elsewhere := fun loop' hl c => by
      have := h.elsewhere loop' hl c
      by_cases hl' : loop' = loop
      · subst hl'
        rw [hp] at this
        simpa using List.not_mem_of_not_mem_cons this
      · simpa [hl'] using this }

/-- A removal that is taken out of its queue is due. -/
lemma Inv.popRemoval (h : s.Inv base loops none) {rest : List Functor}
    (hp : s.pending base = .removeConnectionInLoop conn :: rest) :
    { s with pending := Function.update s.pending base rest }.Inv base loops (some conn) :=
  { h with
    removal := fun c => by
      have := h.removal c
      rw [hp] at this
      by_cases hc : conn = c
      · simpa [hc, add_right_comm] using this
      · simpa [hc, List.count_cons] using this
    elsewhere := fun loop hl c => by simpa [hl] using h.elsewhere loop hl c }

/-- So is that of a connection whose close callback is called. -/
lemma Inv.close (h : s.Inv base loops none) (hacc : conn ∈ s.accepted) (hnew : conn ∉ s.closed) :
    { s with closed := s.closed ++ [conn] }.Inv base loops (some conn) :=
  { h with
    closed := fun c hc => by
      rcases List.mem_append.mp hc with hc | hc
      · exact h.closed c hc
      · rwa [List.mem_singleton.mp hc]
    closed_nodup := List.concat_eq_append ▸ h.closed_nodup.concat hnew
    removal := fun c => by
      simp only [Option.toList_some, List.count_append, ← h.removal c, Option.toList_none,
        List.count_nil, add_zero] }

/-- The connection that is accepted next can be named. -/
def Fits (s : System) : Event → Prop
  | .accept _ => IdFits s.server.ipPort (s.accepted.length + 1)
  | _ => True

instance (s : System) : ∀ e, Decidable (s.Fits e)
  | .accept _ => inferInstanceAs (Decidable (IdFits ..))
  | .runFunctor _ => inferInstanceAs (Decidable True)
  | .close _ => inferInstanceAs (Decidable True)

lemma Inv.step (h : s.Inv base loops none) {e : Event} (hfits : s.Fits e) :
    Safe (s.step e) (Inv base loops none) := by
  cases e with
  | accept sockfd => exact h.newConnection sockfd hfits
  | runFunctor loop =>
    rw [System.step]
    split
    · trivial
    · rename_i f rest hp
      cases f with
      | connectEstablished c => exact (h.pop hp (by simp)).ran loop (by simp)
      | connectDestroyed c => exact (h.pop hp (by simp)).ran loop (by simp)
      | removeConnectionInLoop c =>
        have hl : loop = base := by
          by_contra hl
          exact h.elsewhere loop hl c (hp ▸ List.mem_cons_self ..)
        subst hl
        exact (h.popRemoval hp).callRemoval
  | close conn =>
    rw [System.step, safe_bind, safe_require]
    rintro ⟨hacc, hnew⟩
    have hdue := h.close hacc hnew
    rw [removeConnection, runInLoop, hdue.baseLoop]
    split
    · rename_i hl
      rw [hl]
      exact hdue.callRemoval
    · exact hdue.queueRemoval

/-- However the loops interleave, the names of the connections are different, the table holds the
connections that have been accepted and not removed, each removal finds its entry, and a connection
that has been closed either has its removal queued or has its `connectDestroyed` queued, once, in
the loop it was given to in turn and behind its `connectEstablished`. -/
theorem connection_table (name ipPort : List UInt8) (baseLoop : ℕ) (loops : List ℕ)
    (es : List Event) (h : Along System.step Fits (start name ipPort baseLoop loops) es) :
    Safe (run System.step (start name ipPort baseLoop loops) es) fun s =>
      (s.accepted.map Conn.name).Nodup ∧
      (∀ i conn, s.accepted[i]? = some conn →
        conn.loop = loops.getD (i % loops.length) baseLoop) ∧
      (∀ name conn, s.server.connections.lookup name = some conn ↔
        conn ∈ s.accepted ∧ conn.name = name ∧
          .ran baseLoop (.removeConnectionInLoop conn) ∉ s.log) ∧
      (∀ conn, s.log.count (.queued conn.loop (.connectDestroyed conn)) =
        s.log.count (.ran baseLoop (.removeConnectionInLoop conn))) ∧
      (∀ conn, (s.pending baseLoop).count (.removeConnectionInLoop conn) +
        s.log.count (.queued conn.loop (.connectDestroyed conn)) =
          if conn ∈ s.closed then 1 else 0) ∧
      ∀ loop conn, AtEach (.queued loop (.connectDestroyed conn))
        (fun pre => loop = conn.loop ∧ Established pre conn) s.log := by
  have hinv := run_safe (fun s e (hs : Inv baseLoop loops none s) => hs.step)
    (inv_start name ipPort baseLoop loops) h
  refine hinv.mono fun s hs =>
    ⟨hs.name_nodup, fun i conn hc => ?_, hs.table, hs.destroyed, fun conn => ?_, hs.order⟩
  · rw [(hs.accepted i conn hc).2.1, EventLoopThreadPool.loopOf, hs.loops]
    congr 1
    exact hs.baseLoop
  · have := hs.removal conn
    rw [← hs.destroyed conn, Option.toList_none, List.count_nil, add_zero] at this
    rw [this, hs.closed_nodup.count]

/-- Two connections to a server with two loops. The first one closes. -/
def closeFirst : List Event :=
  [.accept 7, .accept 8, .runFunctor 1,
    .close { address := 0, loop := 1, name := ascii "echo-0.0.0.0:7#1", sockfd := 7 },
    .runFunctor 0, .runFunctor 1]

theorem connection_table_closeFirst :
    (run System.step (start (ascii "echo") (ascii "0.0.0.0:7") 0 [1, 2]) closeFirst).isOk = true ∧
      Safe (run System.step (start (ascii "echo") (ascii "0.0.0.0:7") 0 [1, 2]) closeFirst)
        fun s => (s.accepted.map Conn.name).Nodup :=
  ⟨by decide +kernel,
    (connection_table _ _ _ _ closeFirst (by decide +kernel)).mono fun _ h => h.1⟩

end System
end TcpServer
end Muduo
