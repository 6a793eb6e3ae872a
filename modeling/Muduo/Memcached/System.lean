import Muduo.Memcached.Rounds

/-!
# Any number of sessions over one store

`MemcacheServer` keeps a session for each connection, under its name. A step of the system is a
connection that comes up or goes down, a chunk that is read from one, or a round of the loop of one
session's `onMessage`. A round makes one call that changes the store at most, so the rounds of
different sessions are what their threads interleave.

## Main results

* `run_receive_rounds`: `onMessage` on a chunk is a run of such rounds.
* `step_holds`: what every round keeps of the store and of its session holds of all of them.
-/

namespace Muduo.Memcached

open Machine Item

variable {ι : Type} [DecidableEq ι]

/-- The store, and the session and the unread bytes of each connection. -/
structure System (ι : Type) where
  server : MemcacheServer
  sessions : ι → Option (Session × List UInt8)

inductive Event (ι : Type) where
  | connect (name : ι)
  | disconnect (name : ι)
  | arrive (name : ι) (chunk : List UInt8)
  | round (name : ι)

namespace System

/-- The server before its first connection. -/
def new (startTime : ℤ) : System ι := ⟨⟨startTime, fun _ => .empty, 0, 0⟩, fun _ => none⟩

def set (sys : System ι) (name : ι) (p : Option (Session × List UInt8)) : System ι :=
  { sys with sessions := Function.update sys.sessions name p }

/-- `onConnection` when a connection comes up or goes down, and the two parts of a call of
`onMessage`. The field `owner` of a session stands for the store at the time of its round. -/
def step (hash : List UInt8 → ℕ) (sys : System ι) : Event ι → Code (System ι)
  | .connect name => do
    let s ← makeSession sys.server
    check .sessionNew ((sys.sessions name).isNone = true)
    return sys.set name (some (s, []))
  | .disconnect name => do
    check .sessionKnown ((sys.sessions name).isSome = true)
    return sys.set name none
  | .arrive name chunk =>
    match sys.sessions name with
    | none => .error .disabled
    | some (s, buf) => return sys.set name (some (s, buf ++ chunk))
  | .round name =>
    match sys.sessions name with
    | none => .error .disabled
    | some (s, buf) => do
      let r ← Session.round hash ({ s with owner := sys.server }, buf)
      return { sys.set name (some r.state) with server := r.state.1.owner }

variable {hash : List UInt8 → ℕ} {sys sys' : System ι} {name : ι} {s : Session} {buf : List UInt8}

/-- The next step is a round of the session `s`, which finds the store as it is, on the unread bytes
`buf`. -/
def Takes (sys : System ι) (e : Event ι) (s : Session) (buf : List UInt8) : Prop :=
  ∃ name s₀, e = .round name ∧ sys.sessions name = some (s₀, buf) ∧
    s = { s₀ with owner := sys.server }

lemma step_round (hsession : sys.sessions name = some (s, buf)) :
    step hash sys (.round name) = do
      let r ← Session.round hash ({ s with owner := sys.server }, buf)
      return { sys.set name (some r.state) with server := r.state.1.owner } := by
  unfold step
  dsimp only
  rw [hsession]

/-- A round that comes to its end is a step of the system. -/
lemma Takes.step {e : Event ι} {r : Round (Session × List UInt8)} (h : sys.Takes e s buf)
    (hr : Session.round hash (s, buf) = .ok r) : ∃ name, e = .round name ∧
      step hash sys e = .ok { sys.set name (some r.state) with server := r.state.1.owner } := by
  obtain ⟨name, s₀, rfl, hsession, rfl⟩ := h
  refine ⟨name, rfl, ?_⟩
  rw [step_round hsession, hr]
  rfl

/-- The rounds of `onMessage`. -/
lemma run_rounds {s' : Session} {buf' : List UInt8} (hsession : sys.sessions name = some (s, buf))
    (h : Session.onMessage hash { s with owner := sys.server } buf = .ok (s', buf')) :
    ∃ n, run (step hash) sys (List.replicate n (.round name)) =
      .ok { sys.set name (some (s', buf')) with server := s'.owner } := by
  -- by induction on what the rounds take from the unread bytes
  induction hn : Session.measure ({ s with owner := sys.server }, buf) using Nat.strong_induction_on
    generalizing sys s buf with
  | _ n ih =>
    rw [Session.onMessage_eq, bind_eq_ok] at h
    obtain ⟨r, hr, h⟩ := h
    cases r with
    | stop q =>
      cases h
      refine ⟨1, ?_⟩
      change step hash sys (.round name) >>= _ = _
      rw [step_round hsession, hr]
      rfl
    | again q =>
      have hlt := Session.measure_lt _ _ hr
      have hq : (System.mk q.1.owner (Function.update sys.sessions name (some q))).sessions name =
        some (q.1, q.2) := Function.update_self ..
      obtain ⟨n, hrun⟩ := ih _ (hn ▸ hlt) hq h rfl
      refine ⟨n + 1, ?_⟩
      rw [List.replicate_succ, run_cons, step_round hsession, hr]
      refine hrun.trans ?_
      simp [set]

/-- A chunk that is read from a connection, and the rounds of `onMessage` on it. -/
theorem run_receive_rounds {s' : Session} {buf' chunk : List UInt8}
    (hsession : sys.sessions name = some (s, buf))
    (h : Session.receive hash ({ s with owner := sys.server }, buf) chunk = .ok (s', buf')) :
    ∃ n, run (step hash) sys (.arrive name chunk :: List.replicate n (.round name)) =
      .ok { sys.set name (some (s', buf')) with server := s'.owner } := by
  have hset : (sys.set name (some (s, buf ++ chunk))).sessions name = some (s, buf ++ chunk) :=
    Function.update_self ..
  obtain ⟨n, hrun⟩ := run_rounds hset h
  refine ⟨n, ?_⟩
  have harrive : step hash sys (.arrive name chunk) =
      .ok (sys.set name (some (s, buf ++ chunk))) := by
    unfold step
    dsimp only
    rw [hsession]
    rfl
  rw [run_cons, harrive, ok_bind, hrun]
  simp [set]

/-- The first connection, and all that it sends. -/
lemma run_first {startTime : ℤ} {s' : Session} {buf' stream : List UInt8}
    (hs : makeSession (new startTime : System ι).server = .ok s)
    (h : s.onMessage hash stream = .ok (s', buf')) :
    ∃ n, run (step hash) (new startTime)
        (.connect name :: .arrive name stream :: List.replicate n (.round name)) =
      .ok { (new startTime : System ι).set name (some (s', buf')) with server := s'.owner } := by
  obtain ⟨s₀, hs₀, howner, -⟩ := Session.makeSession_spec (new startTime : System ι).server
  cases hs₀.symm.trans hs
  have hconnect : step hash (new startTime) (.connect name) =
      .ok ((new startTime).set name (some (s, []))) := by
    simp only [step, hs]
    rfl
  have hset : ((new startTime).set name (some (s, [])) : System ι).sessions name = some (s, []) :=
    Function.update_self ..
  have hreceive : Session.receive hash ({ s with owner := (new startTime : System ι).server }, [])
      stream = .ok (s', buf') := by
    rw [← howner]
    exact h
  obtain ⟨n, hrun⟩ : ∃ n, run (step hash) ((new startTime).set name (some (s, [])))
      (.arrive name stream :: List.replicate n (.round name)) = .ok _ :=
    run_receive_rounds hset hreceive
  refine ⟨n, ?_⟩
  rw [run_cons, hconnect, ok_bind, hrun]
  simp [set]

/-! ### Invariants -/

/-- `P` holds of the store, and `Q` of every session. -/
structure Holds (hash : List UInt8 → ℕ) (P : MemcacheServer → Prop) (Q : Session → Prop)
    (sys : System ι) : Prop where
  server : P sys.server
  sessions : ∀ name s buf, sys.sessions name = some (s, buf) → s.Inv hash False ∧ Q s

section

variable {P : MemcacheServer → Prop} {Q : Session → Prop} {C : Session → List UInt8 → Prop}
  {e : Event ι}

omit [DecidableEq ι] in
lemma Holds.new {startTime : ℤ} (h : P ⟨startTime, fun _ => .empty, 0, 0⟩) :
    (System.new startTime : System ι).Holds hash P Q :=
  ⟨h, fun _ _ _ hs => absurd hs.symm (Option.some_ne_none _)⟩

lemma Holds.set (h : sys.Holds hash P Q) {p : Option (Session × List UInt8)}
    (hp : ∀ s buf, p = some (s, buf) → s.Inv hash False ∧ Q s) :
    (sys.set name p).Holds hash P Q := by
  refine ⟨h.server, fun name' s buf hs => ?_⟩
  unfold System.set at hs
  dsimp only at hs
  by_cases hname : name' = name
  · rw [hname, Function.update_self] at hs
    exact hp s buf hs
  · rw [Function.update_of_ne hname] at hs
    exact h.sessions name' s buf hs

omit [DecidableEq ι] in
/-- What a session finds at the start of its round. -/
lemma Holds.takes (h : sys.Holds hash P Q) (hQ : ∀ s owner, Q s → Q { s with owner })
    (htakes : sys.Takes e s buf) : P s.owner ∧ s.Inv hash False ∧ Q s := by
  obtain ⟨name, s₀, rfl, hsession, rfl⟩ := htakes
  obtain ⟨hinv, hq⟩ := h.sessions name s₀ buf hsession
  exact ⟨h.server, ⟨⟨nofun, hinv.rest.needle⟩, hinv.fields⟩, hQ s₀ _ hq⟩

lemma Holds.connect (h : sys.Holds hash P Q) (hs : makeSession sys.server = .ok s) (hq : Q s) :
    (sys.set name (some (s, []))).Holds hash P Q := by
  have hinv : s.Inv hash False := by
    obtain ⟨s₀, hs₀, hinv, -⟩ : Yields (makeSession sys.server) fun s =>
      s.Inv hash False ∧ s.pending = 0 := Session.makeSession_inv nofun
    cases hs₀.symm.trans hs
    exact hinv
  refine h.set fun s' buf' heq => ?_
  obtain rfl : s = s' := congrArg Prod.fst (Option.some.inj heq)
  exact ⟨hinv, hq⟩

/-- The session writes the store back at the end of its round. -/
lemma Holds.round (h : sys.Holds hash P Q) (hinv : s.Inv hash False)
    {q : Session × List UInt8} (hq : Session.Rounded hash s buf q) (hP : P q.1.owner)
    (hQ : Q q.1) :
    ({ sys.set name (some q) with server := q.1.owner } : System ι).Holds hash P Q := by
  have hset : (sys.set name (some q)).Holds hash P Q := by
    refine h.set fun s' buf' heq => ?_
    rw [Option.some.inj heq] at hq hQ
    exact ⟨hinv.rounded hq, hQ⟩
  exact ⟨hP, hset.sessions⟩

/-- What a round keeps of the store and of its session, given `C`, a step keeps of all of them. -/
theorem step_holds (hQ : ∀ s owner, Q s → Q { s with owner })
    (hnew : ∀ owner s, makeSession owner = .ok s → Q s)
    (hround : ∀ s buf q, P s.owner → s.Inv hash False → Q s → C s buf →
      Session.Rounded hash s buf q → P q.1.owner ∧ Q q.1)
    (h : sys.Holds hash P Q) (hC : ∀ s buf, sys.Takes e s buf → C s buf)
    (hstep : step hash sys e = .ok sys') : sys'.Holds hash P Q := by
  cases e with
  | connect name =>
    simp only [step, bind_eq_ok] at hstep
    obtain ⟨s, hs, -, -, hstep⟩ := hstep
    cases hstep
    exact h.connect hs (hnew sys.server s hs)
  | disconnect name =>
    simp only [step, bind_eq_ok] at hstep
    obtain ⟨-, -, hstep⟩ := hstep
    cases hstep
    exact h.set fun _ _ hp => by cases hp
  | arrive name chunk =>
    unfold step at hstep
    dsimp only at hstep
    cases hsession : sys.sessions name with
    | none =>
      rw [hsession] at hstep
      cases hstep
    | some p =>
      rw [hsession] at hstep
      cases hstep
      refine h.set fun s' buf' heq => ?_
      cases heq
      exact h.sessions name _ _ hsession
  | round name =>
    cases hsession : sys.sessions name with
    | none =>
      unfold step at hstep
      dsimp only at hstep
      rw [hsession] at hstep
      cases hstep
    | some p =>
      obtain ⟨s, buf⟩ := p
      rw [step_round hsession, bind_eq_ok] at hstep
      obtain ⟨r, hr, hstep⟩ := hstep
      cases hstep
      have htakes : sys.Takes (.round name) { s with owner := sys.server } buf :=
        ⟨name, s, rfl, hsession, rfl⟩
      obtain ⟨hserver, hinv, hq⟩ := h.takes hQ htakes
      have hrounded := Session.rounded hinv hr
      obtain ⟨hserver', hsess⟩ := hround _ buf _ hserver hinv hq (hC _ buf htakes) hrounded
      exact h.round hinv hrounded hserver' hsess

end

end System

end Muduo.Memcached
