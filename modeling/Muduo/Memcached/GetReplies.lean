import Muduo.Memcached.System

/-!
# The replies to gets

The answer to a get is put together in `outputBuf_`, which outlives the request. A key that is too
long ends the loop over the keys after the text of the keys before it is in the buffer, and a
connection that is going down takes nothing from it: in both cases the text is still there when the
next request comes.

## Main results

* `get_replies_iff`: along a run of any number of sessions, the buffer is empty before every request
  and every get is answered by the blocks of its own keys, if and only if each get with good keys
  finds its connection up and each other get finds none of the keys before the bad one.
-/

namespace Muduo.Memcached

open Machine Item

namespace Session

variable {hash : List UInt8 → ℕ} {s : Session} {buf : List UInt8} {c : ℕ} {command : Token}
  {keys : List Token}

/-- The round processes a `get` or `gets` line of these keys, which ends at index `c`. -/
structure Gets (s : Session) (buf : List UInt8) (c : ℕ) (command : Token) (keys : List Token) :
    Prop where
  state : s.state = .kNewCommand
  crlf : findCRLF buf = some c
  len : c < 2 ^ 31
  tokens : tokens (stripNoreply (buf.take c)).2 = command :: keys
  command : command = ascii "get" ∨ command = ascii "gets"

/-- A get of good keys finds the connection up; any other finds no item before its bad key. -/
def Settles (hash : List UInt8 → ℕ) (s : Session) (buf : List UInt8) : Prop :=
  ∀ c command keys, s.Gets buf c command keys →
    if ∀ key ∈ keys, key.length ≤ kLongestKeySize then s.conn.connected = true
    else ∀ key ∈ keys.takeWhile (·.length ≤ kLongestKeySize), s.owner.lookup hash key = none

/-- A get of good keys, the last of which is not taken for the suffix, is answered by the blocks of
those that are in the store, in their order, and `END`. -/
def Answered (hash : List UInt8 → ℕ) (s : Session) (buf : List UInt8) : Prop :=
  ∀ c command keys, s.Gets buf c command keys → (∀ key ∈ keys, key.length ≤ kLongestKeySize) →
    ¬ ascii " noreply" <:+ buf.take c →
    Yields (round hash (s, buf)) fun r => r.state.1.conn.sent =
      s.conn.sent ++ (blocks hash (command = ascii "gets") s.owner keys ++ ascii "END\r\n")

/-! ### The output of a get -/

lemma output_ne_nil (item : Item) (cas : Bool) : item.output cas ≠ [] := by
  have hword : ascii "VALUE " ≠ [] := by decide
  simp only [output, ne_eq, List.append_eq_nil_iff, hword, false_and, not_false_eq_true]

lemma blocks_eq_nil {cas : Bool} {server : MemcacheServer} :
    blocks hash cas server keys = [] ↔ ∀ key ∈ keys, server.lookup hash key = none := by
  rw [blocks, List.flatMap_eq_nil_iff]
  refine forall₂_congr fun key _ => ?_
  cases server.lookup hash key with
  | none => exact ⟨fun _ => rfl, fun _ => rfl⟩
  | some item => exact ⟨fun h => absurd h (output_ne_nil item cas),
      fun h => absurd h (Option.some_ne_none item)⟩

@[simp] lemma outputBuf_reply (msg : List UInt8) : (s.reply msg).outputBuf = s.outputBuf := by
  unfold reply
  split <;> rfl

@[simp] lemma outputBuf_setNoreply (noreply : Bool) :
    (s.setNoreply noreply).outputBuf = s.outputBuf := by
  cases noreply <;> rfl

lemma outputBuf_next (p : Bool × Session) : (next p).outputBuf = p.2.outputBuf := by
  unfold next
  split <;> rfl

/-- The output buffer of a session whose connection is down keeps what is in it. -/
lemma outputBuf_sendOutput :
    s.sendOutput.outputBuf = if s.conn.connected then [] else s.outputBuf := by
  unfold sendOutput
  split <;> rfl

lemma outputBuf_doGet {s' : Session} {cas : Bool} (hneedle : s.needle.valuelen = 2)
    (h : s.doGet hash cas keys = .ok s') : s'.outputBuf =
      if ∀ key ∈ keys, key.length ≤ kLongestKeySize then
        if s.conn.connected then []
        else s.outputBuf ++ blocks hash cas s.owner keys ++ ascii "END\r\n"
      else
        s.outputBuf ++ blocks hash cas s.owner (keys.takeWhile (·.length ≤ kLongestKeySize)) := by
  obtain ⟨needle, -, hs'⟩ := doGet_eq hneedle cas keys
  cases hs'.symm.trans h
  split
  · exact outputBuf_sendOutput
  · exact outputBuf_reply _

/-- Only a get writes to the output buffer. -/
lemma outputBuf_dispatched {beg : List Token} {p : Bool × Session} (h : s.outputBuf = [])
    (hneedle : s.needle.valuelen = 2)
    (hget : s.command = ascii "get" ∨ s.command = ascii "gets" →
      if ∀ key ∈ beg, key.length ≤ kLongestKeySize then s.conn.connected = true
      else ∀ key ∈ beg.takeWhile (·.length ≤ kLongestKeySize), s.owner.lookup hash key = none)
    (hp : Dispatched hash s beg p) : p.2.outputBuf = [] := by
  cases hp with
  | refused _ _ _ => exact (outputBuf_reply _).trans h
  | received _ _ _ _ _ _ => exact h
  | discarded _ _ _ _ _ => exact (outputBuf_reply _).trans h
  | got _ hcommand hs' =>
    have hsettles := hget hcommand
    rw [outputBuf_doGet hneedle hs', h]
    split
    · next hkeys =>
      rw [if_pos hkeys] at hsettles
      rw [if_pos hsettles]
    · next hkeys =>
      rw [if_neg hkeys] at hsettles
      exact blocks_eq_nil.mpr hsettles
  | deleted _ _ hs' =>
    rcases doDelete_cases hs' with ⟨msg, rfl⟩ | ⟨needle, msg, rfl⟩
    · exact (outputBuf_reply _).trans h
    · exact (outputBuf_reply _).trans h
  | said _ _ => exact (outputBuf_reply _).trans h
  | quit _ | stopped _ => exact h

lemma outputBuf_rounded {q : Session × List UInt8} (h : s.outputBuf = [])
    (hinv : s.Inv hash False) (hsettles : s.Settles hash buf) (hq : Rounded hash s buf q) :
    q.1.outputBuf = [] := by
  cases hq with
  | waits | closes => exact h
  | @requested c _ hstate hcrlf hlen hp =>
    rw [outputBuf_next]
    cases hp with
    | blank _ => rw [outputBuf_reply, outputBuf_setNoreply, h]
    | @command command beg _ htok hp =>
      have h' : ({ s.setNoreply (stripNoreply (buf.take c)).1 with command } : Session).outputBuf =
        [] := (outputBuf_setNoreply _).trans h
      refine outputBuf_dispatched h' (hinv.rest.setNoreply _).needle (fun hcommand => ?_) hp
      have := hsettles c command beg ⟨hstate, hcrlf, hlen, htok, hcommand⟩
      cases (stripNoreply (buf.take c)).1 <;> exact this
  | grows _ _ _ _ | discards _ _ | skips _ => exact h
  | finishes _ _ _ _ hs' =>
    cases finished hs' with
    | stored _ _ => exact (outputBuf_reply _).trans h
    | bad _ => exact (outputBuf_reply _).trans h

/-! ### The round of a get -/

/-- The session in which the loop over the keys runs. -/
def gettingFrom (s : Session) (line : List UInt8) (command : Token) : Session :=
  { s.setNoreply (stripNoreply line).1 with command }

lemma gettingFrom_spec (s : Session) (line : List UInt8) (command : Token) :
    (s.gettingFrom line command).conn = s.conn ∧ (s.gettingFrom line command).owner = s.owner ∧
      (s.gettingFrom line command).needle = s.needle ∧
      (s.gettingFrom line command).outputBuf = s.outputBuf := by
  unfold gettingFrom
  cases (stripNoreply line).1 <;> exact ⟨rfl, rfl, rfl, rfl⟩

/-- A get comes to its end. -/
lemma Gets.round (h : s.Gets buf c command keys) (hinv : s.Inv hash False) :
    ∃ s', (s.gettingFrom (buf.take c) command).doGet hash (command = ascii "gets") keys = .ok s' ∧
      s'.state = .kNewCommand ∧
      Session.round hash (s, buf) = .ok (.again (s'.resetRequest, buf.drop (c + 2))) := by
  have hrest : Rest hash False (s.gettingFrom (buf.take c) command) :=
    ⟨False.elim, (hinv.rest.setNoreply _).needle⟩
  obtain ⟨s', hs', -, hstate⟩ := doGet_spec hrest (command = ascii "gets") keys
  have hpolicy : policyOf command = none := by
    rcases h.command with rfl | rfl <;> decide
  have hprocess : s.processRequest hash (buf.take c) = .ok (true, s') := by
    rw [processRequest_command hash (hinv.isReset h.state) rfl h.tokens, dispatch, hpolicy,
      if_neg (by simp), if_pos h.command]
    change (true, ·) <$> (s.gettingFrom (buf.take c) command).doGet hash _ keys = _
    rw [hs']
    rfl
  refine ⟨s', hs', hstate.trans ((state_setNoreply _).trans h.state), ?_⟩
  rw [round_request hash h.state h.crlf, request, check_of h.len, ok_bind, hprocess]
  rfl

lemma answered (h : s.outputBuf = []) (hinv : s.Inv hash False) (hsettles : s.Settles hash buf) :
    s.Answered hash buf := by
  intro c command keys hgets hkeys _
  obtain ⟨s', hs', -, hround⟩ := hgets.round hinv
  obtain ⟨hconn, howner, hneedle, hout⟩ := gettingFrom_spec s (buf.take c) command
  have hup : s.conn.connected = true := by
    have := hsettles c command keys hgets
    rwa [if_pos hkeys] at this
  refine ⟨_, hround, ?_⟩
  have hsent := (doGet_sent (hneedle ▸ hinv.rest.needle) hkeys (hconn ▸ hup) _).safe.of_ok hs'
  rw [hconn, howner, hout, h, List.nil_append] at hsent
  exact hsent

/-- A get that does not settle leaves text behind. -/
lemma round_not_settles (h : s.outputBuf = []) (hinv : s.Inv hash False)
    (hsettles : ¬ s.Settles hash buf) : ∃ q, Session.round hash (s, buf) = .ok (.again q) ∧
      q.1.state = .kNewCommand ∧ q.1.outputBuf ≠ [] := by
  unfold Settles at hsettles
  push Not at hsettles
  obtain ⟨c, command, keys, hgets, hbad⟩ := hsettles
  obtain ⟨s', hs', hstate, hround⟩ := hgets.round hinv
  obtain ⟨hconn, howner, hneedle, hout⟩ := gettingFrom_spec s (buf.take c) command
  have hbuf := outputBuf_doGet (hneedle ▸ hinv.rest.needle) hs'
  rw [hconn, howner, hout, h, List.nil_append] at hbuf
  refine ⟨_, hround, hstate, ?_⟩
  change s'.outputBuf ≠ []
  rw [hbuf]
  by_cases hkeys : ∀ key ∈ keys, key.length ≤ kLongestKeySize
  · rw [if_pos hkeys] at hbad ⊢
    rw [if_neg hbad]
    have hend : ascii "END\r\n" ≠ [] := by decide
    simp [hend]
  · rw [if_neg hkeys] at hbad ⊢
    rw [List.nil_append]
    exact fun hnil => hbad (blocks_eq_nil.mp hnil)

end Session

/-! ### Runs -/

namespace System

variable {ι : Type} [DecidableEq ι] {hash : List UInt8 → ℕ} {sys sys' : System ι} {e : Event ι}

/-- No session that is about to process a request has text of an earlier one. -/
def Clean (sys : System ι) : Prop :=
  ∀ name s buf, sys.sessions name = some (s, buf) → s.state = .kNewCommand → s.outputBuf = []

/-- The step settles every get. -/
def Settled (hash : List UInt8 → ℕ) (sys : System ι) (e : Event ι) : Prop :=
  ∀ s buf, sys.Takes e s buf → s.Settles hash buf

/-- No session has text of an earlier request, at any time. -/
def Drained (hash : List UInt8 → ℕ) (sys : System ι) : Prop :=
  sys.Holds hash (fun _ => True) fun s => s.outputBuf = []

omit [DecidableEq ι] in
lemma Drained.takes {s : Session} {buf : List UInt8} (h : sys.Drained hash)
    (ht : sys.Takes e s buf) : s.Inv hash False ∧ s.outputBuf = [] :=
  (Holds.takes h (fun _ _ hout => hout) ht).2

lemma Drained.step (h : sys.Drained hash) (hsettled : sys.Settled hash e)
    (hstep : step hash sys e = .ok sys') : sys'.Drained hash := by
  refine step_holds (fun _ _ hout => hout) (fun owner s hs => ?_)
    (fun s buf q _ hinv hout hC hq => ⟨trivial, Session.outputBuf_rounded hout hinv hC hq⟩) h
    hsettled hstep
  obtain ⟨s', hs', -, -, -, -, -, hout⟩ := Session.makeSession_spec owner
  cases hs'.symm.trans hs
  exact hout

/-- The first get that does not settle leaves its session with text before the next request. -/
lemma Drained.not_settled (h : sys.Drained hash) (hsettled : ¬ sys.Settled hash e) :
    ∃ sys', System.step hash sys e = .ok sys' ∧ ¬ sys'.Clean := by
  unfold Settled at hsettled
  push Not at hsettled
  obtain ⟨s, buf, htakes, hsettles⟩ := hsettled
  obtain ⟨hinv, hout⟩ := h.takes htakes
  obtain ⟨q, hq, hstate, hout'⟩ := Session.round_not_settles hout hinv hsettles
  obtain ⟨name, -, hstep⟩ := htakes.step hq
  refine ⟨_, hstep, fun hclean => hout' (hclean name q.1 q.2 ?_ hstate)⟩
  exact Function.update_self ..

/-- Along a run of any number of sessions, no session has text of an earlier request when it is
about to process one, and every get is answered by the blocks of its own keys, if and only if every
get is settled. -/
theorem get_replies_iff (hash : List UInt8 → ℕ) (startTime : ℤ) (es : List (Event ι)) :
    (Always (step hash) Clean (new startTime) es ∧
      Along (step hash) (fun sys e => ∀ s buf, sys.Takes e s buf → s.Answered hash buf)
        (new startTime) es) ↔
      Along (step hash) (Settled hash) (new startTime) es := by
  have hnew : (new startTime : System ι).Drained hash := Holds.new trivial
  have hstep : ∀ (sys : System ι) e sys', sys.Drained hash → sys.Settled hash e →
      step hash sys e = .ok sys' → sys'.Drained hash := fun _ _ _ h => h.step
  have hclean : ∀ sys : System ι, sys.Drained hash → sys.Clean :=
    fun _ h name s buf hs _ => (h.sessions name s buf hs).2
  have halways : Always (step hash) Clean (new startTime) es ↔ _ :=
    always_iff_along hclean hstep (fun _ _ h => h.not_settled) hnew
  constructor
  · exact fun h => halways.mp h.1
  · intro h
    refine ⟨halways.mpr h, h.imp hstep (fun sys e hsys hsettled s buf ht => ?_) hnew⟩
    obtain ⟨hinv, hout⟩ := hsys.takes ht
    exact Session.answered hout hinv (hsettled s buf ht)

/-- A value is set, got together with a key of 251 bytes, and then another key is got. -/
def leakingStream : List UInt8 :=
  ascii "set a 0 0 1\r\nx\r\nget a " ++ List.replicate 251 98 ++ ascii "\r\nget b\r\n"

/-- The value of the get that was refused is sent in answer to the next one. -/
theorem refused_get_leaks :
    (run (step List.length) (new 0 : System Unit)
      (.connect () :: .arrive () leakingStream :: List.replicate 4 (.round ()))).toOption.bind
        (fun sys => (sys.sessions ()).map fun p => p.1.conn.sent) =
      some (ascii ("STORED\r\nCLIENT_ERROR bad command line format\r\n" ++
        "VALUE a 0 1\r\nx\r\nEND\r\n")) ∧
    ¬ Always (step List.length) Clean (new 0 : System Unit)
      (.connect () :: .arrive () leakingStream :: List.replicate 3 (.round ())) := by
  have hleft : (run (step List.length) (new 0 : System Unit)
      (.connect () :: .arrive () leakingStream :: List.replicate 3 (.round ()))).toOption.bind
        (fun sys => (sys.sessions ()).map fun p => (p.1.state, p.1.outputBuf)) =
      some (.kNewCommand, ascii "VALUE a 0 1\r\nx\r\n") := by decide +kernel
  refine ⟨by decide +kernel, fun h => ?_⟩
  obtain ⟨sys, hsys, hsession⟩ := Option.bind_eq_some_iff.mp hleft
  obtain ⟨⟨s, buf⟩, hs, hpair⟩ := Option.map_eq_some_iff.mp hsession
  obtain ⟨hstate, hout⟩ := Prod.mk.inj hpair
  have hok : ∀ {x : Code (System Unit)}, x.toOption = some sys → x = .ok sys := by
    rintro (e | t) hx
    · cases hx
    · cases hx
      rfl
  have hempty := h _ List.prefix_rfl sys (hok hsys) () s buf hs hstate
  exact absurd (hout.symm.trans hempty) (by decide)

end System

end Muduo.Memcached
