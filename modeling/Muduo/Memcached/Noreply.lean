import Muduo.Memcached.Rounds
import Muduo.Memcached.Tokens

/-!
# Commands without a reply

The suffix ` noreply` of an update or a delete turns the replies off, from the line to the end of
the value, and changes nothing else: the two runs go through the same stores.

## Main results

* `noreply_only_mutes`: a line with the suffix and the value after it leave what the line without it
  leaves, on a connection to which nothing was sent.
-/

namespace Muduo.Memcached

open Machine Item

lemma stripNoreply_append (line : List UInt8) :
    stripNoreply (line ++ ascii " noreply") = (true, line) := by
  have hlen : (line ++ ascii " noreply").length - 8 = line.length := by
    rw [List.length_append]
    exact Nat.add_sub_cancel _ 8
  unfold stripNoreply
  rw [hlen, List.drop_left, List.take_left, if_pos ⟨by simp [ascii], rfl⟩]

lemma stripNoreply_of_not_suffix {line : List UInt8} (h : ¬ ascii " noreply" <:+ line) :
    stripNoreply line = (false, line) := by
  unfold stripNoreply
  rw [if_neg]
  rintro ⟨-, hdrop⟩
  exact h (hdrop ▸ List.drop_suffix _ line)

namespace Session

variable {hash : List UInt8 → ℕ} {s : Session} {c : Conn} {buf : List UInt8} {beg : List Token}

/-- The session with its replies turned off, on the connection `c`. -/
def muted (c : Conn) (s : Session) : Session := { s with noreply := true, conn := c }

lemma reply_muted (msg : List UInt8) : (s.muted c).reply msg = (s.reply msg).muted c := by
  unfold reply
  rw [if_pos (show (s.muted c).noreply = true from rfl)]
  split <;> rfl

/-! ### Commands -/

lemma doUpdate_muted :
    (s.muted c).doUpdate hash beg = (fun p => (p.1, p.2.muted c)) <$> s.doUpdate hash beg := by
  obtain ⟨owner, conn, state, command, noreply, policy, currItem, bytesToDiscard, needle, out⟩ := s
  unfold doUpdate muted
  dsimp only
  cases policyOf command with
  | none => rfl
  | some policy =>
    cases beg with
    | nil => rfl
    | cons key args =>
      dsimp only
      cases readFields policy key args with
      | none => cases noreply <;> rfl
      | some fields =>
        dsimp only
        split
        · cases hreset : needle.resetKey key with
          | error e => cases noreply <;> simp [reply, hreset]
          | ok needle' => cases noreply <;> simp [reply, hreset]
        · cases makeItem key fields.flags (relExptimeOf owner.startTime fields.exptime)
            (fields.bytes + 2) fields.cas with
          | error e => rfl
          | ok item => rfl

lemma doDelete_muted : (s.muted c).doDelete hash beg = muted c <$> s.doDelete hash beg := by
  have hneedle : (s.muted c).needle = s.needle := rfl
  cases beg with
  | nil => rfl
  | cons key rest =>
    rw [doDelete, doDelete, hneedle]
    split
    · split
      · rw [reply_muted]
        rfl
      · cases s.needle.resetKey key with
        | error e => rfl
        | ok needle =>
          have hreply := reply_muted (c := c)
            (s := { s with needle, owner := (s.owner.deleteItem hash needle).2 })
            (if (s.owner.deleteItem hash needle).1 then ascii "DELETED\r\n"
              else ascii "NOT_FOUND\r\n")
          exact congrArg Except.ok hreply
    · rw [reply_muted]
      rfl

lemma storeValue_muted (item : Item) :
    (s.muted c).storeValue hash item = muted c <$> s.storeValue hash item := by
  unfold storeValue
  split
  · have hstore : (s.muted c).owner.storeItem hash item (s.muted c).policy =
        s.owner.storeItem hash item s.policy := rfl
    rw [hstore]
    match s.owner.storeItem hash item s.policy with
    | .error e => rfl
    | .ok (stored, found, owner) =>
      have hreply := reply_muted (c := c) (s := { s with owner })
        (storedReply s.policy stored found)
      exact congrArg Except.ok hreply
  · rw [reply_muted]
    rfl

/-- The end of a request turns the replies on again. -/
lemma finishValue_muted (item : Item) : (s.muted c).finishValue hash item =
    (fun s' => { s' with conn := c }) <$> s.finishValue hash item := by
  unfold finishValue
  rw [storeValue_muted]
  match s.storeValue hash item with
  | .error e => rfl
  | .ok s' => rfl

/-! ### The bytes of a value -/

/-- The session that the suffix leaves in the place of `s`: the replies are off until the request
ends. -/
def hushed (c : Conn) (s : Session) : Session :=
  if s.state = .kNewCommand then { s with conn := c } else s.muted c

lemma hushed_of_new (h : s.state = .kNewCommand) : s.hushed c = { s with conn := c } := if_pos h

lemma hushed_of_value (h : s.state ≠ .kNewCommand) : s.hushed c = s.muted c := if_neg h

/-- A round that leaves no bytes is all that is read. -/
lemma onMessage_of_round {x : Code Session} (h : round hash (s, buf) = .again <$> (·, []) <$> x) :
    s.onMessage hash buf = (·, []) <$> x := by
  rw [onMessage_eq, h]
  match x with
  | .error e => rfl
  | .ok s₁ =>
    change s₁.onMessage hash [] = _
    exact onMessage_nil s₁

/-- Bytes that do not end the value. -/
lemma onMessage_part {T : Prop} (h : s.Inv hash T) (hbuf : buf ≠ [])
    (hlt : buf.length < s.pending) :
    ∃ s₁ : Session, s₁.Inv hash T ∧ s₁.state = s.state ∧ s₁.pending = s.pending - buf.length ∧
      s.onMessage hash buf = .ok (s₁, []) ∧
      ∀ c, (s.muted c).onMessage hash buf = .ok (s₁.muted c, []) := by
  cases hstate : s.state with
  | kNewCommand =>
    rw [pending, hstate] at hlt
    exact absurd hlt (Nat.not_lt_zero _)
  | kReceiveValue =>
    obtain ⟨hpolicy, item, hitem, -⟩ := h.receiving hstate
    rw [pending_of_receiving hstate hitem] at hlt ⊢
    obtain ⟨item₁, h₁, hneeded, hr⟩ := receiveValue_of_lt hash hstate hitem hlt
    have hpending := pending_of_receiving (s := { s with currItem := some item₁ }) hstate rfl
    refine ⟨{ s with currItem := some item₁ }, ⟨⟨h.rest.terminated, h.rest.needle⟩, ?_⟩, hstate,
      hpending.trans hneeded, ?_, fun c => ?_⟩
    · dsimp only
      rw [hstate]
      exact ⟨hpolicy, item₁, rfl, by omega⟩
    · exact onMessage_of_round (x := .ok _) (by rw [round_receive hash hstate hbuf, hr]; rfl)
    · obtain ⟨item₂, h₂, -, hr'⟩ := receiveValue_of_lt (s := s.muted c) hash hstate hitem hlt
      cases h₁.symm.trans h₂
      exact onMessage_of_round (x := .ok _)
        (by rw [round_receive (s := s.muted c) hash hstate hbuf, hr']; rfl)
  | kDiscardValue =>
    obtain ⟨hitem, -⟩ := h.discarding hstate
    rw [pending_of_discarding hstate] at hlt ⊢
    refine ⟨{ s with bytesToDiscard := s.bytesToDiscard - buf.length },
      ⟨⟨h.rest.terminated, h.rest.needle⟩, ?_⟩, hstate, pending_of_discarding hstate, ?_,
      fun c => ?_⟩
    · dsimp only
      rw [hstate]
      exact ⟨hitem, Nat.sub_pos_of_lt hlt⟩
    · exact onMessage_of_round (x := .ok _)
        (by rw [round_discard hash hstate hbuf, discardValue_of_lt hstate hitem hlt]; rfl)
    · exact onMessage_of_round (x := .ok _)
        (by rw [round_discard (s := s.muted c) hash hstate hbuf,
          discardValue_of_lt (s := s.muted c) hstate hitem hlt]; rfl)

/-- Bytes that end the value, and the request with it. -/
lemma onMessage_end {T : Prop} (h : s.Inv hash T) (hbuf : buf ≠ [])
    (heq : buf.length = s.pending) :
    ∃ x : Code Session, (∀ s', x = .ok s' → s'.Inv hash T ∧ s'.state = .kNewCommand) ∧
      s.onMessage hash buf = (·, []) <$> x ∧
      ∀ c, (s.muted c).onMessage hash buf =
        (·, []) <$> (fun s' : Session => { s' with conn := c }) <$> x := by
  cases hstate : s.state with
  | kNewCommand =>
    rw [pending, hstate] at heq
    exact absurd (List.length_eq_zero_iff.mp heq) hbuf
  | kReceiveValue =>
    obtain ⟨hpolicy, item, hitem, -⟩ := h.receiving hstate
    rw [pending_of_receiving hstate hitem] at heq
    obtain ⟨item₁, h₁, -, hr⟩ := receiveValue_of_le hash hstate hitem heq.ge
    rw [← heq, List.drop_length] at hr
    have hrest : Rest hash T { s with currItem := some item₁ } :=
      ⟨h.rest.terminated, h.rest.needle⟩
    refine ⟨finishValue hash { s with currItem := some item₁ } item₁, fun s' hs' => ?_, ?_,
      fun c => ?_⟩
    · exact ⟨(finishValue_spec hrest hpolicy hs').1, state_finishValue hs'⟩
    · exact onMessage_of_round (by rw [round_receive hash hstate hbuf, hr])
    · obtain ⟨item₂, h₂, -, hr'⟩ := receiveValue_of_le (s := s.muted c) hash hstate hitem heq.ge
      cases h₁.symm.trans h₂
      rw [← heq, List.drop_length] at hr'
      apply onMessage_of_round
      rw [round_receive (s := s.muted c) hash hstate hbuf, hr', ← finishValue_muted]
      rfl
  | kDiscardValue =>
    obtain ⟨hitem, -⟩ := h.discarding hstate
    rw [pending_of_discarding hstate] at heq
    have hrest : Rest hash T { s with state := .kNewCommand } :=
      ⟨h.rest.terminated, h.rest.needle⟩
    refine ⟨.ok { s.resetRequest with state := .kNewCommand }, ?_, ?_, fun c => ?_⟩
    · rintro _ ⟨⟩
      exact ⟨(hrest.finished rfl).1, rfl⟩
    · apply onMessage_of_round
      rw [round_discard hash hstate hbuf, discardValue_of_le hstate hitem heq.ge, ← heq,
        List.drop_length]
      rfl
    · have hdrop : buf.drop (s.muted c).bytesToDiscard = [] := List.drop_eq_nil_of_le heq.le
      apply onMessage_of_round
      rw [round_discard (s := s.muted c) hash hstate hbuf,
        discardValue_of_le (s := s.muted c) hstate hitem heq.ge, hdrop]
      rfl

/-- A chunk that is a part of the value. -/
lemma receive_hushed {T : Prop} (h : s.Inv hash T) (hle : buf.length ≤ s.pending) :
    receive hash (s.hushed c, []) buf =
        (fun q => (q.1.hushed c, q.2)) <$> receive hash (s, []) buf ∧
      ∀ q, receive hash (s, []) buf = .ok q →
        q.2 = [] ∧ q.1.Inv hash T ∧ q.1.pending = s.pending - buf.length := by
  unfold receive
  rw [List.nil_append]
  by_cases hbuf : buf = []
  · subst hbuf
    dsimp only
    rw [onMessage_nil, onMessage_nil]
    refine ⟨rfl, ?_⟩
    rintro _ ⟨⟩
    exact ⟨rfl, h, rfl⟩
  have hvalue : s.state ≠ .kNewCommand := by
    intro hstate
    rw [pending_of_new hstate] at hle
    exact hbuf (List.length_eq_zero_iff.mp (Nat.le_zero.mp hle))
  rw [hushed_of_value hvalue]
  rcases hle.lt_or_eq with hlt | heq
  · obtain ⟨s₁, hinv, hstate, hpending, hs₁, hmuted⟩ := onMessage_part h hbuf hlt
    dsimp only
    rw [hs₁, hmuted c]
    refine ⟨?_, ?_⟩
    · change _ = Except.ok (s₁.hushed c, _)
      rw [hushed_of_value (hstate ▸ hvalue)]
    · rintro _ ⟨⟩
      exact ⟨rfl, hinv, hpending⟩
  · obtain ⟨x, hx, hs, hmuted⟩ := onMessage_end h hbuf heq
    dsimp only
    rw [hs, hmuted c]
    match x with
    | .error e => exact ⟨rfl, fun q hq => by cases hq⟩
    | .ok s' =>
      obtain ⟨hinv, hstate⟩ := hx s' rfl
      refine ⟨?_, ?_⟩
      · change _ = Except.ok (s'.hushed c, _)
        rw [hushed_of_new hstate]
        rfl
      · rintro _ ⟨⟩
        refine ⟨rfl, hinv, ?_⟩
        rw [pending_of_new hstate, heq, Nat.sub_self]

/-- The chunks that a value comes in. -/
lemma run_hushed {T : Prop} {chunks : List (List UInt8)} (h : s.Inv hash T)
    (hvalue : s.pending = chunks.flatten.length) :
    run (receive hash) (s.hushed c, []) chunks =
        (fun q => ({ q.1 with conn := c }, q.2)) <$> run (receive hash) (s, []) chunks ∧
      ∀ q, run (receive hash) (s, []) chunks = .ok q → q.1.state = .kNewCommand ∧ q.1.IsReset ∧
        q.2 = [] := by
  -- by induction on the chunks: those to come are what the session waits for
  let I : Session × List UInt8 → List (List UInt8) → Prop := fun p chunks =>
    p.2 = [] ∧ p.1.Inv hash T ∧ p.1.pending = chunks.flatten.length
  have hI : I (s, []) chunks := ⟨rfl, h, hvalue⟩
  have hreceive : ∀ p chunk chunks, I p (chunk :: chunks) →
      receive hash (p.1.hushed c, p.2) chunk =
        (fun q => (q.1.hushed c, q.2)) <$> receive hash p chunk ∧
      ∀ q, receive hash p chunk = .ok q → I q chunks := by
    rintro ⟨s, _⟩ chunk chunks ⟨rfl, hinv, hpending⟩
    rw [List.flatten_cons, List.length_append] at hpending
    have hle : chunk.length ≤ s.pending := Nat.le.intro hpending.symm
    obtain ⟨hmap, huses⟩ := receive_hushed (c := c) hinv hle
    refine ⟨hmap, fun q hq => ?_⟩
    obtain ⟨hnil, hinv', hpending'⟩ := huses q hq
    refine ⟨hnil, hinv', hpending'.trans ?_⟩
    exact (congrArg (· - chunk.length) hpending).trans (Nat.add_sub_cancel_left ..)
  have huses := fun p chunk chunks q hp hq => (hreceive p chunk chunks hp).2 q hq
  have hend : ∀ q, run (receive hash) (s, []) chunks = .ok q → q.1.state = .kNewCommand ∧
      q.1.IsReset ∧ q.2 = [] := by
    intro q hq
    obtain ⟨hnil, hinv, hpending⟩ := run_uses huses hI hq
    have hstate := hinv.state_of_pending hpending
    exact ⟨hstate, hinv.isReset hstate, hnil⟩
  refine ⟨?_, hend⟩
  have hmap := run_map (f := fun q => (q.1.hushed c, q.2))
    (fun p chunk chunks hp => (hreceive p chunk chunks hp).1) huses hI
  refine hmap.trans ?_
  match hq : run (receive hash) (s, []) chunks with
  | .error e => rfl
  | .ok q => exact congrArg (fun s' => Except.ok (s', q.2)) (hushed_of_new (hend q hq).1)

/-! ### The line and its value -/

/-- The line is processed, and the bytes of its value arrive in chunks. -/
def answer (hash : List UInt8 → ℕ) (s : Session) (line : List UInt8) (chunks : List (List UInt8)) :
    Code (Session × List UInt8) := do
  let p ← s.processRequest hash line
  run (receive hash) (next p, []) chunks

lemma dispatch_muted (h : NeedsKey s.command) :
    (s.muted c).dispatch hash beg = (fun p => (p.1, p.2.muted c)) <$> s.dispatch hash beg := by
  have hcommand : (s.muted c).command = s.command := rfl
  unfold dispatch
  rw [hcommand]
  by_cases hupdate : (policyOf s.command).isSome = true
  · rw [if_pos hupdate, if_pos hupdate, doUpdate_muted]
  · have hdelete := h.resolve_left hupdate
    have hget : ¬ (s.command = ascii "get" ∨ s.command = ascii "gets") := by
      rw [hdelete]
      decide
    rw [if_neg hupdate, if_neg hget, if_pos hdelete, if_neg hupdate, if_neg hget, if_pos hdelete,
      doDelete_muted, Functor.map_map, Functor.map_map]

/-- The line with the suffix and the line without it. -/
lemma processRequest_noreply {line : List UInt8} {command : Token} (hreset : s.IsReset)
    (hline : ¬ ascii " noreply" <:+ line) (htok : tokens line = command :: beg)
    (hcommand : NeedsKey command) : s.processRequest hash (line ++ ascii " noreply") =
      (fun p => (p.1, p.2.muted s.conn)) <$> s.processRequest hash line := by
  rw [processRequest_command hash hreset (stripNoreply_append line) htok,
    processRequest_command hash hreset (stripNoreply_of_not_suffix hline) htok]
  exact dispatch_muted (c := s.conn) (s := { s with command }) hcommand

/-- A request goes on with its value, or it is finished. -/
lemma next_muted {T : Prop} {p : Bool × Session} (h : s.Rest hash T)
    (hstate : s.state = .kNewCommand) (hp : Dispatched hash s beg p) :
    next (p.1, p.2.muted c) = (next p).hushed c := by
  have hfinish : ∀ s' : Session, s'.state = s.state →
      next (true, s'.muted c) = (next (true, s')).hushed c :=
    fun s' hs' => (hushed_of_new (s := s'.resetRequest) (hs'.trans hstate)).symm
  cases hp with
  | refused _ _ _ => exact hfinish _ (state_reply _)
  | received _ _ _ _ _ _ => exact (hushed_of_value State.noConfusion).symm
  | discarded _ _ _ _ _ => exact (hushed_of_value State.noConfusion).symm
  | got _ _ hs' => exact hfinish _ ((doGet_spec h _ beg).safe.of_ok hs').2
  | deleted _ _ hs' =>
    have hbeg : beg ≠ [] := by
      rintro rfl
      cases hs'
    exact hfinish _ ((doDelete_spec h hbeg).safe.of_ok hs').2
  | said _ _ => exact hfinish _ (state_reply _)
  | quit _ | stopped _ => exact hfinish _ rfl

/-- The suffix changes the replies and nothing else: with it, the line and the bytes of its value
fail where they fail without it, and otherwise leave the same store and the same session, at the
next request, with nothing sent. -/
theorem noreply_only_mutes (hash : List UInt8 → ℕ) (s : Session) (hs : s.Inv hash False)
    (hstate : s.state = .kNewCommand) (line : List UInt8) (hline : ¬ ascii " noreply" <:+ line)
    {command key : Token} {args : List Token} (htok : tokens line = command :: key :: args)
    (hcommand : NeedsKey command) (chunks : List (List UInt8))
    (hvalue : ∀ p, s.processRequest hash line = .ok p →
      (next p).pending = chunks.flatten.length) :
    s.answer hash (line ++ ascii " noreply") chunks =
        (fun q => ({ q.1 with conn := s.conn }, q.2)) <$> s.answer hash line chunks ∧
      ∀ q, s.answer hash line chunks = .ok q → q.1.state = .kNewCommand ∧ q.1.IsReset ∧
        q.2 = [] := by
  have hreset := hs.isReset hstate
  have hstrip := stripNoreply_of_not_suffix hline
  unfold answer
  rw [processRequest_noreply hreset hline htok hcommand]
  match hp : s.processRequest hash line with
  | .error e => exact ⟨rfl, fun q hq => by cases hq⟩
  | .ok p =>
    have hrest : Rest hash False { s with command } := ⟨hs.rest.terminated, hs.rest.needle⟩
    have hdispatch : Dispatched hash { s with command } (key :: args) p := by
      rw [processRequest_command hash hreset hstrip htok] at hp
      exact dispatched hrest.needle hp
    have hitem : s.currItem = none := Option.isNone_iff_eq_none.mp hreset.2.2.2.1
    have hinv := hrest.dispatched hitem hstate hdispatch
    obtain ⟨hrun, hend⟩ := run_hushed (c := s.conn) hinv (hvalue p hp)
    change run _ (next (p.1, p.2.muted s.conn), []) chunks = _ <$> run _ (next p, []) chunks ∧
      ∀ q, run _ (next p, []) chunks = .ok q → _
    rw [next_muted hrest hstate hdispatch]
    exact ⟨hrun, hend⟩

/-- A set of one byte, of which the CRLF arrives later. -/
theorem noreply_only_mutes_set :
    Yields (makeSession ⟨0, fun _ => .empty, 0, 0⟩) fun s =>
      s.answer List.length (ascii "set k 0 0 1 noreply") [ascii "a", ascii "\r\n"] =
        (fun q => ({ q.1 with conn := s.conn }, q.2)) <$>
          s.answer List.length (ascii "set k 0 0 1") [ascii "a", ascii "\r\n"] := by
  obtain ⟨s, hs, hinv, hpending⟩ : Yields (makeSession ⟨0, fun _ => .empty, 0, 0⟩) fun s =>
    s.Inv List.length False ∧ s.pending = 0 := makeSession_inv nofun
  have hstate := hinv.state_of_pending hpending
  have hsuffix : ¬ ascii " noreply" <:+ ascii "set k 0 0 1" := by decide +kernel
  have htok : tokens (ascii "set k 0 0 1") =
      [ascii "set", ascii "k", ascii "0", ascii "0", ascii "1"] := by decide +kernel
  refine ⟨s, hs, (noreply_only_mutes _ s hinv hstate (ascii "set k 0 0 1") hsuffix htok (by decide)
    [ascii "a", ascii "\r\n"] fun p hp => ?_).1⟩
  have hok : CommandOk (tokens (stripNoreply (ascii "set k 0 0 1")).2) := by decide +kernel
  rw [((processRequest_spec hinv hstate hok).safe.of_ok hp).2]
  decide +kernel

end Session

end Muduo.Memcached
