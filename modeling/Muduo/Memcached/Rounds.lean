import Muduo.Memcached.Segmentation

/-!
# What a round does

One inversion for each layer of the loop of `onMessage`: what a command, a request, a complete value
and a round leave behind, if they come to an end. Nothing is asked of the lines here, so these are
the steps of every session.

## Main results

* `Inv.round`: the invariant of a session holds after every round, whatever the bytes.
-/

namespace Muduo.Memcached

open Machine Item

namespace Session

variable {hash : List UInt8 → ℕ} {T : Prop} {s : Session} {buf : List UInt8}

/-! ### Commands -/

/-- What the command of a request does, given the tokens after it. -/
inductive Dispatched (hash : List UInt8 → ℕ) (s : Session) (beg : List Token) :
    Bool × Session → Prop where
  | refused {policy : UpdatePolicy} {key : Token} {args : List Token}
      (hpolicy : policyOf s.command = some policy) (hbeg : beg = key :: args)
      (hfields : readFields policy key args = none) :
      Dispatched hash s beg (true, { s with policy }.reply badFormat)
  | received {policy : UpdatePolicy} {key : Token} {args : List Token} {fields : Fields}
      {item : Item} (hpolicy : policyOf s.command = some policy) (hbeg : beg = key :: args)
      (hfields : readFields policy key args = some fields) (hlow : 0 ≤ fields.bytes)
      (hhigh : fields.bytes ≤ 1024 * 1024)
      (hfresh : item.Fresh key fields.flags (relExptimeOf s.owner.startTime fields.exptime)
        (fields.bytes + 2) fields.cas) :
      Dispatched hash s beg
        (false, { s with policy, currItem := some item, state := .kReceiveValue })
  | discarded {policy : UpdatePolicy} {key : Token} {args : List Token} {fields : Fields}
      {needle : Item} (hpolicy : policyOf s.command = some policy) (hbeg : beg = key :: args)
      (hfields : readFields policy key args = some fields) (hlarge : 1024 * 1024 < fields.bytes)
      (hneedle : needle.valuelen = 2) :
      Dispatched hash s beg
        (false, { s.reply (ascii "SERVER_ERROR object too large for cache\r\n") with
          policy
          needle
          owner := (s.owner.deleteItem hash needle).2
          bytesToDiscard := (Int.bmod (fields.bytes + 2) (2 ^ 32) % 2 ^ 64).toNat
          state := .kDiscardValue })
  | got {s' : Session} (hpolicy : policyOf s.command = none)
      (hcommand : s.command = ascii "get" ∨ s.command = ascii "gets")
      (hs' : s.doGet hash (s.command = ascii "gets") beg = .ok s') :
      Dispatched hash s beg (true, s')
  | deleted {s' : Session} (hpolicy : policyOf s.command = none)
      (hcommand : s.command = ascii "delete") (hs' : s.doDelete hash beg = .ok s') :
      Dispatched hash s beg (true, s')
  | said {msg : List UInt8} (hpolicy : policyOf s.command = none)
      (hget : ¬ (s.command = ascii "get" ∨ s.command = ascii "gets")) :
      Dispatched hash s beg (true, s.reply msg)
  | quit (hcommand : s.command = ascii "quit") : Dispatched hash s beg (true, s.shutdown)
  | stopped (hcommand : s.command = ascii "shutdown") :
      Dispatched hash s beg (true, { s.shutdown with owner := s.owner.stop })

lemma dispatched_of_doUpdate {policy : UpdatePolicy} {beg : List Token} {p : Bool × Session}
    (hneedle : s.needle.valuelen = 2) (hpolicy : policyOf s.command = some policy)
    (h : s.doUpdate hash beg = .ok p) : Dispatched hash s beg p := by
  cases beg with
  | nil =>
    unfold doUpdate at h
    rw [hpolicy] at h
    cases h
  | cons key args =>
    cases hfields : readFields policy key args with
    | none =>
      unfold doUpdate at h
      rw [hpolicy] at h
      dsimp only at h
      rw [hfields] at h
      cases h
      exact .refused hpolicy rfl hfields
    | some fields =>
      rcases lt_or_ge fields.bytes 0 with hneg | hlow
      · rw [doUpdate_negative hash hpolicy hfields hneg] at h
        cases h
      rcases lt_or_ge (1024 * 1024) fields.bytes with hlarge | hsmall
      · obtain ⟨needle, -, hlen, hs'⟩ := doUpdate_large hash hneedle hpolicy hfields hlarge
        cases hs'.symm.trans h
        exact .discarded hpolicy rfl hfields hlarge hlen
      · obtain ⟨item, hfresh, hs'⟩ := doUpdate_small hash hpolicy hfields hlow hsmall
        cases hs'.symm.trans h
        exact .received hpolicy rfl hfields hlow hsmall hfresh

lemma dispatched {beg : List Token} {p : Bool × Session} (hneedle : s.needle.valuelen = 2)
    (h : s.dispatch hash beg = .ok p) : Dispatched hash s beg p := by
  unfold dispatch at h
  cases hpolicy : policyOf s.command with
  | some policy =>
    rw [hpolicy] at h
    exact dispatched_of_doUpdate hneedle hpolicy h
  | none =>
    rw [hpolicy, if_neg (by simp)] at h
    split at h
    · next hget =>
      obtain ⟨s', hs', rfl⟩ := map_eq_ok.mp h
      exact .got hpolicy hget hs'
    next hget =>
    split at h
    · next hdelete =>
      obtain ⟨s', hs', rfl⟩ := map_eq_ok.mp h
      exact .deleted hpolicy hdelete hs'
    split at h
    · cases h
      exact .said hpolicy hget
    split at h
    · next hquit =>
      cases h
      exact .quit hquit
    split at h
    · next hstop =>
      cases h
      exact .stopped hstop
    · cases h
      exact .said hpolicy hget

/-- A delete replies, and deletes the key if it is a good one. -/
lemma doDelete_cases {beg : List Token} {s' : Session} (h : s.doDelete hash beg = .ok s') :
    (∃ msg, s' = s.reply msg) ∨ ∃ needle msg,
      s' = { s with needle, owner := (s.owner.deleteItem hash needle).2 }.reply msg := by
  cases beg with
  | nil => cases h
  | cons key rest =>
    rw [doDelete] at h
    split at h
    · split at h
      · cases h
        exact .inl ⟨_, rfl⟩
      · rw [bind_eq_ok] at h
        obtain ⟨needle, -, h⟩ := h
        cases h
        exact .inr ⟨needle, _, rfl⟩
    · cases h
      exact .inl ⟨_, rfl⟩

lemma bytesToDiscard_pos {bytes : ℤ} (hlow : 0 ≤ bytes) (hhigh : bytes < 2 ^ 31) :
    0 < (Int.bmod (bytes + 2) (2 ^ 32) % 2 ^ 64).toNat := by
  rw [Int.bmod_def]
  split <;> omega

lemma bytes_lt_of_readFields {policy : UpdatePolicy} {key : Token} {args : List Token}
    {fields : Fields} (h : readFields policy key args = some fields) : fields.bytes < 2 ^ 31 := by
  obtain ⟨_, _, _, _, x, _, _, _, _, hbytes⟩ := readFields_eq_some h
  have hlt : Int.bmod x (2 ^ 32) < ((2 ^ 32 : ℕ) + 1) / 2 := Int.bmod_lt (by norm_num)
  exact hbytes.trans_lt (hlt.trans_le (by norm_num))

lemma Rest.dispatched {beg : List Token} {p : Bool × Session} (h : s.Rest hash T)
    (hitem : s.currItem = none) (hstate : s.state = .kNewCommand) (hp : Dispatched hash s beg p) :
    (next p).Inv hash T := by
  have hfinish : ∀ s' : Session, s'.Rest hash T → s'.state = s.state →
      (next (true, s')).Inv hash T :=
    fun _ hrest hst => hrest.inv_resetRequest (hst.trans hstate)
  cases hp with
  | refused _ _ _ =>
    have hrest : ∀ policy, Rest hash T { s with policy } := fun _ => ⟨h.terminated, h.needle⟩
    exact hfinish _ ((hrest _).reply _) (state_reply _)
  | @received _ _ _ _ item hpolicy _ _ hlow _ hfresh =>
    refine ⟨⟨h.terminated, h.needle⟩, policyOf_ne_kInvalid hpolicy, item, rfl, ?_⟩
    have := hfresh.valuelen
    rw [neededBytes_eq, hfresh.value, List.length_nil]
    omega
  | @discarded _ _ _ fields needle _ _ hfields hlarge hneedle =>
    have hpos := bytesToDiscard_pos (by omega) (bytes_lt_of_readFields hfields)
    exact ⟨⟨fun ht => (h.terminated ht).deleteItem needle, hneedle⟩,
      (currItem_reply _).trans hitem, hpos⟩
  | got _ _ hs' =>
    obtain ⟨hrest, hst⟩ := (doGet_spec h _ beg).safe.of_ok hs'
    exact hfinish _ hrest hst
  | deleted _ _ hs' =>
    have hbeg : beg ≠ [] := by
      rintro rfl
      cases hs'
    obtain ⟨hrest, hst⟩ := (doDelete_spec h hbeg).safe.of_ok hs'
    exact hfinish _ hrest hst
  | said _ _ => exact hfinish _ (h.reply _) (state_reply _)
  | quit _ => exact hfinish s.shutdown ⟨h.terminated, h.needle⟩ rfl
  | stopped _ =>
    exact hfinish { s.shutdown with owner := s.owner.stop } ⟨h.terminated, h.needle⟩ rfl

/-! ### Requests -/

/-- What a request does: a line without tokens is answered, any other has a command. -/
inductive Requested (hash : List UInt8 → ℕ) (s : Session) (line : List UInt8) :
    Bool × Session → Prop where
  | blank (htok : tokens (stripNoreply line).2 = []) :
      Requested hash s line (true, (s.setNoreply (stripNoreply line).1).reply (ascii "ERROR\r\n"))
  | command {command : Token} {beg : List Token} {p : Bool × Session}
      (htok : tokens (stripNoreply line).2 = command :: beg)
      (hp : Dispatched hash { s.setNoreply (stripNoreply line).1 with command } beg p) :
      Requested hash s line p

lemma requested {line : List UInt8} {p : Bool × Session} (hneedle : s.needle.valuelen = 2)
    (h : s.processRequest hash line = .ok p) : Requested hash s line p := by
  unfold processRequest at h
  rw [bind_eq_ok] at h
  obtain ⟨_, -, h⟩ := h
  dsimp only at h
  cases htok : tokens (stripNoreply line).2 with
  | nil =>
    rw [htok] at h
    cases h
    exact .blank htok
  | cons command beg =>
    rw [htok] at h
    refine .command htok (dispatched ?_ h)
    cases (stripNoreply line).1 <;> exact hneedle

lemma Inv.requested {line : List UInt8} {p : Bool × Session} (h : s.Inv hash T)
    (hstate : s.state = .kNewCommand) (hp : Requested hash s line p) : (next p).Inv hash T := by
  have hitem : s.currItem = none := Option.isNone_iff_eq_none.mp (h.isReset hstate).2.2.2.1
  have hrest := h.rest.setNoreply (stripNoreply line).1
  have hst := (state_setNoreply (stripNoreply line).1).trans hstate
  have hcurr := (currItem_setNoreply (stripNoreply line).1).trans hitem
  cases hp with
  | blank _ => exact (hrest.reply _).inv_resetRequest ((state_reply _).trans hst)
  | @command command _ _ _ hp =>
    have hrest' : Rest hash T { s.setNoreply (stripNoreply line).1 with command } :=
      ⟨hrest.terminated, hrest.needle⟩
    exact hrest'.dispatched hcurr hst hp

/-! ### Values -/

/-- What becomes of a complete value. -/
inductive Finished (hash : List UInt8 → ℕ) (s : Session) (item : Item) : Session → Prop where
  | stored {stored found : Bool} {owner : MemcacheServer} (hcrlf : item.endsWithCRLF = true)
      (howner : s.owner.storeItem hash item s.policy = .ok (stored, found, owner)) :
      Finished hash s item
        { ({ s with owner }.reply (storedReply s.policy stored found)).resetRequest
          with state := .kNewCommand }
  | bad (hcrlf : item.endsWithCRLF = false) :
      Finished hash s item { (s.reply (ascii "CLIENT_ERROR bad data chunk\r\n")).resetRequest
        with state := .kNewCommand }

lemma finished {item : Item} {s' : Session} (h : s.finishValue hash item = .ok s') :
    Finished hash s item s' := by
  rw [finishValue, bind_eq_ok] at h
  obtain ⟨s₁, hs₁, h⟩ := h
  cases h
  unfold storeValue at hs₁
  split at hs₁
  · next hcrlf =>
    rw [bind_eq_ok] at hs₁
    obtain ⟨⟨stored, found, owner⟩, howner, hs₁⟩ := hs₁
    cases hs₁
    exact .stored hcrlf howner
  · next hcrlf =>
    cases hs₁
    exact .bad (Bool.eq_false_iff.mpr hcrlf)

/-! ### Rounds -/

/-- What a round does with the unread bytes. -/
inductive Rounded (hash : List UInt8 → ℕ) (s : Session) (buf : List UInt8) :
    Session × List UInt8 → Prop where
  | waits : Rounded hash s buf (s, buf)
  | closes : Rounded hash s buf (s.shutdown, buf)
  | requested {c : ℕ} {p : Bool × Session} (hstate : s.state = .kNewCommand)
      (hcrlf : findCRLF buf = some c) (hlen : c < 2 ^ 31) (hp : Requested hash s (buf.take c) p) :
      Rounded hash s buf (next p, buf.drop (c + 2))
  | grows {item item' : Item} (hstate : s.state = .kReceiveValue)
      (hitem : s.currItem = some item) (hext : item.Extends item' buf)
      (hneeded : 0 < item'.neededBytes) : Rounded hash s buf ({ s with currItem := some item' }, [])
  | finishes {item item' : Item} {s' : Session} (hstate : s.state = .kReceiveValue)
      (hitem : s.currItem = some item) (hle : item.neededBytes ≤ buf.length)
      (happend : item.append (buf.take item.neededBytes) = .ok item')
      (hs' : finishValue hash { s with currItem := some item' } item' = .ok s') :
      Rounded hash s buf (s', buf.drop item.neededBytes)
  | discards (hstate : s.state = .kDiscardValue) (hlt : buf.length < s.bytesToDiscard) :
      Rounded hash s buf ({ s with bytesToDiscard := s.bytesToDiscard - buf.length }, [])
  | skips (hstate : s.state = .kDiscardValue) :
      Rounded hash s buf ({ s.resetRequest with state := .kNewCommand }, buf.drop s.bytesToDiscard)

/-- Where a round leaves the session, whether the loop goes on or not. -/
lemma rounded {r : Round (Session × List UInt8)} (hinv : s.Inv hash T)
    (h : round hash (s, buf) = .ok r) : Rounded hash s buf r.state := by
  by_cases hbuf : buf = []
  · subst hbuf
    cases h
    exact .waits
  cases hstate : s.state with
  | kNewCommand =>
    cases hcrlf : findCRLF buf with
    | none =>
      rw [round_wait hash hstate hbuf hcrlf] at h
      cases h
      change Rounded hash s buf (if 1024 < buf.length then s.shutdown else s, buf)
      split
      · exact .closes
      · exact .waits
    | some c =>
      rw [round_request hash hstate hcrlf] at h
      obtain ⟨q, hq, rfl⟩ := map_eq_ok.mp h
      simp only [request, bind_eq_ok] at hq
      obtain ⟨_, hcheck, p, hp, hq⟩ := hq
      cases hq
      exact .requested hstate hcrlf (check_eq_ok.mp hcheck) (requested hinv.rest.needle hp)
  | kReceiveValue =>
    rw [round_receive hash hstate hbuf] at h
    obtain ⟨q, hq, rfl⟩ := map_eq_ok.mp h
    obtain ⟨-, item, hitem, -⟩ := hinv.receiving hstate
    rcases Nat.lt_or_ge buf.length item.neededBytes with hlt | hle
    · obtain ⟨item', happend, hneeded, hreceive⟩ := receiveValue_of_lt hash hstate hitem hlt
      cases hreceive.symm.trans hq
      exact .grows hstate hitem (append_extends happend) (by omega)
    · obtain ⟨item', happend, -, hreceive⟩ := receiveValue_of_le hash hstate hitem hle
      rw [hreceive] at hq
      obtain ⟨s', hs', rfl⟩ := map_eq_ok.mp hq
      exact .finishes hstate hitem hle happend hs'
  | kDiscardValue =>
    rw [round_discard hash hstate hbuf] at h
    obtain ⟨q, hq, rfl⟩ := map_eq_ok.mp h
    obtain ⟨hitem, -⟩ := hinv.discarding hstate
    rcases Nat.lt_or_ge buf.length s.bytesToDiscard with hlt | hle
    · cases (discardValue_of_lt hstate hitem hlt).symm.trans hq
      exact .discards hstate hlt
    · cases (discardValue_of_le hstate hitem hle).symm.trans hq
      exact .skips hstate

lemma Inv.rounded {q : Session × List UInt8} (h : s.Inv hash T) (hq : Rounded hash s buf q) :
    q.1.Inv hash T := by
  cases hq with
  | waits => exact h
  | closes => exact ⟨⟨h.rest.terminated, h.rest.needle⟩, h.fields⟩
  | requested hstate _ _ hp => exact h.requested hstate hp
  | @grows _ item' hstate _ _ hneeded =>
    refine ⟨⟨h.rest.terminated, h.rest.needle⟩, ?_⟩
    dsimp only
    rw [hstate]
    exact ⟨(h.receiving hstate).1, item', rfl, hneeded⟩
  | @finishes _ item' s' hstate _ _ _ hs' =>
    have hrest : Rest hash T { s with currItem := some item' } :=
      ⟨h.rest.terminated, h.rest.needle⟩
    exact (finishValue_spec hrest (h.receiving hstate).1 hs').1
  | discards hstate hlt =>
    refine ⟨⟨h.rest.terminated, h.rest.needle⟩, ?_⟩
    dsimp only
    rw [hstate]
    exact ⟨(h.discarding hstate).1, Nat.sub_pos_of_lt hlt⟩
  | skips _ =>
    have hrest : Rest hash T { s with state := .kNewCommand } :=
      ⟨h.rest.terminated, h.rest.needle⟩
    exact (hrest.finished rfl).1

end Session

end Muduo.Memcached
