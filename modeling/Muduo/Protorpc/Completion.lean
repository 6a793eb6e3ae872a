import Muduo.Machine.Counter
import Muduo.Protorpc.RpcSystem

/-!
# A call completes with its own answer, once

The id under which a call waits is its own as long as the ids of the client have not come round,
which takes `2 ^ 64` calls. The answer that finds a call in `outstandings_` is then the answer to
this call, and takes it out.

## Main results

* `calls_complete_once`: what holds in every run with at most `2 ^ 64` calls.
* `outstanding_overwritten`: with one call more, a call that still waits may be lost.
-/

namespace Muduo.RpcSystem

open Machine
open RpcChannel (requestMessage responseMessage errorMessage findCall finish)

variable {M : Type} {schema : Schema M} {services : Services} {s s' : RpcSystem M} {e : RpcEvent M}

/-! ### The ids -/

/-- The calls are numbered in the order in which they draw their ids. -/
structure Ids (s : RpcSystem M) : Prop where
  next : s.client.id = BitVec.ofNat 64 s.calls.length
  drawn : ∀ k call, s.calls[k]? = some call → call.id = BitVec.ofNat 64 (k + 1)

lemma init_ids : (init services : RpcSystem M).Ids := ⟨rfl, by simp [init]⟩

lemma Stepped.ids (hs : Stepped schema services s e s') (h : s.Ids) : s'.Ids := by
  cases hs with
  | draw method request =>
    have hnext : s.client.id + 1 = BitVec.ofNat 64 (s.calls.length + 1) := by
      rw [h.next, ofNat_add_one]
    constructor
    · rw [RpcSystem.draw, List.length_append]
      exact hnext
    · intro k call hk
      obtain hk | ⟨rfl, rfl⟩ := getElem?_concat_eq_some.mp hk
      · exact h.drawn k call hk
      · exact hnext
  | _ => exact ⟨h.next, h.drawn⟩

/-- No two calls have the same id, as long as the ids have not come round. -/
lemma Ids.inj (h : s.Ids) (hlen : s.calls.length ≤ 2 ^ 64) {k k' : ℕ} {call call' : Call M}
    (hk : s.calls[k]? = some call) (hk' : s.calls[k']? = some call') (hid : call.id = call'.id) :
    k = k' := by
  obtain ⟨hlt, -⟩ := List.getElem?_eq_some_iff.mp hk
  obtain ⟨hlt', -⟩ := List.getElem?_eq_some_iff.mp hk'
  rw [h.drawn k call hk, h.drawn k' call' hk'] at hid
  exact ofNat_succ_inj (hlt.trans_le hlen) (hlt'.trans_le hlen) hid

/-! ### What only grows -/

lemma Stepped.calls (hs : Stepped schema services s e s') {k : ℕ} {call : Call M}
    (h : s.calls[k]? = some call) : s'.calls[k]? = some call := by
  cases hs with
  | draw method request => exact getElem?_concat_eq_some.mpr (.inl h)
  | _ => exact h

lemma Stepped.log (hs : Stepped schema services s e s') {x : RpcEntry M} (h : x ∈ s.log) :
    x ∈ s'.log := by
  cases hs with
  | draw | send | inject => exact h
  | _ => exact List.mem_append_left _ h

lemma Stepped.sent (hs : Stepped schema services s e s') {m : RpcMessage} (h : m ∈ s.sent) :
    m ∈ s'.sent := by
  cases hs with
  | refuse | done => exact List.mem_append_left _ h
  | _ => exact h

/-- A thread in `CallMethod` only goes forward. -/
lemma Stepped.position (hs : Stepped schema services s e s') {k : ℕ} :
    (s.position k ≠ .drawn → s'.position k ≠ .drawn) ∧
      (s.position k = .sent → s'.position k = .sent) := by
  cases hs with
  | @register k' call hcall hposition =>
    by_cases hk : k = k'
    · subst hk
      exact ⟨fun h => absurd hposition h, fun h => by rw [hposition] at h; cases h⟩
    · simp only [issue, Function.update_of_ne hk]
      exact ⟨id, id⟩
  | @send k' call hcall hposition =>
    by_cases hk : k = k'
    · subst hk
      simp
    · simp only [Function.update_of_ne hk]
      exact ⟨id, id⟩
  | _ => exact ⟨id, id⟩

/-! ### The calls that wait -/

/-- `outstandings_` holds the calls that were issued and not answered since. -/
structure Waiting (s : RpcSystem M) : Prop where
  outstanding : ∀ i k, s.client.outstandings i = some k ↔
    (∃ call, s.calls[k]? = some call ∧ call.id = i) ∧ Since (.issued k) (· = .response i) s.log
  issued : ∀ k, .issued k ∈ s.log → k < s.calls.length ∧ s.position k ≠ .drawn

lemma init_waiting : (init services : RpcSystem M).Waiting where
  outstanding := by
    intro i k
    simp [init, Since]
  issued := nofun

/-- An entry that neither issues nor answers a call. -/
def Quiet : RpcEntry M → Prop
  | .ran _ _ | .served _ | .produced _ _ => True
  | .issued _ | .response _ => False

/-- A step that does not touch `outstandings_`. -/
lemma Waiting.frame (h : s.Waiting)
    (hposition : ∀ k, s.position k ≠ .drawn → s'.position k ≠ .drawn)
    (hout : s'.client.outstandings = s.client.outstandings) (hcalls : s'.calls = s.calls)
    (hlog : s'.log = s.log ∨ ∃ x, s'.log = s.log ++ [x] ∧ Quiet x) : s'.Waiting := by
  have hsince : ∀ k i, Since (.issued k) (· = .response i) s'.log ↔
      Since (.issued k) (· = .response i) s.log := by
    intro k i
    obtain hlog | ⟨x, hlog, hx⟩ := hlog
    · rw [hlog]
    · rw [hlog, since_concat]
      cases x <;> simp_all [Quiet]
  have hissued : ∀ k, .issued k ∈ s'.log → .issued k ∈ s.log := by
    intro k
    obtain hlog | ⟨x, hlog, hx⟩ := hlog
    · rw [hlog]
      exact id
    · rw [hlog, List.mem_append]
      cases x <;> simp_all [Quiet]
  constructor
  · intro i k
    rw [hout, hcalls, hsince]
    exact h.outstanding i k
  · intro k hk
    obtain ⟨hlt, hpos⟩ := h.issued k (hissued k hk)
    exact ⟨hcalls ▸ hlt, hposition k hpos⟩

lemma Waiting.draw (h : s.Waiting) (method : MethodDescriptor) (request : M) :
    (s.draw method request).Waiting where
  outstanding := by
    intro i k
    refine (h.outstanding i k).trans ?_
    constructor
    · rintro ⟨⟨call, hcall, hid⟩, hsince⟩
      exact ⟨⟨call, getElem?_concat_eq_some.mpr (.inl hcall), hid⟩, hsince⟩
    · rintro ⟨⟨call, hcall, hid⟩, hsince⟩
      obtain hcall | ⟨rfl, -⟩ := getElem?_concat_eq_some.mp hcall
      · exact ⟨⟨call, hcall, hid⟩, hsince⟩
      · -- the new call has not been issued
        exact absurd (h.issued _ hsince.mem).1 (lt_irrefl _)
  issued := by
    intro k hk
    obtain ⟨hlt, hpos⟩ := h.issued k hk
    refine ⟨?_, hpos⟩
    rw [RpcSystem.draw, List.length_append]
    omega

/-- The call `k` is put under its id, where no other call waits. -/
lemma Waiting.register (h : s.Waiting) (hids : s.Ids) (hlen : s.calls.length ≤ 2 ^ 64) {k : ℕ}
    {call : Call M} (hcall : s.calls[k]? = some call)
    (hout : ∀ j, s'.client.outstandings j = if j = call.id then some k else
      s.client.outstandings j) (hcalls : s'.calls = s.calls)
    (hposition : ∀ k', s.position k' ≠ .drawn ∨ k' = k → s'.position k' ≠ .drawn)
    (hlog : s'.log = s.log ++ [.issued k]) : s'.Waiting := by
  constructor
  · intro i k'
    rw [hout, hcalls, hlog, since_concat]
    by_cases hi : i = call.id
    · subst hi
      rw [if_pos rfl]
      constructor
      · intro hk
        cases hk
        exact ⟨⟨call, hcall, rfl⟩, .inl rfl⟩
      · rintro ⟨⟨call', hcall', hid⟩, -⟩
        rw [hids.inj hlen hcall hcall' hid.symm]
    · rw [if_neg hi, h.outstanding]
      constructor
      · rintro ⟨hcall', hsince⟩
        exact ⟨hcall', .inr ⟨hsince, nofun⟩⟩
      · rintro ⟨⟨call', hcall', hid⟩, hk | ⟨hsince, -⟩⟩
        · cases hk
          cases hcall.symm.trans hcall'
          exact absurd hid.symm hi
        · exact ⟨⟨call', hcall', hid⟩, hsince⟩
  · intro k' hk'
    rw [hlog, List.mem_append, List.mem_singleton] at hk'
    rw [hcalls]
    obtain hk' | hk' := hk'
    · obtain ⟨hlt, hpos⟩ := h.issued k' hk'
      exact ⟨hlt, hposition k' (.inl hpos)⟩
    · cases hk'
      exact ⟨(List.getElem?_eq_some_iff.mp hcall).1, hposition k (.inr rfl)⟩

/-- A response with the id `i` takes the call out that waits under `i`, if there is one. -/
lemma Waiting.erase (h : s.Waiting) {i : BitVec 64}
    (hout : ∀ j, s'.client.outstandings j = if j = i then none else s.client.outstandings j)
    (hcalls : s'.calls = s.calls) (hposition : s'.position = s.position)
    (hlog : s'.log = s.log ++ [.response i]) : s'.Waiting := by
  constructor
  · intro j k
    rw [hout, hcalls, hlog, since_concat]
    by_cases hj : j = i
    · subst hj
      rw [if_pos rfl]
      constructor
      · nofun
      · rintro ⟨-, hk | ⟨-, hne⟩⟩
        · cases hk
        · exact absurd rfl hne
    · rw [if_neg hj, h.outstanding]
      constructor
      · rintro ⟨hcall, hsince⟩
        exact ⟨hcall, .inr ⟨hsince, fun hi => hj (RpcEntry.response.inj hi).symm⟩⟩
      · rintro ⟨hcall, hk | ⟨hsince, -⟩⟩
        · cases hk
        · exact ⟨hcall, hsince⟩
  · intro k hk
    rw [hlog, List.mem_append, List.mem_singleton] at hk
    rw [hcalls, hposition]
    obtain hk | hk := hk
    · exact h.issued k hk
    · cases hk

lemma Stepped.waiting (hs : Stepped schema services s e s') (hids : s.Ids)
    (hlen : s.calls.length ≤ 2 ^ 64) (h : s.Waiting) : s'.Waiting := by
  have hpos := fun k => (hs.position (k := k)).1
  cases hs with
  | draw method request => exact h.draw method request
  | @register k call hcall hposition =>
    refine h.register hids hlen hcall (fun j => Function.update_apply ..) rfl ?_ rfl
    rintro k' (hk' | rfl)
    · exact hpos k' hk'
    · simp [issue]
  | send | inject => exact h.frame hpos rfl rfl (.inl rfl)
  | refuse | invoke | done | complete => exact h.frame hpos rfl rfl (.inr ⟨_, rfl, trivial⟩)
  | @ignore message responses hresponses hunknown =>
    refine h.erase (i := message.id) ?_ rfl rfl rfl
    intro j
    split
    · next hj => exact hj ▸ hunknown
    · rfl
  | @take message responses k hresponses hidle hknown =>
    exact h.erase (i := message.id) (fun j => Function.update_apply ..) rfl rfl rfl

/-! ### The closures that run -/

/-- The calls whose closure has run. -/
def ran (log : List (RpcEntry M)) : List ℕ :=
  log.filterMap fun
    | .ran k _ => some k
    | .issued _ | .response _ | .served _ | .produced _ _ => none

lemma ran_concat (log : List (RpcEntry M)) (x : RpcEntry M) :
    ran (log ++ [x]) = ran log ++ ran [x] :=
  List.filterMap_append

/-- The call has left `outstandings_`. -/
def Taken (s : RpcSystem M) (k : ℕ) : Prop :=
  .issued k ∈ s.log ∧ ∀ i, s.client.outstandings i ≠ some k

/-- A closure that is about to run has not run, and a closure that has run does not wait. -/
structure Once (s : RpcSystem M) : Prop where
  completing : ∀ k m, s.completing = some (k, m) → s.Taken k ∧ k ∉ ran s.log
  taken : ∀ k ∈ ran s.log, s.Taken k
  nodup : (ran s.log).Nodup

lemma init_once : (init services : RpcSystem M).Once := ⟨nofun, nofun, List.nodup_nil⟩

/-- A call that has left `outstandings_` does not come back. -/
lemma Stepped.taken (hs : Stepped schema services s e s') (h : s.Waiting) {k : ℕ}
    (hk : s.Taken k) : s'.Taken k := by
  refine ⟨hs.log hk.1, fun i hi => ?_⟩
  cases hs with
  | @register k' call hcall hposition =>
    change Function.update s.client.outstandings call.id (some k') i = some k at hi
    rw [Function.update_apply] at hi
    split at hi
    · cases hi
      exact (h.issued k hk.1).2 hposition
    · exact hk.2 i hi
  | @take message responses k' hresponses hidle hknown =>
    change Function.update s.client.outstandings message.id none i = some k at hi
    rw [Function.update_apply] at hi
    split at hi
    · cases hi
    · exact hk.2 i hi
  | _ => exact hk.2 i hi

/-- A step that runs no closure and finds no call. -/
lemma Once.frame (h : s.Once) (htaken : ∀ k, s.Taken k → s'.Taken k)
    (hcompleting : s'.completing = s.completing) (hran : ran s'.log = ran s.log) : s'.Once := by
  constructor
  · intro k m hm
    obtain ⟨hk, hnot⟩ := h.completing k m (hcompleting ▸ hm)
    exact ⟨htaken k hk, hran ▸ hnot⟩
  · intro k hk
    exact htaken k (h.taken k (hran ▸ hk))
  · rw [hran]
    exact h.nodup

lemma Stepped.once (hs : Stepped schema services s e s') (hw : s.Waiting) (hw' : s'.Waiting)
    (h : s.Once) : s'.Once := by
  have htaken := fun k => hs.taken hw (k := k)
  have hquiet : ∀ x : RpcEntry M, ran [x] = [] → ran (s.log ++ [x]) = ran s.log := by
    intro x hx
    rw [ran_concat, hx, List.append_nil]
  cases hs with
  | draw | send | inject => exact h.frame htaken rfl rfl
  | register | refuse | invoke | done | ignore => exact h.frame htaken rfl (hquiet _ rfl)
  | @take message responses k hresponses hidle hknown =>
    have hran := hquiet (.response message.id) rfl
    have hnot : k ∉ ran s.log := fun hk => (h.taken k hk).2 message.id hknown
    obtain ⟨⟨call, hcall, hid⟩, hsince⟩ := (hw.outstanding message.id k).mp hknown
    refine ⟨?_, fun k' hk' => htaken k' (h.taken k' (hran ▸ hk')), ?_⟩
    · rintro k' m ⟨⟩
      refine ⟨⟨List.mem_append_left _ hsince.mem, fun i hi => ?_⟩, ?_⟩
      · -- the call waited under its own id only
        obtain ⟨⟨call', hcall', hid'⟩, -⟩ := (hw'.outstanding i k).mp hi
        cases hcall.symm.trans hcall'
        rw [← hid', hid] at hi
        exact absurd hi (by simp [note])
      · exact hran ▸ hnot
    · exact hran ▸ h.nodup
  | @complete k message call hcompleting hcall =>
    obtain ⟨hk, hnot⟩ := h.completing k message hcompleting
    have hran : ran (s.log ++ [.ran k (finish schema call.method message)]) = ran s.log ++ [k] :=
      ran_concat ..
    refine ⟨nofun, fun k' hk' => htaken k' ?_, ?_⟩
    · obtain hk' | hk' := List.mem_append.mp (hran ▸ hk')
      · exact h.taken k' hk'
      · rwa [List.mem_singleton.mp hk']
    · change (ran (s.log ++ [_])).Nodup
      rw [hran, ← List.concat_eq_append]
      exact h.nodup.concat hnot

/-! ### The answers of the server -/

/-- What a request is refused for: it names no service or no method of the server, or its body is
not one of the method. -/
inductive Refused (schema : Schema M) (services : Services) (m : RpcMessage) :
    ErrorCode → Prop where
  | noServices (hservices : services = none) : Refused schema services m .NO_SERVICE
  | noService {list : List Service} (hservices : services = some list)
      (hservice : list.find? (·.fullName = m.service) = none) :
    Refused schema services m .NO_SERVICE
  | noMethod {list : List Service} {service : Service} (hservices : services = some list)
      (hservice : list.find? (·.fullName = m.service) = some service)
      (hmethod : m.method ∉ service.methods) : Refused schema services m .NO_METHOD
  | invalidRequest {list : List Service} {service : Service} (hservices : services = some list)
      (hservice : list.find? (·.fullName = m.service) = some service)
      (hmethod : m.method ∈ service.methods)
      (hrequest : schema.parseRequest ⟨m.service, m.method⟩ m.request = none) :
    Refused schema services m .INVALID_REQUEST

lemma fullName_of_find {list : List Service} {name : String} {service : Service}
    (h : list.find? (·.fullName = name) = some service) : service.fullName = name := by
  simpa using List.find?_some h

lemma findCall_of_refused {m : RpcMessage} {error : ErrorCode}
    (h : Refused schema services m error) : findCall schema services m = .error error := by
  cases h with
  | noServices hservices => simp only [findCall, hservices]
  | noService hservices hservice => simp only [findCall, hservices, hservice]
  | noMethod hservices hservice hmethod =>
    simp only [findCall, hservices, hservice, Service.findMethodByName, if_neg hmethod]
  | invalidRequest hservices hservice hmethod hrequest =>
    simp only [findCall, hservices, hservice, Service.findMethodByName, if_pos hmethod,
      fullName_of_find hservice, hrequest]

/-- A request that is not refused is given to the method it names. -/
lemma findCall_eq_ok {m : RpcMessage} {method : MethodDescriptor} {q : M}
    (h : findCall schema services m = .ok (method, q)) :
    method = ⟨m.service, m.method⟩ ∧ schema.parseRequest method m.request = some q := by
  unfold findCall Service.findMethodByName at h
  split at h
  · split at h
    · next service hservice =>
      split at h
      · next method' hmethod =>
        split at h
        · next q' hq =>
          cases h
          split at hmethod
          · cases hmethod
            exact ⟨by rw [fullName_of_find hservice], hq⟩
          · cases hmethod
        · cases h
      · cases h
    · cases h
  · cases h

/-- The request of the call has been sent. -/
def Sent (s : RpcSystem M) (call : Call M) : Prop :=
  ∃ k, s.calls[k]? = some call ∧ s.position k = .sent

lemma Stepped.sent_call (hs : Stepped schema services s e s') {call : Call M} (h : s.Sent call) :
    s'.Sent call := by
  obtain ⟨k, hk, hposition⟩ := h
  exact ⟨k, hs.calls hk, hs.position.2 hposition⟩

lemma Ids.sent_inj (h : s.Ids) (hlen : s.calls.length ≤ 2 ^ 64) {call call' : Call M}
    (hcall : s.Sent call) (hcall' : s.Sent call') (hid : call.id = call'.id) : call = call' := by
  obtain ⟨k, hk, -⟩ := hcall
  obtain ⟨k', hk', -⟩ := hcall'
  cases h.inj hlen hk hk' hid
  exact Option.some.inj (hk.symm.trans hk')

/-- The message `m` is the answer to `call`: the error for which it is refused, or what the service
produced for its request. -/
inductive Answers (schema : Schema M) (services : Services) (log : List (RpcEntry M))
    (call : Call M) : RpcMessage → Prop where
  | refused {error : ErrorCode}
      (hfind : findCall schema services (request schema call) = .error error) :
    Answers schema services log call (errorMessage call.id error)
  | produced {q r : M}
      (hfind : findCall schema services (request schema call) = .ok (call.method, q))
      (hresponse : schema.isResponse call.method r = true)
      (hlog : .produced ⟨call.id, call.method, q⟩ r ∈ log) :
    Answers schema services log call (answer schema ⟨call.id, call.method, q⟩ r)

/-- The ids of the requests that are on their way to the server, with its services, or answered. -/
def ids (s : RpcSystem M) : List (BitVec 64) :=
  s.requests.map RpcMessage.id ++ s.serving.map Call.id ++ s.sent.map RpcMessage.id

/-- A request is in one place, and what is there is made of the call that sent it. -/
structure ServerInv (schema : Schema M) (services : Services) (s : RpcSystem M) : Prop where
  requests : ∀ m ∈ s.requests, ∃ call, s.Sent call ∧ m = request schema call
  serving : ∀ c ∈ s.serving, ∃ call, s.Sent call ∧ c.id = call.id ∧
    findCall schema services (request schema call) = .ok (c.method, c.request)
  sent : ∀ m ∈ s.sent, ∃ call, s.Sent call ∧ Answers schema services s.log call m
  served : ∀ m, .served m ∈ s.log → (∃ call, s.Sent call ∧ m = request schema call) ∧
    (m.id ∈ s.serving.map Call.id ∨ m.id ∈ s.sent.map RpcMessage.id)
  nodup : s.ids.Nodup

lemma init_serverInv : (init services : RpcSystem M).ServerInv schema services :=
  ⟨nofun, nofun, nofun, nofun, List.nodup_nil⟩

lemma Answers.mono {log log' : List (RpcEntry M)} {call : Call M} {m : RpcMessage}
    (h : Answers schema services log call m) (hlog : ∀ x ∈ log, x ∈ log') :
    Answers schema services log' call m := by
  cases h with
  | refused hfind => exact .refused hfind
  | produced hfind hresponse hproduced => exact .produced hfind hresponse (hlog _ hproduced)

/-- What the invariant says of the places of `s` still holds of their contents after a step. -/
lemma ServerInv.mono (h : s.ServerInv schema services) (hs : Stepped schema services s e s') :
    (∀ m ∈ s.requests, ∃ call, s'.Sent call ∧ m = request schema call) ∧
    (∀ c ∈ s.serving, ∃ call, s'.Sent call ∧ c.id = call.id ∧
      findCall schema services (request schema call) = .ok (c.method, c.request)) ∧
    ∀ m ∈ s.sent, ∃ call, s'.Sent call ∧ Answers schema services s'.log call m := by
  refine ⟨fun m hm => ?_, fun c hc => ?_, fun m hm => ?_⟩
  · obtain ⟨call, hcall, hrequest⟩ := h.requests m hm
    exact ⟨call, hs.sent_call hcall, hrequest⟩
  · obtain ⟨call, hcall, hserving⟩ := h.serving c hc
    exact ⟨call, hs.sent_call hcall, hserving⟩
  · obtain ⟨call, hcall, hanswers⟩ := h.sent m hm
    exact ⟨call, hs.sent_call hcall, hanswers.mono fun x hx => hs.log hx⟩

/-- A step that does not touch the requests. -/
lemma ServerInv.frame (h : s.ServerInv schema services) (hs : Stepped schema services s e s')
    (hrequests : s'.requests = s.requests) (hserving : s'.serving = s.serving)
    (hsent : s'.sent = s.sent) (hlog : ∀ m, .served m ∈ s'.log → .served m ∈ s.log) :
    s'.ServerInv schema services := by
  obtain ⟨hrequests', hserving', hsent'⟩ := h.mono hs
  refine ⟨hrequests ▸ hrequests', hserving ▸ hserving', hsent ▸ hsent', fun m hm => ?_, ?_⟩
  · obtain ⟨⟨call, hcall, hm'⟩, hplace⟩ := h.served m (hlog m hm)
    rw [hserving, hsent]
    exact ⟨⟨call, hs.sent_call hcall, hm'⟩, hplace⟩
  · rw [ids, hrequests, hserving, hsent]
    exact h.nodup

/-- A call whose request is not sent has its id to itself. -/
lemma ServerInv.fresh (h : s.ServerInv schema services) (hids : s.Ids)
    (hlen : s.calls.length ≤ 2 ^ 64) {k : ℕ} {call : Call M} (hcall : s.calls[k]? = some call)
    (hposition : s.position k ≠ .sent) : call.id ∉ s.ids := by
  have hother : ∀ call', s.Sent call' → call'.id ≠ call.id := by
    rintro call' ⟨k', hk', hposition'⟩ hid
    cases hids.inj hlen hk' hcall hid
    exact hposition hposition'
  intro hid
  rw [ids, List.mem_append, List.mem_append] at hid
  obtain (hid | hid) | hid := hid
  · obtain ⟨m, hm, hid⟩ := List.mem_map.mp hid
    obtain ⟨call', hcall', rfl⟩ := h.requests m hm
    exact hother call' hcall' hid
  · obtain ⟨c, hc, hid⟩ := List.mem_map.mp hid
    obtain ⟨call', hcall', hid', -⟩ := h.serving c hc
    exact hother call' hcall' (hid'.symm.trans hid)
  · obtain ⟨m, hm, hid⟩ := List.mem_map.mp hid
    obtain ⟨call', hcall', hanswers⟩ := h.sent m hm
    cases hanswers <;> exact hother call' hcall' hid

lemma ServerInv.send (h : s.ServerInv schema services) (hids : s.Ids)
    (hlen : s.calls.length ≤ 2 ^ 64) {k : ℕ} {call : Call M} (hcall : s.calls[k]? = some call)
    (hposition : s.position k = .registered) : ServerInv schema services { s with
      position := Function.update s.position k .sent
      requests := s.requests ++ [request schema call] } := by
  have hs : Stepped schema services s (.send k) _ := .send hcall hposition
  obtain ⟨hrequests, hserving, hsent⟩ := h.mono hs
  refine ⟨fun m hm => ?_, hserving, hsent, fun m hm => ?_, ?_⟩
  · rcases List.mem_append.mp hm with hm | hm
    · exact hrequests m hm
    · refine ⟨call, ⟨k, hcall, Function.update_self ..⟩, List.mem_singleton.mp hm⟩
  · obtain ⟨⟨call', hcall', hm'⟩, hplace⟩ := h.served m hm
    exact ⟨⟨call', hs.sent_call hcall', hm'⟩, hplace⟩
  · have hfresh : call.id ∉ s.ids := h.fresh hids hlen hcall (by rw [hposition]; decide)
    have hperm : (ids { s with
        position := Function.update s.position k .sent
        requests := s.requests ++ [request schema call] }).Perm (call.id :: s.ids) := by
      simp only [ids, List.map_append, List.map_cons, List.map_nil, List.append_assoc]
      exact List.perm_middle
    exact hperm.nodup_iff.mpr (List.nodup_cons.mpr ⟨hfresh, h.nodup⟩)

lemma ServerInv.refuse (h : s.ServerInv schema services) {message : RpcMessage}
    {requests : List RpcMessage} {error : ErrorCode} (hrequests : s.requests = message :: requests)
    (hfind : findCall schema services message = .error error) : ServerInv schema services
      (({ s with requests }.note (.served message)).reply (errorMessage message.id error)) := by
  have hs : Stepped schema services s .serve _ := .refuse hrequests hfind
  obtain ⟨hrequests', hserving, hsent⟩ := h.mono hs
  rw [hrequests] at hrequests'
  obtain ⟨call, hcall, rfl⟩ := hrequests' message (List.mem_cons_self ..)
  refine ⟨fun m hm => hrequests' m (List.mem_cons_of_mem _ hm), hserving, fun m hm => ?_,
    fun m hm => ?_, ?_⟩
  · rcases List.mem_append.mp hm with hm | hm
    · exact hsent m hm
    · rw [List.mem_singleton.mp hm]
      exact ⟨call, hcall, .refused hfind⟩
  · rcases List.mem_append.mp hm with hm | hm
    · obtain ⟨⟨call', hcall', hm'⟩, hplace⟩ := h.served m hm
      refine ⟨⟨call', hs.sent_call hcall', hm'⟩, hplace.imp_right fun hm => ?_⟩
      exact List.map_append ▸ List.mem_append_left _ hm
    · cases List.mem_singleton.mp hm
      refine ⟨⟨call, hcall, rfl⟩, .inr ?_⟩
      exact List.map_append ▸ List.mem_append_right _ (List.mem_singleton_self _)
  · refine (List.Perm.nodup_iff ?_).mpr h.nodup
    simp only [ids, note, reply, hrequests, List.map_append, List.map_cons, List.map_nil,
      List.cons_append]
    rw [← List.append_assoc]
    exact List.perm_append_singleton _ _

lemma ServerInv.invoke (h : s.ServerInv schema services) {message : RpcMessage}
    {requests : List RpcMessage} {method : MethodDescriptor} {q : M}
    (hrequests : s.requests = message :: requests)
    (hfind : findCall schema services message = .ok (method, q)) : ServerInv schema services
      ({ s with
        requests
        serving := s.serving ++ [Call.mk message.id method q] }.note (.served message)) := by
  have hs : Stepped schema services s .serve _ := .invoke hrequests hfind
  obtain ⟨hrequests', hserving, hsent⟩ := h.mono hs
  rw [hrequests] at hrequests'
  obtain ⟨call, hcall, rfl⟩ := hrequests' message (List.mem_cons_self ..)
  refine ⟨fun m hm => hrequests' m (List.mem_cons_of_mem _ hm), fun c hc => ?_, hsent,
    fun m hm => ?_, ?_⟩
  · rcases List.mem_append.mp hc with hc | hc
    · exact hserving c hc
    · rw [List.mem_singleton.mp hc]
      exact ⟨call, hcall, rfl, hfind⟩
  · rcases List.mem_append.mp hm with hm | hm
    · obtain ⟨⟨call', hcall', hm'⟩, hplace⟩ := h.served m hm
      refine ⟨⟨call', hs.sent_call hcall', hm'⟩, hplace.imp_left fun hm => ?_⟩
      exact List.map_append ▸ List.mem_append_left _ hm
    · cases List.mem_singleton.mp hm
      refine ⟨⟨call, hcall, rfl⟩, .inl ?_⟩
      exact List.map_append ▸ List.mem_append_right _ (List.mem_singleton_self _)
  · refine (List.Perm.nodup_iff ?_).mpr h.nodup
    simp only [ids, note, hrequests, List.map_append, List.map_cons, List.map_nil,
      List.cons_append, List.append_assoc]
    rw [← List.append_assoc, ← List.append_assoc]
    exact List.perm_middle

lemma ServerInv.done (h : s.ServerInv schema services) {j : ℕ} {c : Call M} {r : M}
    (hc : s.serving[j]? = some c) (hresponse : schema.isResponse c.method r = true) :
    ServerInv schema services
      (({ s with serving := s.serving.eraseIdx j }.note (.produced c r)).reply
        (answer schema c r)) := by
  have hs : Stepped schema services s (.done j r) _ := .done hc hresponse
  obtain ⟨hrequests, hserving, hsent⟩ := h.mono hs
  obtain ⟨hj, hget⟩ := List.getElem?_eq_some_iff.mp hc
  have hperm : (c :: s.serving.eraseIdx j).Perm s.serving :=
    hget ▸ List.getElem_cons_eraseIdx_perm hj
  obtain ⟨call, hcall, hid, hfind⟩ := hserving c (List.mem_of_getElem? hc)
  obtain ⟨hmethod, -⟩ := findCall_eq_ok hfind
  obtain ⟨id, method, q⟩ := c
  cases hid
  cases hmethod
  refine ⟨hrequests, fun c hc => hserving c (List.mem_of_mem_eraseIdx hc), fun m hm => ?_,
    fun m hm => ?_, ?_⟩
  · rcases List.mem_append.mp hm with hm | hm
    · exact hsent m hm
    · rw [List.mem_singleton.mp hm]
      refine ⟨call, hcall, .produced hfind hresponse ?_⟩
      exact List.mem_append_right _ (List.mem_singleton_self _)
  · obtain hm | hm := List.mem_append.mp hm
    · obtain ⟨⟨call', hcall', hm'⟩, hplace⟩ := h.served m hm
      refine ⟨⟨call', hs.sent_call hcall', hm'⟩, ?_⟩
      simp only [note, reply, List.map_append, List.mem_append]
      obtain hplace | hplace := hplace
      · -- it was with a service, and is there still or has just been answered
        obtain hid | hid := List.mem_cons.mp ((hperm.map Call.id).mem_iff.mpr hplace)
        · exact .inr (.inr (hid ▸ List.mem_singleton_self _))
        · exact .inl hid
      · exact .inr (.inl hplace)
    · cases List.mem_singleton.mp hm
  · refine (List.Perm.nodup_iff ?_).mpr h.nodup
    have hperm' := hperm.map Call.id
    rw [List.map_cons] at hperm'
    simp only [ids, note, reply, List.map_append, List.map_cons, List.map_nil]
    rw [← List.append_assoc]
    refine (List.perm_append_singleton _ _).trans ?_
    exact (List.perm_middle.symm.trans (hperm'.append_left _)).append_right _

lemma Stepped.serverInv (hs : Stepped schema services s e s') (hids : s.Ids)
    (hlen : s.calls.length ≤ 2 ^ 64) (h : s.ServerInv schema services) :
    s'.ServerInv schema services := by
  have hframe := fun hr hv ht hl => h.frame hs hr hv ht hl
  cases hs with
  | draw | inject => exact hframe rfl rfl rfl fun m hm => hm
  | register | ignore | take | complete =>
    refine hframe rfl rfl rfl fun m hm => ?_
    obtain hm | hm := List.mem_append.mp hm
    · exact hm
    · cases List.mem_singleton.mp hm
  | send hcall hposition => exact h.send hids hlen hcall hposition
  | refuse hrequests hfind => exact h.refuse hrequests hfind
  | invoke hrequests hfind => exact h.invoke hrequests hfind
  | done hcall hresponse => exact h.done hcall hresponse

lemma filter_eq_singleton {α β : Type} [DecidableEq β] {f : α → β} {l : List α}
    (hl : (l.map f).Nodup) {a : α} (ha : a ∈ l) : l.filter (f · = f a) = [a] := by
  induction l with
  | nil => cases ha
  | cons b l ih =>
    obtain ⟨hb, hl⟩ := List.nodup_cons.mp hl
    obtain rfl | ha := List.mem_cons.mp ha
    · have hnone : l.filter (f · = f a) = [] := by
        rw [List.filter_eq_nil_iff]
        intro c hc
        rw [decide_eq_true_eq]
        exact fun h => hb (h ▸ List.mem_map_of_mem hc)
      rw [List.filter_cons_of_pos (by simp), hnone]
    · have hne : f b ≠ f a := fun h => hb (h ▸ List.mem_map_of_mem ha)
      rw [List.filter_cons_of_neg (by simpa using hne), ih hl ha]

/-- A request that is refused has one answer, which says why. -/
lemma ServerInv.refused (h : s.ServerInv schema services) (hids : s.Ids)
    (hlen : s.calls.length ≤ 2 ^ 64) {m : RpcMessage} {error : ErrorCode}
    (hserved : .served m ∈ s.log) (hrefused : Refused schema services m error) :
    s.sent.filter (·.id = m.id) = [errorMessage m.id error] := by
  have hfind := findCall_of_refused hrefused
  obtain ⟨⟨call, hcall, rfl⟩, hplace⟩ := h.served m hserved
  have hsent : ∀ a ∈ s.sent, a.id = call.id → a = errorMessage call.id error := by
    intro a ha hid
    obtain ⟨call', hcall', hanswers⟩ := h.sent a ha
    have hid' : a.id = call'.id := by cases hanswers <;> rfl
    cases hids.sent_inj hlen hcall hcall' (hid.symm.trans hid')
    cases hanswers with
    | refused hfind' =>
      cases hfind.symm.trans hfind'
      rfl
    | produced hfind' =>
      cases hfind.symm.trans hfind'
  have hmem : call.id ∈ s.sent.map RpcMessage.id := by
    obtain hplace | hplace := hplace
    · obtain ⟨c, hc, hid⟩ := List.mem_map.mp hplace
      obtain ⟨call', hcall', hid', hfind'⟩ := h.serving c hc
      cases hids.sent_inj hlen hcall hcall' (hid.symm.trans hid')
      cases hfind.symm.trans hfind'
    · exact hplace
  have hnodup : (s.sent.map RpcMessage.id).Nodup := (List.nodup_append.mp h.nodup).2.1
  obtain ⟨a, ha, hid⟩ := List.mem_map.mp hmem
  change s.sent.filter (·.id = call.id) = _
  rw [← hid, filter_eq_singleton hnodup ha, hsent a ha hid]
  rfl

/-! ### What the closures find -/

/-- The response of the call when its closure runs: what the service produced for the request of the
call, or nothing, and then the server has answered with an error. -/
def Got (schema : Schema M) (s : RpcSystem M) (call : Call M) (content : Option (Option M)) :
    Prop :=
  (∃ q r, content = some (some r) ∧
    schema.parseRequest call.method (schema.serializeAsString call.request) = some q ∧
    .produced ⟨call.id, call.method, q⟩ r ∈ s.log) ∨
  content = none ∧ ∃ error, errorMessage call.id error ∈ s.sent

/-- Everything the client receives comes from the server. -/
structure Genuine (schema : Schema M) (s : RpcSystem M) : Prop where
  responses : ∀ m ∈ s.responses, m ∈ s.sent
  completing : ∀ k m, s.completing = some (k, m) →
    m ∈ s.sent ∧ ∃ call, s.calls[k]? = some call ∧ call.id = m.id
  ran : ∀ k content, .ran k content ∈ s.log → ∃ call, s.calls[k]? = some call ∧
    s.Got schema call content

lemma init_genuine : (init services : RpcSystem M).Genuine schema := ⟨nofun, nofun, nofun⟩

lemma Stepped.got (hs : Stepped schema services s e s') {call : Call M}
    {content : Option (Option M)} (h : s.Got schema call content) : s'.Got schema call content := by
  obtain ⟨q, r, hcontent, hparse, hproduced⟩ | ⟨hcontent, error, hsent⟩ := h
  · exact .inl ⟨q, r, hcontent, hparse, hs.log hproduced⟩
  · exact .inr ⟨hcontent, error, hs.sent hsent⟩

/-- The answer that the server has sent for a call is what its closure finds. -/
lemma ServerInv.got (h : s.ServerInv schema services) (hlib : schema.Lawful) (hids : s.Ids)
    (hlen : s.calls.length ≤ 2 ^ 64) {k : ℕ} {call : Call M} {m : RpcMessage}
    (hcall : s.calls[k]? = some call) (hm : m ∈ s.sent) (hid : call.id = m.id) :
    s.Got schema call (finish schema call.method m) := by
  obtain ⟨call', ⟨k', hcall', -⟩, hanswers⟩ := h.sent m hm
  have hid' : m.id = call'.id := by cases hanswers <;> rfl
  cases hids.inj hlen hcall hcall' (hid.trans hid')
  cases hcall.symm.trans hcall'
  cases hanswers with
  | refused hfind => exact .inr ⟨rfl, _, hm⟩
  | @produced q r hfind hresponse hlog =>
    refine .inl ⟨q, r, ?_, (findCall_eq_ok hfind).2, hlog⟩
    exact congrArg some (hlib _ _ hresponse)

lemma Stepped.genuine (hs : Stepped schema services s e s') (hlib : schema.Lawful)
    (hinject : ∀ m, e ≠ .inject m) (hids : s.Ids) (hlen : s.calls.length ≤ 2 ^ 64)
    (hwaiting : s.Waiting) (hserver : s.ServerInv schema services) (h : s.Genuine schema) :
    s'.Genuine schema := by
  have hresponses : ∀ m ∈ s.responses, m ∈ s'.sent := fun m hm => hs.sent (h.responses m hm)
  have hcompleting : ∀ k m, s.completing = some (k, m) →
      m ∈ s'.sent ∧ ∃ call, s'.calls[k]? = some call ∧ call.id = m.id := by
    intro k m hm
    obtain ⟨hsent, call, hcall, hid⟩ := h.completing k m hm
    exact ⟨hs.sent hsent, call, hs.calls hcall, hid⟩
  have hran : ∀ k content, .ran k content ∈ s.log → ∃ call, s'.calls[k]? = some call ∧
      s'.Got schema call content := by
    intro k content hk
    obtain ⟨call, hcall, hgot⟩ := h.ran k content hk
    exact ⟨call, hs.calls hcall, hs.got hgot⟩
  have hran' : ∀ x k content, .ran k content ∈ s.log ++ [x] → (∀ k content, x ≠ .ran k content) →
      ∃ call, s'.calls[k]? = some call ∧ s'.Got schema call content := by
    intro x k content hk hx
    obtain hk | hk := List.mem_append.mp hk
    · exact hran k content hk
    · exact absurd (List.mem_singleton.mp hk).symm (hx k content)
  have hgot : ∀ call content, s.Got schema call content → s'.Got schema call content :=
    fun call content h => hs.got h
  cases hs with
  | draw | send => exact ⟨hresponses, hcompleting, hran⟩
  | register | invoke =>
    exact ⟨hresponses, hcompleting, fun k content hk => hran' _ k content hk nofun⟩
  | refuse | done =>
    refine ⟨fun m hm => ?_, hcompleting, fun k content hk => hran' _ k content hk nofun⟩
    obtain hm | hm := List.mem_append.mp hm
    · exact hresponses m hm
    · exact List.mem_append_right _ hm
  | @ignore message responses hfront hunknown =>
    refine ⟨fun m hm => hresponses m ?_, hcompleting,
      fun k content hk => hran' _ k content hk nofun⟩
    rw [hfront]
    exact List.mem_cons_of_mem _ hm
  | @take message responses k hfront hidle hknown =>
    refine ⟨fun m hm => hresponses m ?_, ?_, fun k content hk => hran' _ k content hk nofun⟩
    · rw [hfront]
      exact List.mem_cons_of_mem _ hm
    · rintro k' m ⟨⟩
      obtain ⟨hcall, -⟩ := (hwaiting.outstanding message.id k).mp hknown
      exact ⟨hresponses message (hfront ▸ List.mem_cons_self ..), hcall⟩
  | @complete k message call hfront hcall =>
    refine ⟨hresponses, nofun, fun k' content hk' => ?_⟩
    obtain hk' | hk' := List.mem_append.mp hk'
    · exact hran k' content hk'
    · cases List.mem_singleton.mp hk'
      obtain ⟨hsent, call', hcall', hid⟩ := h.completing k message hfront
      cases hcall.symm.trans hcall'
      exact ⟨call, hcall, hgot _ _ (hserver.got hlib hids hlen hcall hsent hid)⟩
  | inject message => exact absurd rfl (hinject message)

/-! ### All runs -/

lemma Stepped.length_calls (hs : Stepped schema services s e s') :
    s.calls.length ≤ s'.calls.length := by
  cases hs with
  | draw method request =>
    rw [RpcSystem.draw, List.length_append]
    omega
  | _ => exact le_refl _

/-- What holds in every state, and what holds as long as the ids have not come round. -/
structure Inv (schema : Schema M) (services : Services) (s : RpcSystem M) : Prop where
  wf : s.Wf services
  ids : s.Ids
  waiting : s.calls.length ≤ 2 ^ 64 → s.Waiting
  once : s.calls.length ≤ 2 ^ 64 → s.Once
  server : s.calls.length ≤ 2 ^ 64 → s.ServerInv schema services

lemma init_inv : (init services : RpcSystem M).Inv schema services :=
  ⟨init_wf, init_ids, fun _ => init_waiting, fun _ => init_once, fun _ => init_serverInv⟩

lemma Inv.step (h : s.Inv schema services) (e : RpcEvent M) :
    Safe (step schema s e) fun s' => s'.Inv schema services ∧ Stepped schema services s e s' := by
  refine (step_spec h.wf).mono fun s' ⟨hwf, hs⟩ => ⟨⟨hwf, hs.ids h.ids, ?_, ?_, ?_⟩, hs⟩
  all_goals
    intro hlen
    have hlen' := hs.length_calls.trans hlen
  · exact hs.waiting h.ids hlen' (h.waiting hlen')
  · exact hs.once (h.waiting hlen') (hs.waiting h.ids hlen' (h.waiting hlen')) (h.once hlen')
  · exact hs.serverInv h.ids hlen' (h.server hlen')

/-- In every run with at most `2 ^ 64` calls, `outstandings_` holds the calls that are issued and
not answered, every closure runs at most once, a closure finds what the service produced for its
call or an error was sent for it, unless the peer puts in messages of its own, and every request
that is refused is answered once. -/
theorem calls_complete_once (schema : Schema M) (hlib : schema.Lawful) (services : Services)
    (es : List (RpcEvent M)) :
    Safe (run (RpcSystem.step schema) (init services) es) fun s => s.calls.length ≤ 2 ^ 64 →
      (∀ i k, s.client.outstandings i = some k ↔
        (∃ call, s.calls[k]? = some call ∧ call.id = i) ∧
          Since (.issued k) (· = .response i) s.log) ∧
      (ran s.log).Nodup ∧
      ((∀ m, .inject m ∉ es) → ∀ k content, .ran k content ∈ s.log →
        ∃ call, s.calls[k]? = some call ∧ s.Got schema call content) ∧
      ∀ m error, .served m ∈ s.log → Refused schema services m error →
        s.sent.filter (·.id = m.id) = [errorMessage m.id error] := by
  have hinv : Safe (run (RpcSystem.step schema) (init services) es) (Inv schema services) :=
    run_invariant (fun s e h => (h.step e).mono fun _ => And.left) init_inv es
  by_cases hno : ∀ m, .inject m ∉ es
  · have hgenuine : Safe (run (RpcSystem.step schema) (init services) es) fun s =>
        s.Inv schema services ∧ (s.calls.length ≤ 2 ^ 64 → s.Genuine schema) := by
      refine run_safe (P := fun _ e => ∀ m, e ≠ .inject m) ?_
        ⟨init_inv, fun _ => init_genuine⟩ (along_of_forall ?_ _)
      · intro s e ⟨h, hg⟩ he
        refine (h.step e).mono fun s' ⟨h', hs⟩ => ⟨h', fun hlen => ?_⟩
        have hlen' := hs.length_calls.trans hlen
        exact hs.genuine hlib he h.ids hlen' (h.waiting hlen') (h.server hlen') (hg hlen')
      · rintro e he - m rfl
        exact hno m he
    refine hgenuine.mono fun s ⟨h, hg⟩ hlen => ?_
    exact ⟨(h.waiting hlen).outstanding, (h.once hlen).nodup, fun _ => (hg hlen).ran,
      fun m error => (h.server hlen).refused h.ids hlen⟩
  · refine hinv.mono fun s h hlen => ?_
    exact ⟨(h.waiting hlen).outstanding, (h.once hlen).nodup, fun hno' => absurd hno' hno,
      fun m error => (h.server hlen).refused h.ids hlen⟩

/-! ### A run -/

/-- Messages that are their own bytes. -/
def plain : Schema (List UInt8) := ⟨id, fun _ => some, fun _ => some, fun _ _ => true⟩

def echo : MethodDescriptor := ⟨"Echo", "echo"⟩

/-- Three calls, the last one of a method that the server does not have. The services answer in the
other order. -/
def threeCalls : List (RpcEvent (List UInt8)) :=
  [.draw echo [1], .draw echo [2], .draw ⟨"Echo", "ping"⟩ [3], .register 1, .register 0,
    .register 2, .send 1, .send 0, .send 2, .serve, .serve, .serve, .done 1 [8], .done 0 [9],
    .take, .complete, .take, .complete, .take, .complete]

theorem calls_complete_once_three :
    Yields (run (RpcSystem.step plain) (init (some [⟨"Echo", ["echo"]⟩])) threeCalls) fun s =>
      ran s.log = [2, 0, 1] ∧ ∀ k content, .ran k content ∈ s.log →
        ∃ call, s.calls[k]? = some call ∧ s.Got plain call content := by
  have hrun : (fun s => (ran s.log, s.calls.length)) <$>
      run (RpcSystem.step plain) (init (some [⟨"Echo", ["echo"]⟩])) threeCalls =
        .ok ([2, 0, 1], 3) := by
    decide +kernel
  obtain ⟨s, hs, hlog⟩ := map_eq_ok.mp hrun
  obtain ⟨hran, hcalls⟩ := Prod.mk.inj hlog
  have hlen : s.calls.length ≤ 2 ^ 64 := by
    rw [hcalls]
    norm_num
  obtain ⟨-, -, hgot, -⟩ :=
    (calls_complete_once plain (fun _ _ _ => rfl) _ threeCalls).of_ok hs hlen
  refine ⟨s, hs, hran, hgot ?_⟩
  simp [threeCalls]

/-! ### The ids come round -/

lemma register_of_drawn {k : ℕ} {call : Call M} (hcall : s.calls[k]? = some call)
    (hposition : s.position k = .drawn) :
    RpcSystem.step schema s (.register k) = .ok (s.issue k call) := by
  change s.register k = _
  unfold register
  rw [hcall]
  dsimp only
  rw [require, if_pos hposition, ok_bind]
  rfl

lemma send_of_registered {k : ℕ} {call : Call M} (hcall : s.calls[k]? = some call)
    (hposition : s.position k = .registered) :
    RpcSystem.step schema s (.send k) = .ok { s with
      position := Function.update s.position k .sent
      requests := s.requests ++ [request schema call] } := by
  change s.send schema k = _
  unfold send
  rw [hcall]
  dsimp only
  rw [require, if_pos hposition, ok_bind]
  rfl

/-- The first call waits for its service, and no other call waits. -/
def firstWaits (calls : List (Call (List UInt8))) (position : ℕ → Position)
    (sent : List RpcMessage) (log : List (RpcEntry (List UInt8))) : RpcSystem (List UInt8) where
  client := ⟨BitVec.ofNat 64 calls.length, Function.update (fun _ => none) 1 (some 0), none⟩
  server := ⟨0, fun _ => none, some [⟨"Echo", ["echo"]⟩]⟩
  calls := calls
  position := position
  requests := []
  responses := []
  serving := [⟨1, echo, []⟩]
  completing := none
  sent := sent
  log := log

/-- A call from its start to its end. -/
def answeredCall (k : ℕ) : List (RpcEvent (List UInt8)) :=
  [.draw echo [], .register k, .send k, .serve, .done 1 [], .take, .complete]

lemma run_answeredCall {calls : List (Call (List UInt8))} {position : ℕ → Position}
    (sent : List RpcMessage) (log : List (RpcEntry (List UInt8)))
    (hposition : position calls.length = .drawn) (hid : BitVec.ofNat 64 (calls.length + 1) ≠ 1) :
    ∃ sent', run (RpcSystem.step plain) (firstWaits calls position sent log)
        (answeredCall calls.length) =
      .ok (firstWaits (calls ++ [⟨BitVec.ofNat 64 (calls.length + 1), echo, []⟩])
        (Function.update (Function.update position calls.length .registered) calls.length .sent)
        sent'
        (log ++ [.issued calls.length] ++
          [.served (requestMessage (BitVec.ofNat 64 (calls.length + 1)) echo [])] ++
          [.produced ⟨BitVec.ofNat 64 (calls.length + 1), echo, []⟩ []] ++
          [.response (BitVec.ofNat 64 (calls.length + 1))] ++
          [.ran calls.length (some (some []))])) := by
  set k := calls.length with hk
  set call : Call (List UInt8) := ⟨BitVec.ofNat 64 (k + 1), echo, []⟩ with hcall
  have hnext : BitVec.ofNat 64 k + 1 = BitVec.ofNat 64 (k + 1) := ofNat_add_one ..
  have hlast : (calls ++ [call])[k]? = some call := by simp [hk]
  let s₁ : RpcSystem (List UInt8) := { firstWaits calls position sent log with
    client := ⟨BitVec.ofNat 64 (k + 1), Function.update (fun _ => none) 1 (some 0), none⟩
    calls := calls ++ [call] }
  have h₁ : RpcSystem.step plain (firstWaits calls position sent log) (.draw echo []) = .ok s₁ := by
    simp only [s₁, ← hnext, hcall]
    rfl
  let s₂ := s₁.issue k call
  have h₂ : RpcSystem.step plain s₁ (.register k) = .ok s₂ := register_of_drawn hlast hposition
  let s₃ : RpcSystem (List UInt8) := { s₂ with
    position := Function.update s₂.position k .sent, requests := [request plain call] }
  have h₃ : RpcSystem.step plain s₂ (.send k) = .ok s₃ :=
    send_of_registered hlast (Function.update_self ..)
  let s₄ : RpcSystem (List UInt8) :=
    { s₃ with requests := [], serving := [⟨1, echo, []⟩, call] }.note (.served (request plain call))
  have h₄ : RpcSystem.step plain s₃ .serve = .ok s₄ := rfl
  let s₅ : RpcSystem (List UInt8) :=
    ({ s₄ with serving := [⟨1, echo, []⟩] }.note (.produced call [])).reply (answer plain call [])
  have h₅ : RpcSystem.step plain s₄ (.done 1 []) = .ok s₅ := rfl
  let s₆ : RpcSystem (List UInt8) := { s₅ with
    client := { s₅.client with
      outstandings := Function.update s₅.client.outstandings call.id none }
    responses := []
    completing := some (k, answer plain call []) }.note (.response call.id)
  have h₆ : RpcSystem.step plain s₅ .take = .ok s₆ := by
    have hknown : s₅.client.outstandings (answer plain call []).id = some k :=
      Function.update_self ..
    change (do
      let p ← s₅.client.onRpcMessage plain (answer plain call [])
      return ({ s₅ with client := p.1, responses := [] }.note (.response call.id)).clientActs p.2 :
        Code (RpcSystem (List UInt8))) = _
    rw [onRpcMessage_response rfl (.inl rfl), hknown]
    rfl
  let s₇ : RpcSystem (List UInt8) :=
    { s₆ with completing := none }.note (.ran k (some (some [])))
  have h₇ : RpcSystem.step plain s₆ .complete = .ok s₇ := by
    change s₆.complete plain = _
    unfold complete
    rw [show s₆.completing = some (k, answer plain call []) from rfl]
    dsimp only
    rw [show s₆.calls[k]? = some call from hlast]
    rfl
  refine ⟨s₅.sent, ?_⟩
  rw [answeredCall, run_cons, h₁, ok_bind, run_cons, h₂, ok_bind, run_cons, h₃, ok_bind, run_cons,
    h₄, ok_bind, run_cons, h₅, ok_bind, run_cons, h₆, ok_bind, run_cons, h₇, ok_bind, run_nil]
  have hlength : (calls ++ [call]).length = k + 1 := by simp [hk]
  have hout : Function.update (Function.update (Function.update (fun _ => none) 1 (some 0)) call.id
      (some k)) call.id none = Function.update (fun _ => none) 1 (some 0) := by
    rw [Function.update_idem, Function.update_eq_self_iff, Function.update_of_ne hid]
  rw [firstWaits, hlength, ← hout]
  rfl

/-- The first call is served, and of the `n` calls behind it each is answered before the next. -/
def answeredCalls (n : ℕ) : List (RpcEvent (List UInt8)) :=
  .draw echo [] :: .register 0 :: .send 0 :: .serve ::
    (List.range n).flatMap fun k => answeredCall (k + 1)

lemma run_answeredCalls {n : ℕ} (hn : n < 2 ^ 64) :
    ∃ calls position sent log,
      run (RpcSystem.step plain) (init (some [⟨"Echo", ["echo"]⟩])) (answeredCalls n) =
        .ok (firstWaits calls position sent log) ∧
      calls.length = n + 1 ∧ calls[0]? = some ⟨1, echo, []⟩ ∧ (∀ k, n < k → position k = .drawn) ∧
      .issued 0 ∈ log ∧ .response 1 ∉ log ∧
      ∀ k ≤ n, k ≠ 0 → ∃ content, .ran k content ∈ log := by
  induction n with
  | zero =>
    refine ⟨[⟨1, echo, []⟩], _, _, [.issued 0, .served (requestMessage 1 echo [])], rfl, rfl, rfl,
      fun k hk => ?_, by simp, by simp, fun k hk hne => absurd (Nat.le_zero.mp hk) hne⟩
    exact (Function.update_of_ne hk.ne' ..).trans (Function.update_of_ne hk.ne' ..)
  | succ n ih =>
    obtain ⟨calls, position, sent, log, hrun, hlength, hfirst, hposition, hissued, hno, hran⟩ :=
      ih (by omega)
    have hid : BitVec.ofNat 64 (calls.length + 1) ≠ 1 := by
      rw [hlength]
      intro heq
      exact absurd (ofNat_succ_inj hn (by norm_num : 0 < 2 ^ 64) heq) n.succ_ne_zero
    obtain ⟨sent', hcall⟩ :=
      run_answeredCall sent log (hposition calls.length (by omega)) hid
    have hevents : answeredCalls (n + 1) = answeredCalls n ++ answeredCall calls.length := by
      simp [answeredCalls, List.range_succ, hlength]
    have hrun' := (congrArg (· >>= fun s =>
      run (RpcSystem.step plain) s (answeredCall calls.length)) hrun).trans hcall
    rw [← run_append, ← hevents] at hrun'
    refine ⟨_, _, sent', _, hrun', by simp [hlength], ?_, fun k hk => ?_, by simp [hissued],
      by simpa using ⟨hno, hid.symm⟩, fun k hk hne => ?_⟩
    · exact getElem?_concat_eq_some.mpr (.inl hfirst)
    · have hk' : k ≠ calls.length := by omega
      rw [Function.update_of_ne hk', Function.update_of_ne hk']
      exact hposition k (by omega)
    · rcases Nat.lt_or_ge n k with hlt | hle
      · obtain rfl : k = calls.length := by omega
        exact ⟨_, List.mem_append_right _ (List.mem_singleton.mpr rfl)⟩
      · obtain ⟨content, hcontent⟩ := hran k hle hne
        exact ⟨content, by simp [hcontent]⟩

/-- The first call waits for its service while the calls behind it are answered one by one. The call
that gets its id takes its place in `outstandings_`. -/
lemma overwrites {n : ℕ} (hn : n < 2 ^ 64) (hround : BitVec.ofNat 64 (n + 2) = 1) :
    Yields (run (RpcSystem.step plain) (init (some [⟨"Echo", ["echo"]⟩]))
        (answeredCalls n ++ [.draw echo [], .register (n + 1)])) fun s =>
      s.calls[0]? = some ⟨1, echo, []⟩ ∧ .issued 0 ∈ s.log ∧ .response 1 ∉ s.log ∧
      (∀ k ≤ n, k ≠ 0 → ∃ content, .ran k content ∈ s.log) ∧
      ∀ i, s.client.outstandings i ≠ some 0 := by
  obtain ⟨calls, position, sent, log, hrun, hlength, hfirst, hposition, hissued, hno, hran⟩ :=
    run_answeredCalls hn
  let call : Call (List UInt8) := ⟨BitVec.ofNat 64 calls.length + 1, echo, []⟩
  let s := (firstWaits calls position sent log).draw echo []
  have hid : call.id = 1 := by
    change BitVec.ofNat 64 calls.length + 1 = 1
    rw [hlength, ofNat_add_one, hround]
  have hcall : s.calls[n + 1]? = some call := getElem?_concat_eq_some.mpr (.inr ⟨hlength.symm, rfl⟩)
  have hregister : RpcSystem.step plain s (.register (n + 1)) = .ok (s.issue (n + 1) call) :=
    register_of_drawn hcall (hposition (n + 1) n.lt_succ_self)
  refine ⟨s.issue (n + 1) call, ?_, getElem?_concat_eq_some.mpr (.inl hfirst), ?_, ?_,
    fun k hk hne => ?_, fun i hi => ?_⟩
  · rw [run_append, hrun, ok_bind, run_cons]
    change run (RpcSystem.step plain) s [.register (n + 1)] = _
    rw [run_cons, hregister, ok_bind, run_nil]
  · exact List.mem_append_left _ hissued
  · intro hmem
    rcases List.mem_append.mp hmem with hmem | hmem
    · exact hno hmem
    · cases List.mem_singleton.mp hmem
  · obtain ⟨content, hcontent⟩ := hran k hk hne
    exact ⟨content, List.mem_append_left _ hcontent⟩
  · change Function.update (Function.update (fun _ => none) 1 (some 0)) call.id (some (n + 1)) i =
      some 0 at hi
    rw [hid, Function.update_idem, Function.update_apply] at hi
    split at hi
    · cases hi
    · cases hi

/-- Two calls at most wait at a time, and a call is lost after `2 ^ 64` others. -/
theorem outstanding_overwritten :
    ∃ es, Yields (run (RpcSystem.step plain) (init (some [⟨"Echo", ["echo"]⟩])) es) fun s =>
      s.calls[0]? = some ⟨1, echo, []⟩ ∧ .issued 0 ∈ s.log ∧ .response 1 ∉ s.log ∧
      (∀ k ≤ 2 ^ 64 - 1, k ≠ 0 → ∃ content, .ran k content ∈ s.log) ∧
      ∀ i, s.client.outstandings i ≠ some 0 :=
  ⟨_, overwrites (n := 2 ^ 64 - 1) (by norm_num) (by decide)⟩

end Muduo.RpcSystem
