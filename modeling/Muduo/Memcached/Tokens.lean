import Mathlib.Data.List.TakeWhile
import Muduo.Machine.Words
import Muduo.Memcached.Segmentation

/-!
# The tokens of a request

`SpaceSeparator` cuts a request at its spaces. The functions that go through the tokens share one
iterator, and each of them has its own idea of how many tokens are left: `doUpdate` and `doDelete`
take it that there is a key.

## Main results

* `tokens_stay_in_request`: no token behind the last one is asked for, if and only if an update or a
  delete has a key.
-/

namespace Muduo.Memcached

open Machine Item

/-! ### The tokenizer -/

section

variable {a rest l : List UInt8}

lemma separate_lt {tok next : List UInt8} (h : separate l = some (tok, next)) :
    next.length < l.length := by
  unfold separate at h
  have hdrop := (List.dropWhile_suffix (l := l) (fun b => decide (b = 32))).length_le
  split at h
  · cases h
  · next b bs heq =>
    cases h
    have hhead : b ≠ 32 := by
      have := List.head?_dropWhile_not (fun b => decide (b = 32)) l
      rw [heq] at this
      simpa using this
    rw [heq] at hdrop
    have hle := (List.dropWhile_suffix (l := bs) (fun b => decide (b ≠ 32))).length_le
    rw [List.dropWhile_cons_of_pos (by simpa using hhead)]
    rw [List.length_cons] at hdrop
    omega

lemma tokensAux_congr {n m : ℕ} (hn : l.length ≤ n) (hm : l.length ≤ m) :
    tokensAux n l = tokensAux m l := by
  induction n generalizing m l with
  | zero =>
    have hl : l = [] := List.length_eq_zero_iff.mp (Nat.le_zero.mp hn)
    subst hl
    cases m <;> rfl
  | succ n ih =>
    cases m with
    | zero =>
      have hl : l = [] := List.length_eq_zero_iff.mp (Nat.le_zero.mp hm)
      subst hl
      rfl
    | succ m =>
      rw [tokensAux, tokensAux]
      match h : separate l with
      | none => rfl
      | some (tok, next) =>
        have hlt := separate_lt h
        have hn' : next.length ≤ n := by omega
        have hm' : next.length ≤ m := by omega
        simp only [ih hn' hm']

/-- The equation of the tokenizer. -/
lemma tokens_of_separate {tok next : List UInt8} (h : separate l = some (tok, next)) :
    tokens l = tok :: tokens next := by
  have hlt := separate_lt h
  obtain ⟨n, hn⟩ : ∃ n, l.length = n + 1 := ⟨l.length - 1, by omega⟩
  rw [tokens, hn, tokensAux, h]
  dsimp only
  rw [tokens, tokensAux_congr (by omega) (le_refl _)]

lemma tokens_of_separate_eq_none (h : separate l = none) : tokens l = [] := by
  unfold tokens
  cases l.length with
  | zero => rfl
  | succ n => rw [tokensAux, h]

lemma tokens_space (l : List UInt8) : tokens (32 :: l) = tokens l := by
  have hsep : separate (32 :: l) = separate l := by
    unfold separate
    rw [List.dropWhile_cons_of_pos (by decide)]
  match h : separate l with
  | none => rw [tokens_of_separate_eq_none h, tokens_of_separate_eq_none (hsep.trans h)]
  | some (tok, next) => rw [tokens_of_separate h, tokens_of_separate (hsep.trans h)]

lemma separate_token (ha : a ≠ []) (hspace : (32 : UInt8) ∉ a) (hrest : ∀ b ∈ rest.head?, b = 32) :
    separate (a ++ rest) = some (a, rest) := by
  obtain ⟨b, bs, rfl⟩ := List.exists_cons_of_ne_nil ha
  have hpos : ∀ c ∈ b :: bs, decide (c ≠ 32) = true := by
    intro c hc
    simp only [ne_eq, decide_eq_true_eq]
    rintro rfl
    exact hspace hc
  have hb : ¬ decide (b = 32) = true := by
    simpa using hpos b (List.mem_cons_self ..)
  have htake : rest.takeWhile (fun c => decide (c ≠ 32)) = [] ∧
      rest.dropWhile (fun c => decide (c ≠ 32)) = rest := by
    cases rest with
    | nil => exact ⟨rfl, rfl⟩
    | cons c cs =>
      obtain rfl := hrest c rfl
      exact ⟨List.takeWhile_cons_of_neg (by decide), List.dropWhile_cons_of_neg (by decide)⟩
  have hdrop : (b :: (bs ++ rest)).dropWhile (fun c => decide (c = 32)) = b :: (bs ++ rest) :=
    List.dropWhile_cons_of_neg hb
  unfold separate
  rw [List.cons_append, hdrop]
  dsimp only
  rw [← List.cons_append, List.takeWhile_append_of_pos hpos, List.dropWhile_append_of_pos hpos,
    htake.1, htake.2, List.append_nil]

/-- A space between two tokens. -/
lemma tokens_append (ha : a ≠ []) (hspace : (32 : UInt8) ∉ a) :
    tokens (a ++ 32 :: rest) = a :: tokens rest := by
  have hrest : ∀ b ∈ (32 :: rest).head?, b = 32 := by
    rintro b ⟨⟩
    rfl
  rw [tokens_of_separate (separate_token ha hspace hrest), tokens_space]

lemma tokens_singleton (ha : a ≠ []) (hspace : (32 : UInt8) ∉ a) : tokens a = [a] := by
  have hsep : separate (a ++ []) = some (a, []) := separate_token ha hspace nofun
  rw [List.append_nil] at hsep
  rw [tokens_of_separate hsep]
  rfl

end

/-- The tokens are the words of the request. -/
lemma words_tokens (l : List UInt8) : Words (· = 32) (tokens l) l := by
  induction hn : l.length using Nat.strong_induction_on generalizing l with
  | _ n ih =>
    have hgap : ∀ b ∈ l.takeWhile (fun b => decide (b = 32)), b = 32 := fun b hb => by
      simpa using List.mem_takeWhile_imp hb
    have hl := List.takeWhile_append_dropWhile (p := fun b => decide (b = 32)) (l := l)
    match hsep : separate l with
    | none =>
      rw [tokens_of_separate_eq_none hsep]
      unfold separate at hsep
      split at hsep
      · next hdrop =>
        rw [hdrop, List.append_nil] at hl
        exact .nil (hl ▸ hgap)
      · cases hsep
    | some (tok, next) =>
      have hlt := separate_lt hsep
      rw [tokens_of_separate hsep]
      unfold separate at hsep
      split at hsep
      · cases hsep
      · next b bs hdrop =>
        cases hsep
        have hb : b ≠ 32 := by
          have := List.head?_dropWhile_not (fun b => decide (b = 32)) l
          rw [hdrop] at this
          simpa using this
        rw [hdrop, ← List.takeWhile_append_dropWhile (p := fun b => decide (b ≠ 32))
          (l := b :: bs)] at hl
        have hrest := ih _ (hn ▸ hlt) ((b :: bs).dropWhile fun b => decide (b ≠ 32)) rfl
        refine hl ▸ Words.cons hgap ?_ (fun a ha => by simpa using List.mem_takeWhile_imp ha) ?_
          hrest
        · rw [List.takeWhile_cons_of_pos (by simpa using hb)]
          exact List.cons_ne_nil _ _
        · intro a ha
          have := List.head?_dropWhile_not (fun b => decide (b ≠ 32)) (b :: bs)
          rw [ha] at this
          simpa using this

lemma infix_of_stripNoreply (line : List UInt8) : (stripNoreply line).2 <:+: line := by
  unfold stripNoreply
  split
  · exact (List.take_prefix _ line).isInfix
  · exact List.infix_rfl

/-! ### The iterator -/

/-- A fault that is not a dereferenced end. -/
def InTokens (a : Fault) : Prop := a ≠ .tokenPastEnd

namespace Session

variable {hash : List UInt8 → ℕ} {s : Session} {line : List UInt8}

lemma resetKey_inTokens (needle : Item) (key : Token) :
    SafeUpTo InTokens (needle.resetKey key) fun _ => True := by
  unfold resetKey
  split
  · split
    · trivial
    · exact Fault.noConfusion
  · exact Fault.noConfusion

lemma makeItem_inTokens (key : Token) (flags : UInt32) (exptime valuelen : ℤ) (cas : ℕ) :
    SafeUpTo InTokens (makeItem key flags exptime valuelen cas) fun _ => True := by
  unfold makeItem
  split
  · split
    · trivial
    · exact Fault.noConfusion
  · exact Fault.noConfusion

lemma outputItems_inTokens (cas : Bool) (s : Session) (keys : List Token) :
    SafeUpTo InTokens (outputItems hash cas s keys) fun _ => True := by
  induction keys generalizing s with
  | nil => trivial
  | cons key rest ih =>
    rw [outputItems]
    split
    · rw [safeUpTo_bind]
      exact (resetKey_inTokens s.needle key).mono fun needle _ => ih _
    · trivial

lemma doGet_inTokens (s : Session) (cas : Bool) (beg : List Token) :
    SafeUpTo InTokens (s.doGet hash cas beg) fun _ => True := by
  rw [doGet, safeUpTo_bind]
  refine (outputItems_inTokens cas s beg).mono fun p _ => ?_
  dsimp only
  split <;> trivial

lemma doDelete_inTokens (s : Session) (key : Token) (rest : List Token) :
    SafeUpTo InTokens (s.doDelete hash (key :: rest)) fun _ => True := by
  rw [doDelete]
  split
  · split
    · trivial
    · rw [safeUpTo_bind]
      exact (resetKey_inTokens s.needle key).mono fun _ _ => trivial
  · trivial

lemma doUpdate_inTokens (s : Session) (key : Token) (rest : List Token) :
    SafeUpTo InTokens (s.doUpdate hash (key :: rest)) fun _ => True := by
  unfold doUpdate
  match policyOf s.command with
  | none => exact Fault.noConfusion
  | some policy =>
    dsimp only
    match readFields policy key rest with
    | none => trivial
    | some fields =>
      dsimp only
      split
      · rw [safeUpTo_bind]
        exact (resetKey_inTokens _ key).mono fun _ _ => trivial
      · rw [safeUpTo_bind]
        exact (makeItem_inTokens ..).mono fun _ _ => trivial

/-- The commands that dereference the iterator without a look at the end. -/
def NeedsKey (command : Token) : Prop :=
  (policyOf command).isSome = true ∨ command = ascii "delete"

instance : DecidablePred NeedsKey := fun _ => inferInstanceAs (Decidable (_ ∨ _))

lemma dispatch_inTokens {beg : List Token} (h : NeedsKey s.command → beg ≠ []) :
    SafeUpTo InTokens (s.dispatch hash beg) fun _ => True := by
  unfold dispatch
  split
  · next hupdate =>
    obtain ⟨key, rest, rfl⟩ := List.exists_cons_of_ne_nil (h (.inl hupdate))
    exact doUpdate_inTokens s key rest
  · split
    · rw [safeUpTo_map]
      exact doGet_inTokens s _ beg
    · split
      · next hdelete =>
        obtain ⟨key, rest, rfl⟩ := List.exists_cons_of_ne_nil (h (.inr hdelete))
        rw [safeUpTo_map]
        exact doDelete_inTokens s key rest
      · split_ifs <;> trivial

lemma dispatch_nil (h : NeedsKey s.command) :
    s.dispatch hash [] = .error (.failed .tokenPastEnd) := by
  unfold dispatch
  rcases h with hupdate | hdelete
  · rw [if_pos hupdate]
    obtain ⟨policy, hpolicy⟩ := Option.isSome_iff_exists.mp hupdate
    unfold doUpdate
    rw [hpolicy]
  · rw [hdelete]
    rfl

/-- An update or a delete that ends behind its command. -/
def KeyMissing (line : List UInt8) : Prop :=
  ∃ command, NeedsKey command ∧ tokens (stripNoreply line).2 = [command]

lemma processRequest_inTokens (h : ¬ KeyMissing line) :
    SafeUpTo InTokens (s.processRequest hash line) fun _ => True := by
  unfold processRequest
  by_cases hreset : s.IsReset
  · rw [check_of hreset, ok_bind]
    dsimp only
    match htok : tokens (stripNoreply line).2 with
    | [] => trivial
    | command :: beg =>
      refine dispatch_inTokens fun hneeds => ?_
      rintro rfl
      exact h ⟨command, hneeds, htok⟩
  · rw [check, if_neg hreset]
    exact Fault.noConfusion

lemma processRequest_keyMissing (hreset : s.IsReset) (h : KeyMissing line) :
    s.processRequest hash line = .error (.failed .tokenPastEnd) := by
  obtain ⟨command, hneeds, htok⟩ := h
  rw [processRequest, check_of hreset, ok_bind]
  dsimp only
  rw [htok]
  exact dispatch_nil hneeds

/-- The tokens are the maximal parts of the request without a space, in their order, and the
iterator is dereferenced in front of its end only, if and only if no key is missing. -/
theorem tokens_stay_in_request (hash : List UInt8 → ℕ) (s : Session) (hreset : s.IsReset)
    (line : List UInt8) :
    (s.processRequest hash line ≠ .error (.failed .tokenPastEnd) ∧
      (∀ t ∈ tokens (stripNoreply line).2, t ≠ [] ∧ (32 : UInt8) ∉ t ∧ t <:+: line) ∧
      ∃ spans : List (ℕ × ℕ), spans.Pairwise (fun p q => p.2 < q.1) ∧
        (∀ i j, (i, j) ∈ spans ↔ IsRun (· = 32) (stripNoreply line).2 i j) ∧
        tokens (stripNoreply line).2 =
          spans.map fun p => slice (stripNoreply line).2 p.1 p.2) ↔
    ¬ KeyMissing line := by
  have hwords := words_tokens (stripNoreply line).2
  constructor
  · rintro ⟨hpast, -⟩ hmissing
    exact hpast (processRequest_keyMissing hreset hmissing)
  · intro hkey
    refine ⟨?_, ?_, hwords.runs⟩
    · intro hpast
      have hin : SafeUpTo InTokens (s.processRequest hash line) _ := processRequest_inTokens hkey
      rw [hpast] at hin
      exact hin rfl
    · intro t ht
      obtain ⟨hne, hspace, hinfix⟩ := hwords.mem ht
      exact ⟨hne, fun h => hspace 32 h rfl, hinfix.trans (infix_of_stripNoreply line)⟩

/-- A key between blanks, on a new session. -/
theorem tokens_stay_in_request_delete :
    Yields (makeSession ⟨0, fun _ => .empty, 0, 0⟩) fun s =>
      s.processRequest List.length (ascii "delete  k noreply") ≠
        .error (.failed .tokenPastEnd) := by
  obtain ⟨s, hs, -, -, hreset, -⟩ := makeSession_spec ⟨0, fun _ => .empty, 0, 0⟩
  refine ⟨s, hs, ((tokens_stay_in_request List.length s hreset (ascii "delete  k noreply")).mpr
    ?_).1⟩
  rintro ⟨command, -, htok⟩
  have hlen : (tokens (stripNoreply (ascii "delete  k noreply")).2).length = 2 := by decide +kernel
  rw [htok] at hlen
  cases hlen

/-- `set` and nothing else. -/
theorem set_without_key :
    failure (makeSession ⟨0, fun _ => .empty, 0, 0⟩ >>= fun s =>
      s.processRequest List.length (ascii "set")) = some .tokenPastEnd := by
  decide +kernel

end Session

end Muduo.Memcached
