import Muduo.Machine.Exec

/-!
# Circular doubly linked lists

A node is a number, and the links of all nodes are two functions, `next` and `prev`. `Seg a l b`
says that from `a` the links lead through the nodes of `l` to `b` and back, and `Ring h l` that they
lead from `h` through `l` back to `h`. A node is taken out of a ring by the two assignments of
`Ring.unlink`, and put in before `h` by those of `Ring.concat`. Rings without common nodes can be
changed separately: a ring depends on the links of its own nodes only.

`walk` is the loop that follows links up to a given node.
-/

namespace Machine

variable {next prev next' prev' : ℕ → ℕ} {a b h x y : ℕ} {l m : List ℕ}

def Seg (next prev : ℕ → ℕ) : ℕ → List ℕ → ℕ → Prop
  | a, [], b => next a = b ∧ prev b = a
  | a, x :: l, b => (next a = x ∧ prev x = a) ∧ Seg next prev x l b

@[simp] lemma seg_nil : Seg next prev a [] b ↔ next a = b ∧ prev b = a := Iff.rfl

@[simp] lemma seg_cons :
    Seg next prev a (x :: l) b ↔ (next a = x ∧ prev x = a) ∧ Seg next prev x l b := Iff.rfl

lemma seg_append : Seg next prev a (l ++ x :: m) b ↔ Seg next prev a l x ∧ Seg next prev x m b := by
  induction l generalizing a with
  | nil => simp
  | cons y l ih => simp [ih, and_assoc]

lemma Seg.congr (hs : Seg next prev a l b) (hnext : ∀ y ∈ a :: l, next' y = next y)
    (hprev : ∀ y ∈ l ++ [b], prev' y = prev y) : Seg next' prev' a l b := by
  induction l generalizing a with
  | nil => simpa [hnext a, hprev b] using hs
  | cons x l ih =>
    obtain ⟨hax, hs⟩ := hs
    refine ⟨?_, ih hs (fun y hy => hnext y (List.mem_cons_of_mem a hy))
      fun y hy => hprev y (List.mem_cons_of_mem x hy)⟩
    rwa [hnext a (List.mem_cons_self ..), hprev x (List.mem_cons_self ..)]

lemma Seg.reverse (hs : Seg next prev a l b) : Seg prev next b l.reverse a := by
  induction l generalizing a with
  | nil => exact ⟨hs.2, hs.1⟩
  | cons x l ih =>
    rw [List.reverse_cons]
    exact seg_append.mpr ⟨ih hs.2, hs.1.2, hs.1.1⟩

/-- The node before the end of a segment is in it. -/
lemma Seg.prev_mem (hs : Seg next prev a l b) : prev b ∈ a :: l := by
  induction l generalizing a with
  | nil => simp [hs.2]
  | cons x l ih => exact List.mem_cons_of_mem a (ih hs.2)

lemma Seg.next_prev (hs : Seg next prev a l b) : next (prev b) = b := by
  induction l generalizing a with
  | nil => rw [hs.2, hs.1]
  | cons x l ih => exact ih hs.2

lemma Seg.iterate (hs : Seg next prev a l b) : next^[l.length + 1] a = b := by
  induction l generalizing a with
  | nil => exact hs.1
  | cons x l ih =>
    rw [List.length_cons, Function.iterate_succ_apply, hs.1.1]
    exact ih hs.2

lemma Seg.next_eq (hs : Seg next prev a l b) : next a = l.headD b := by
  cases l with
  | nil => exact hs.1
  | cons x l => exact hs.1.1

/-- The end of a segment is moved from `b` to `y`. -/
lemma Seg.redirect (hs : Seg next prev a l b) (hl : (a :: l).Nodup) (hy : y ∉ l) :
    Seg (Function.update next (prev b) y) (Function.update prev y (prev b)) a l y := by
  induction l generalizing a with
  | nil => simp [hs.2]
  | cons x l ih =>
    rw [List.nodup_cons] at hl
    rw [List.mem_cons, not_or] at hy
    have hne : a ≠ prev b := by
      intro h
      exact hl.1 (h ▸ hs.2.prev_mem)
    refine ⟨⟨?_, ?_⟩, ih hs.2 hl.2 hy.2⟩
    · rw [Function.update_of_ne hne]
      exact hs.1.1
    · rw [Function.update_of_ne (Ne.symm hy.1)]
      exact hs.1.2

/-! ### Rings -/

structure Ring (next prev : ℕ → ℕ) (h : ℕ) (l : List ℕ) : Prop where
  seg : Seg next prev h l h
  nodup : (h :: l).Nodup

namespace Ring

lemma congr (hr : Ring next prev h l) (hnext : ∀ y ∈ h :: l, next' y = next y)
    (hprev : ∀ y ∈ h :: l, prev' y = prev y) : Ring next' prev' h l where
  seg := hr.seg.congr hnext fun y hy => hprev y (by simpa [or_comm] using hy)
  nodup := hr.nodup

lemma update (hr : Ring next prev h l) (hx : x ∉ h :: l) (a b : ℕ) :
    Ring (Function.update next x a) (Function.update prev x b) h l := by
  have hne : ∀ y ∈ h :: l, y ≠ x := by
    rintro y hy rfl
    exact hx hy
  exact hr.congr (fun y hy => Function.update_of_ne (hne y hy) ..)
    fun y hy => Function.update_of_ne (hne y hy) ..

lemma reverse (hr : Ring next prev h l) : Ring prev next h l.reverse where
  seg := hr.seg.reverse
  nodup := by simpa [List.nodup_cons, List.nodup_reverse] using hr.nodup

lemma seg_left (hr : Ring next prev h l) (hx : x ∈ l) :
    ∃ l₁ l₂, l = l₁ ++ x :: l₂ ∧ Seg next prev h l₁ x ∧ Seg next prev x l₂ h := by
  obtain ⟨l₁, l₂, rfl⟩ := List.append_of_mem hx
  exact ⟨l₁, l₂, rfl, seg_append.mp hr.seg⟩

lemma next_prev (hr : Ring next prev h l) (hx : x ∈ l) : next (prev x) = x := by
  obtain ⟨l₁, l₂, -, hs, -⟩ := hr.seg_left hx
  exact hs.next_prev

lemma prev_next (hr : Ring next prev h l) (hx : x ∈ l) : prev (next x) = x :=
  hr.reverse.next_prev (List.mem_reverse.mpr hx)

lemma prev_mem (hr : Ring next prev h l) (hx : x ∈ l) : prev x ∈ h :: l := by
  obtain ⟨l₁, l₂, rfl, hs, -⟩ := hr.seg_left hx
  have := hs.prev_mem
  simp only [List.mem_cons, List.mem_append] at this ⊢
  tauto

lemma next_mem (hr : Ring next prev h l) (hx : x ∈ l) : next x ∈ h :: l := by
  simpa using hr.reverse.prev_mem (List.mem_reverse.mpr hx)

lemma next_head (hr : Ring next prev h l) : next h = l.headD h := hr.seg.next_eq

lemma next_of_append (hr : Ring next prev h l) {l₁ l₂ : List ℕ} (hl : l = l₁ ++ x :: l₂) :
    next x = l₂.headD h := by
  rw [hl] at hr
  exact (seg_append.mp hr.seg).2.next_eq

lemma prev_of_append (hr : Ring next prev h l) {l₁ l₂ : List ℕ} (hl : l = l₁ ++ x :: l₂) :
    prev x = l₁.reverse.headD h :=
  hr.reverse.next_of_append (show l.reverse = l₂.reverse ++ x :: l₁.reverse by simp [hl])

lemma next_mem_ring (hr : Ring next prev h l) (hx : x ∈ h :: l) : next x ∈ h :: l := by
  rcases List.mem_cons.mp hx with rfl | hx
  · rw [hr.next_head]
    cases l <;> simp
  · exact hr.next_mem hx

/-- The nodes of a ring are those that the links lead to. -/
lemma mem_iff_iterate (hr : Ring next prev h l) : x ∈ h :: l ↔ ∃ k, next^[k] h = x := by
  constructor
  · intro hx
    rcases List.mem_cons.mp hx with rfl | hx
    · exact ⟨0, rfl⟩
    · obtain ⟨l₁, l₂, -, hs, -⟩ := hr.seg_left hx
      exact ⟨l₁.length + 1, hs.iterate⟩
  · rintro ⟨k, rfl⟩
    induction k with
    | zero => exact List.mem_cons_self ..
    | succ k ih =>
      rw [Function.iterate_succ_apply']
      exact hr.next_mem_ring ih

lemma prev_ne (hr : Ring next prev h l) (hx : x ∈ l) : prev x ≠ x := by
  obtain ⟨l₁, l₂, rfl, hs, -⟩ := hr.seg_left hx
  intro heq
  have hmem := hs.prev_mem
  rw [heq] at hmem
  have hnodup := hr.nodup
  rw [← List.cons_append] at hnodup
  exact List.disjoint_of_nodup_append hnodup hmem (List.mem_cons_self ..)

lemma next_ne (hr : Ring next prev h l) (hx : x ∈ l) : next x ≠ x :=
  hr.reverse.prev_ne (List.mem_reverse.mpr hx)

/-- A ring is empty if its head is linked to itself. -/
lemma next_eq_iff (hr : Ring next prev h l) : next h = h ↔ l = [] := by
  cases l with
  | nil => simpa using hr.seg.1
  | cons x l =>
    have hne : h ≠ x := by
      have := hr.nodup
      simp only [List.nodup_cons, List.mem_cons, not_or] at this
      exact this.1.1
    simp [hr.seg.1.1, hne.symm]

lemma prev_eq_iff (hr : Ring next prev h l) : prev h = h ↔ l = [] := by
  simpa using hr.reverse.next_eq_iff

/-- `x` is taken out. -/
theorem unlink (hr : Ring next prev h l) (hx : x ∈ l) :
    Ring (Function.update next (prev x) (next x)) (Function.update prev (next x) (prev x)) h
      (l.filter (· ≠ x)) := by
  obtain ⟨l₁, l₂, rfl, hs₁, hs₂⟩ := hr.seg_left hx
  have hnodup : ((h :: l₁) ++ x :: l₂).Nodup := hr.nodup
  have hleft := (List.nodup_append.mp hnodup).1
  have hright := (List.nodup_append.mp hnodup).2.1
  have hdisj := List.disjoint_of_nodup_append hnodup
  have hfilter : (l₁ ++ x :: l₂).filter (· ≠ x) = l₁ ++ l₂ := by
    have hl₁ : ∀ y ∈ l₁, y ≠ x := by
      rintro y hy rfl
      exact hdisj (List.mem_cons_of_mem h hy) (List.mem_cons_self ..)
    have hl₂ : ∀ y ∈ l₂, y ≠ x := by
      rintro y hy rfl
      exact (List.nodup_cons.mp hright).1 hy
    rw [List.filter_append, List.filter_cons_of_neg (by simp),
      List.filter_eq_self.mpr (by simpa using hl₁), List.filter_eq_self.mpr (by simpa using hl₂)]
  rw [hfilter]
  refine ⟨?_, ?_⟩
  · cases l₂ with
    | nil =>
      rw [List.append_nil, hs₂.1]
      exact hs₁.redirect hleft (List.nodup_cons.mp hleft).1
    | cons z l₂ =>
      obtain ⟨⟨hz, -⟩, hs₂⟩ := hs₂
      have hzl₁ : z ∉ h :: l₁ := fun hmem =>
        hdisj hmem (List.mem_cons_of_mem x (List.mem_cons_self ..))
      have hzl₂ := (List.nodup_cons.mp (List.nodup_cons.mp hright).2).1
      rw [hz]
      refine seg_append.mpr ⟨hs₁.redirect hleft (mt (List.mem_cons_of_mem h) hzl₁), ?_⟩
      refine hs₂.congr (fun y hy => Function.update_of_ne ?_ ..)
        fun y hy => Function.update_of_ne ?_ ..
      · rintro rfl
        exact hdisj hs₁.prev_mem (List.mem_cons_of_mem x hy)
      · rintro rfl
        rcases List.mem_append.mp hy with hy | hy
        · exact hzl₂ hy
        · exact hzl₁ (List.mem_singleton.mp hy ▸ List.mem_cons_self ..)
  · exact hnodup.sublist (List.Sublist.append_left (List.sublist_cons_self x l₂) (h :: l₁))

/-- `x` is put in before `h`. -/
theorem concat (hr : Ring next prev h l) (hx : x ∉ h :: l) :
    Ring (Function.update (Function.update next x h) (prev h) x)
      (Function.update (Function.update prev x (prev h)) h x) h (l ++ [x]) where
  seg := by
    have hxl : x ∉ l := mt (List.mem_cons_of_mem h) hx
    have hxh : x ≠ h := fun heq => hx (heq ▸ List.mem_cons_self ..)
    have hprev : x ≠ prev h := fun heq => hx (heq ▸ hr.seg.prev_mem)
    refine seg_append.mpr ⟨(hr.seg.redirect hr.nodup hxl).congr (fun y hy => ?_) fun y hy => ?_, ?_⟩
    · have hy : y ≠ x := fun heq => hx (heq ▸ hy)
      simp [Function.update_apply, hy]
    · have hy : y ≠ h := by
        rintro rfl
        rcases List.mem_append.mp hy with hy | hy
        · exact (List.nodup_cons.mp hr.nodup).1 hy
        · exact hxh (List.mem_singleton.mp hy).symm
      rw [Function.update_of_ne hy]
    · simp [Function.update_of_ne hprev]
  nodup := by
    have := hr.nodup.concat hx
    rwa [List.concat_eq_append] at this

/-- Putting `x` into one ring leaves the others as they are. -/
lemma concat_of_disjoint (hr : Ring next prev h l) {h' : ℕ} {l' : List ℕ}
    (hr' : Ring next prev h' l') (hdisj : ∀ y ∈ h' :: l', y ∉ x :: h :: l) :
    Ring (Function.update (Function.update next x h) (prev h) x)
      (Function.update (Function.update prev x (prev h)) h x) h' l' := by
  have hx : ∀ y ∈ h' :: l', y ≠ x := fun y hy => List.ne_of_not_mem_cons (hdisj y hy)
  refine hr'.congr (fun y hy => ?_) fun y hy => ?_
  · have hprev : y ≠ prev h := by
      rintro rfl
      exact hdisj _ hy (List.mem_cons_of_mem x hr.seg.prev_mem)
    rw [Function.update_of_ne hprev, Function.update_of_ne (hx y hy)]
  · have hh : y ≠ h := by
      rintro rfl
      exact hdisj _ hy (List.mem_cons_of_mem x (List.mem_cons_self ..))
    rw [Function.update_of_ne hh, Function.update_of_ne (hx y hy)]

end Ring

/-! ### Following links -/

/-- `for (x = …; x != stop; x = next(x)) body`, with at most `fuel` tests of the condition. -/
def walk {A : Type*} {σ : Type} (out : A) (next : σ → ℕ → ℕ) (stop : ℕ)
    (body : σ → ℕ → Exec A σ) : ℕ → σ → ℕ → Exec A σ
  | 0, _, _ => .error (.failed out)
  | fuel + 1, s, x =>
    if x = stop then .ok s
    else body s x >>= fun t => walk out next stop body fuel t (next t x)

section Walk

variable {A : Type*} {σ : Type} {out : A} {p q : σ → ℕ → ℕ} {fuel : ℕ}
  {body undo : σ → ℕ → Exec A σ} {T : List ℕ → σ}

/-- A loop along a ring visits its nodes in turn, if its body leaves the ring as it is. `T done` is
the state when the nodes in `done` have been visited. -/
theorem walk_ring
    (hring : ∀ done rest, l = done ++ rest → Ring (p (T done)) (q (T done)) h l)
    (hbody : ∀ done x rest, l = done ++ x :: rest → body (T done) x = .ok (T (done ++ [x])))
    (hfuel : l.length < fuel) :
    walk out p h body fuel (T []) (p (T []) h) = .ok (T l) := by
  -- `a` is the node visited last.
  have key : ∀ rest done a fuel, l = done ++ rest → rest.length < fuel →
      (∀ s, Ring (p s) (q s) h l → Seg (p s) (q s) a rest h) →
      walk out p h body fuel (T done) (p (T done) a) = .ok (T l) := by
    intro rest
    induction rest with
    | nil =>
      intro done a fuel hl hfuel hseg
      obtain ⟨fuel, rfl⟩ := Nat.exists_eq_add_one_of_ne_zero (Nat.ne_zero_of_lt hfuel)
      rw [walk, if_pos (hseg _ (hring done [] hl)).1, hl, List.append_nil]
    | cons x rest ih =>
      intro done a fuel hl hfuel hseg
      obtain ⟨fuel, rfl⟩ := Nat.exists_eq_add_one_of_ne_zero (Nat.ne_zero_of_lt hfuel)
      have hr := hring done (x :: rest) hl
      have hne : x ≠ h := by
        rintro rfl
        exact (List.nodup_cons.mp hr.nodup).1 (by simp [hl])
      rw [(hseg _ hr).1.1, walk, if_neg hne, hbody done x rest hl]
      exact ih (done ++ [x]) x fuel (by simp [hl]) (by simpa using hfuel) fun s hr => (hseg s hr).2
  exact key l [] h fuel rfl hfuel fun s hr => hr.seg

/-- A loop along the ring in the other direction undoes the work of the first one, if its body
undoes that of the other. -/
theorem walk_ring_undo
    (hring : ∀ done rest, l = done ++ rest → Ring (p (T done)) (q (T done)) h l)
    (hundo : ∀ done x rest, l = done ++ x :: rest → undo (T (done ++ [x])) x = .ok (T done))
    (hfuel : l.length < fuel) :
    walk out q h undo fuel (T l) (q (T l) h) = .ok (T []) := by
  have hrest : ∀ {done rest : List ℕ}, l.reverse = done ++ rest →
      l.take (l.length - done.length) = rest.reverse ∧ l = rest.reverse ++ done.reverse := by
    intro done rest hl
    rw [List.reverse_eq_iff, List.reverse_append] at hl
    refine ⟨?_, hl⟩
    rw [hl, List.take_append_of_le_length (by simp)]
    exact List.take_of_length_le (by simp)
  let B : List ℕ → σ := fun done => T (l.take (l.length - done.length))
  have hwalk : walk out q h undo fuel (B []) (q (B []) h) = .ok (B l.reverse) := by
    refine walk_ring (q := p) (fun done rest hl => ?_) (fun done x rest hl => ?_)
      (by simpa using hfuel)
    · simp only [B]
      rw [(hrest hl).1]
      exact (hring _ _ (hrest hl).2).reverse
    · have hl' : l.reverse = (done ++ [x]) ++ rest := by simpa using hl
      simp only [B]
      rw [(hrest hl).1, (hrest hl').1, List.reverse_cons]
      exact hundo rest.reverse x done.reverse (by simpa using (hrest hl').2)
  simpa [B] using hwalk

end Walk

end Machine
