import Muduo.Machine.Exec

/-!
# Runs of a machine

A machine is a step function `σ → ε → Exec A σ` on states and events. A run is a list of events
taken one after another, `Along` says of a run that a condition holds of the state and the event at
each of its steps, and `track` adds a history variable that records a run without changing it.

The rule for every safety result is `run_safe`: what one step keeps, every run keeps.
-/

namespace Machine

universe u
variable {A : Type*} {σ ε γ : Type u}

/-- The events `es` taken one after another from `s`. -/
def run (step : σ → ε → Exec A σ) (s : σ) (es : List ε) : Exec A σ := es.foldlM step s

section

variable (step : σ → ε → Exec A σ)

@[simp] lemma run_nil (s : σ) : run step s [] = .ok s := rfl

@[simp] lemma run_cons (s : σ) (e : ε) (es : List ε) :
    run step s (e :: es) = step s e >>= fun t => run step t es := rfl

lemma run_append (s : σ) (es es' : List ε) :
    run step s (es ++ es') = run step s es >>= fun t => run step t es' := List.foldlM_append

/-- `P` holds of the state and the event at each step of the run `es` from `s`. -/
def Along (P : σ → ε → Prop) : σ → List ε → Prop
  | _, [] => True
  | s, e :: es =>
    P s e ∧ match step s e with
      | .ok t => Along P t es
      | .error _ => True

instance Along.decidable (P : σ → ε → Prop) [∀ s e, Decidable (P s e)] :
    ∀ s es, Decidable (Along step P s es)
  | _, [] => inferInstanceAs (Decidable True)
  | s, e :: es =>
    have : Decidable (match step s e with
        | .ok t => Along step P t es
        | .error _ => True) :=
      match step s e with
      | .ok t => Along.decidable P t es
      | .error _ => inferInstanceAs (Decidable True)
    inferInstanceAs (Decidable (_ ∧ _))

variable {step}

lemma Along.head {P : σ → ε → Prop} {s : σ} {e : ε} {es : List ε}
    (h : Along step P s (e :: es)) : P s e := h.1

lemma Along.tail {P : σ → ε → Prop} {s t : σ} {e : ε} {es : List ε}
    (h : Along step P s (e :: es)) (ht : step s e = .ok t) : Along step P t es := by
  have := h.2
  rwa [ht] at this

lemma Along.of_append {P : σ → ε → Prop} {s t : σ} {es es' : List ε}
    (h : Along step P s (es ++ es')) (ht : run step s es = .ok t) : Along step P t es' := by
  induction es generalizing s with
  | nil =>
    cases ht
    exact h
  | cons e es ih =>
    rw [run_cons, bind_eq_ok] at ht
    obtain ⟨u, hu, ht⟩ := ht
    exact ih (h.tail hu) ht

lemma Along.left {P : σ → ε → Prop} {s : σ} {es es' : List ε} (h : Along step P s (es ++ es')) :
    Along step P s es := by
  induction es generalizing s with
  | nil => trivial
  | cons e es ih =>
    refine ⟨h.head, ?_⟩
    match ht : step s e with
    | .ok t => exact ih (h.tail ht)
    | .error _ => trivial

lemma Along.and_forall {P : σ → ε → Prop} {Q : ε → Prop} {s : σ} {es : List ε}
    (h : Along step P s es) (hQ : ∀ e ∈ es, Q e) : Along step (fun s e => P s e ∧ Q e) s es := by
  induction es generalizing s with
  | nil => trivial
  | cons e es ih =>
    refine ⟨⟨h.head, hQ e (List.mem_cons_self ..)⟩, ?_⟩
    match ht : step s e with
    | .ok t => exact ih (h.tail ht) fun e' he' => hQ e' (List.mem_cons_of_mem e he')
    | .error _ => trivial

/-- An invariant that every step meeting `P` keeps holds after every run that meets `P`, and no
assertion fails on the way. -/
theorem run_safe {I : σ → Prop} {P : σ → ε → Prop}
    (hstep : ∀ s e, I s → P s e → Safe (step s e) I) {s : σ} {es : List ε}
    (hs : I s) (hP : Along step P s es) : Safe (run step s es) I := by
  induction es generalizing s with
  | nil => exact hs
  | cons e es ih =>
    rw [run_cons, safe_bind]
    have hse := hstep s e hs hP.head
    match ht : step s e, hse with
    | .ok t, h => exact ih h (hP.tail ht)
    | .error .disabled, _ => trivial

lemma along_of_forall {P : σ → ε → Prop} {es : List ε} (h : ∀ e ∈ es, ∀ s, P s e) (s : σ) :
    Along step P s es := by
  induction es generalizing s with
  | nil => trivial
  | cons e es ih =>
    refine ⟨h e (List.mem_cons_self ..) s, ?_⟩
    match step s e with
    | .ok t => exact ih (fun e' he' => h e' (List.mem_cons_of_mem e he')) t
    | .error _ => trivial

lemma along_true (s : σ) (es : List ε) : Along step (fun _ _ => True) s es :=
  along_of_forall (fun _ _ _ => trivial) s

/-- The rule for runs without a condition on their steps. -/
theorem run_invariant {I : σ → Prop} (hstep : ∀ s e, I s → Safe (step s e) I) {s : σ}
    (hs : I s) (es : List ε) : Safe (run step s es) I :=
  run_safe (fun s e h _ => hstep s e h) hs (along_true s es)

/-- The rule for runs that may fail: whatever state they reach satisfies the invariant. -/
theorem run_reaches_along {I : σ → Prop} {P : σ → ε → Prop}
    (hstep : ∀ s e t, I s → P s e → step s e = .ok t → I t) {s t : σ} {es : List ε} (hs : I s)
    (hP : Along step P s es) (h : run step s es = .ok t) : I t := by
  induction es generalizing s with
  | nil =>
    cases h
    exact hs
  | cons e es ih =>
    rw [run_cons, bind_eq_ok] at h
    obtain ⟨u, hu, h⟩ := h
    exact ih (hstep s e u hs hP.head hu) (hP.tail hu) h

theorem run_reaches {I : σ → Prop} (hstep : ∀ s e t, I s → step s e = .ok t → I t) {s t : σ}
    (hs : I s) {es : List ε} (h : run step s es = .ok t) : I t :=
  run_reaches_along (fun s e t hs _ => hstep s e t hs) hs (along_true s es) h

/-- The rule for runs that are good if and only if `P` holds at each step: `I` is kept by the steps
at which `P` holds, the others lead to `B`, and there is no way from `B` to a good state. -/
theorem run_yields_iff {I B G : σ → Prop} {P : σ → ε → Prop}
    (hkeeps : ∀ s e, I s → P s e → Safe (step s e) I)
    (hleaves : ∀ s e t, I s → ¬ P s e → step s e = .ok t → B t)
    (hstays : ∀ s e t, B s → step s e = .ok t → B t) (hgood : ∀ s, I s → G s)
    (hbad : ∀ s, B s → ¬ G s) {s : σ} (hs : I s) {es : List ε} (he : Enabled (run step s es)) :
    Yields (run step s es) G ↔ Along step P s es := by
  refine ⟨fun h => ?_, fun hP => ((run_safe hkeeps hs hP).mono hgood).yields he⟩
  clear he
  induction es generalizing s with
  | nil => trivial
  | cons e es ih =>
    obtain ⟨t, ht, hG⟩ := h
    rw [run_cons, bind_eq_ok] at ht
    obtain ⟨u, hu, hrun⟩ := ht
    by_cases hP : P s e
    · refine ⟨hP, ?_⟩
      rw [hu]
      exact ih ((hkeeps s e hs hP).of_ok hu) ⟨t, hrun, hG⟩
    · exact absurd hG (hbad t (run_reaches hstays (hleaves s e u hs hP hu) hrun))

/-- The rule for runs that may fail the assertions in `F`. -/
theorem run_safeUpTo {F : A → Prop} {I : σ → Prop}
    (hstep : ∀ s e, I s → SafeUpTo F (step s e) I) {s : σ} (hs : I s) (es : List ε) :
    SafeUpTo F (run step s es) I := by
  induction es generalizing s with
  | nil => exact hs
  | cons e es ih =>
    rw [run_cons, safeUpTo_bind]
    exact (hstep s e hs).mono fun t ht => ih ht

/-- The rule for runs each of whose steps yields. -/
theorem run_yields {I : σ → Prop} {P : σ → ε → Prop}
    (hstep : ∀ s e, I s → P s e → Yields (step s e) I) {s : σ} {es : List ε}
    (hs : I s) (hP : Along step P s es) : Yields (run step s es) I := by
  induction es generalizing s with
  | nil => exact ⟨s, rfl, hs⟩
  | cons e es ih =>
    obtain ⟨t, ht, hI⟩ := hstep s e hs hP.head
    rw [run_cons, ht, ok_bind]
    exact ih hI (hP.tail ht)

end

/-! ### What holds all the way -/

section

variable {step : σ → ε → Exec A σ} {I G : σ → Prop} {C P : σ → ε → Prop} {s : σ} {es : List ε}

/-- `G` holds of every state on the way. -/
def Always (step : σ → ε → Exec A σ) (G : σ → Prop) (s : σ) (es : List ε) : Prop :=
  ∀ es', es' <+: es → ∀ t, run step s es' = .ok t → G t

lemma Always.tail {t : σ} {e : ε} (h : Always step G s (e :: es)) (ht : step s e = .ok t) :
    Always step G t es := by
  intro es' hes' u hu
  refine h (e :: es') ((List.prefix_cons_inj e).mpr hes') u ?_
  rw [run_cons, ht, ok_bind, hu]

lemma Always.first {t : σ} {e : ε} (h : Always step G s (e :: es)) (ht : step s e = .ok t) : G t :=
  h.tail ht [] List.nil_prefix t rfl

lemma Along.imp (hstep : ∀ s e t, I s → C s e → step s e = .ok t → I t)
    (himp : ∀ s e, I s → C s e → P s e) (hs : I s) (h : Along step C s es) :
    Along step P s es := by
  induction es generalizing s with
  | nil => trivial
  | cons e es ih =>
    refine ⟨himp s e hs h.head, ?_⟩
    match ht : step s e with
    | .ok t => exact ih (hstep s e t hs h.head ht) (h.tail ht)
    | .error _ => trivial

/-- A condition on the steps that keeps `G`, and without which a step leads out of `G`, is what it
takes for `G` to hold all the way. -/
theorem always_iff_along (hG : ∀ s, I s → G s)
    (hstep : ∀ s e t, I s → C s e → step s e = .ok t → I t)
    (hbad : ∀ s e, I s → ¬ C s e → ∃ t, step s e = .ok t ∧ ¬ G t) (hs : I s) :
    Always step G s es ↔ Along step C s es := by
  constructor
  · intro h
    induction es generalizing s with
    | nil => trivial
    | cons e es ih =>
      have hC : C s e := by
        by_contra hC
        obtain ⟨t, ht, hGt⟩ := hbad s e hs hC
        exact hGt (h.first ht)
      refine ⟨hC, ?_⟩
      match ht : step s e with
      | .ok t => exact ih (hstep s e t hs hC ht) (h.tail ht)
      | .error _ => trivial
  · rintro h es' ⟨es'', rfl⟩ t ht
    exact hG t (run_reaches_along hstep hs h.left ht)

end

/-! ### Runs of two machines

The condition `I` is on a state and the events that are still to come. -/

section

variable {τ : Type u} {step : σ → ε → Exec A σ} {step' : τ → ε → Exec A τ}
  {I : σ → List ε → Prop} {s t : σ} {es : List ε}

/-- What a step keeps of the events to come holds at the end of them. -/
theorem run_uses (hstep : ∀ s e es t, I s (e :: es) → step s e = .ok t → I t es) (hs : I s es)
    (h : run step s es = .ok t) : I t [] := by
  induction es generalizing s with
  | nil =>
    cases h
    exact hs
  | cons e es ih =>
    rw [run_cons, bind_eq_ok] at h
    obtain ⟨u, hu, h⟩ := h
    exact ih (hstep s e es u hs hu) h

/-- A map that commutes with the steps commutes with the runs. -/
theorem run_map {f : σ → τ} (hmap : ∀ s e es, I s (e :: es) → step' (f s) e = f <$> step s e)
    (hstep : ∀ s e es t, I s (e :: es) → step s e = .ok t → I t es) (hs : I s es) :
    run step' (f s) es = f <$> run step s es := by
  induction es generalizing s with
  | nil => rfl
  | cons e es ih =>
    rw [run_cons, run_cons, hmap s e es hs]
    match ht : step s e with
    | .error _ => rfl
    | .ok t => exact ih (hstep s e es t hs ht)

end

/-! ### Following an abstract machine

The abstract machine `f` takes every event. The relation `R` between the two states is kept by each
step, so it holds after every run. -/

section

variable {α : Type u} {step : σ → ε → Exec A σ} {f : α → ε → α} {R : σ → α → Prop}
  {P : σ → ε → Prop}

theorem run_follows
    (hstep : ∀ s q e, R s q → P s e → Safe (step s e) fun t => R t (f q e)) {s : σ} {q : α}
    {es : List ε} (hs : R s q) (hP : Along step P s es) :
    Safe (run step s es) fun t => R t (es.foldl f q) := by
  induction es generalizing s q with
  | nil => exact hs
  | cons e es ih =>
    rw [run_cons, safe_bind]
    have hse := hstep s q e hs hP.head
    match ht : step s e, hse with
    | .ok t, h => exact ih h (hP.tail ht)
    | .error .disabled, _ => trivial

theorem run_follows_yields
    (hstep : ∀ s q e, R s q → P s e → Yields (step s e) fun t => R t (f q e)) {s : σ} {q : α}
    {es : List ε} (hs : R s q) (hP : Along step P s es) :
    Yields (run step s es) fun t => R t (es.foldl f q) := by
  induction es generalizing s q with
  | nil => exact ⟨s, rfl, hs⟩
  | cons e es ih =>
    obtain ⟨t, ht, hR⟩ := hstep s q e hs hP.head
    rw [run_cons, ht, ok_bind]
    exact ih hR (hP.tail ht)

/-- The events so far are what an invariant may speak of. -/
theorem run_history {R : σ → List ε → Prop}
    (hstep : ∀ s es e, R s es → P s e → Safe (step s e) fun t => R t (es ++ [e])) {s : σ}
    {es : List ε} (hs : R s []) (hP : Along step P s es) :
    Safe (run step s es) fun t => R t es := by
  have hfollows := run_follows (f := fun es e => es ++ [e]) hstep hs hP
  have hes : es.foldl (fun es e => es ++ [e]) [] = es := by
    rw [← List.flatMap_eq_foldl, List.flatMap_singleton']
  rwa [hes] at hfollows

end

/-! ### History variables -/

/-- The machine with a history: `note` reads the state and the event of each step that is taken. -/
def track (step : σ → ε → Exec A σ) (note : σ → ε → γ → γ) (p : σ × γ) (e : ε) :
    Exec A (σ × γ) := do
  let t ← step p.1 e
  return (t, note p.1 e p.2)

lemma safe_track {step : σ → ε → Exec A σ} {note : σ → ε → γ → γ} {s : σ} {g : γ} {e : ε}
    {Q : σ × γ → Prop} :
    Safe (track step note (s, g) e) Q ↔ Safe (step s e) fun t => Q (t, note s e g) := by
  simp [track]

lemma track_eq_ok {step : σ → ε → Exec A σ} {note : σ → ε → γ → γ} {s t : σ} {g g' : γ} {e : ε} :
    track step note (s, g) e = .ok (t, g') ↔ step s e = .ok t ∧ g' = note s e g := by
  rw [track, bind_eq_ok]
  constructor
  · rintro ⟨u, hu, h⟩
    cases h
    exact ⟨hu, rfl⟩
  · rintro ⟨hu, rfl⟩
    exact ⟨t, hu, rfl⟩

/-! ### Runs that come to an end -/

/-- `I` is an invariant, and `P` tells the events that lower the measure. -/
theorem run_length_le {step : σ → ε → Exec A σ} {I : σ → Prop} {P : ε → Prop} {μ : σ → ℕ}
    (hstep : ∀ s e t, I s → P e → step s e = .ok t → I t ∧ μ t < μ s) {s t : σ} {es : List ε}
    (hs : I s) (hP : ∀ e ∈ es, P e) (h : run step s es = .ok t) :
    I t ∧ es.length + μ t ≤ μ s := by
  induction es generalizing s with
  | nil =>
    cases h
    exact ⟨hs, by simp⟩
  | cons e es ih =>
    rw [run_cons, bind_eq_ok] at h
    obtain ⟨u, hu, h⟩ := h
    obtain ⟨hI, hlt⟩ := hstep s e u hs (hP e (List.mem_cons_self ..)) hu
    obtain ⟨ht, hle⟩ := ih hI (fun e' he' => hP e' (List.mem_cons_of_mem e he')) h
    rw [List.length_cons]
    exact ⟨ht, by omega⟩

end Machine
