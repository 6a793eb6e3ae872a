import Muduo.Machine.Exec

/-!
# Loops

A loop runs its body until the body says to stop. The fuel of `iterate` is there for the definition
only: where a measure decreases with every round, `loop` has enough of it and satisfies the equation
of an unbounded loop.
-/

namespace Machine

universe u
variable {A : Type*} {σ : Type u}

/-- What a round of a loop leaves behind. -/
inductive Round (σ : Type u) where
  | stop (s : σ)
  | again (s : σ)

def Round.state : Round σ → σ
  | .stop s | .again s => s

/-- Go on with `k`, unless the round said to stop. -/
def Round.next (k : σ → Exec A σ) : Round σ → Exec A σ
  | .stop s => .ok s
  | .again s => k s

/-- `Q` holds if the loop stops, and `I` if it goes on. -/
def Round.Leaves (Q I : σ → Prop) : Round σ → Prop
  | .stop s => Q s
  | .again s => I s

/-- At most `n` rounds; `out` if they are not enough. -/
def iterate (out : A) (body : σ → Exec A (Round σ)) : ℕ → σ → Exec A σ
  | 0, _ => .error (.failed out)
  | n + 1, s => body s >>= Round.next (iterate out body n)

def loop (out : A) (body : σ → Exec A (Round σ)) (μ : σ → ℕ) (s : σ) : Exec A σ :=
  iterate out body (μ s + 1) s

section

variable {out : A} {body : σ → Exec A (Round σ)} {μ : σ → ℕ}

/-- Fuel above the measure makes no difference. -/
lemma iterate_congr (hμ : ∀ s t, body s = .ok (.again t) → μ t < μ s) {n m : ℕ} {s : σ}
    (hn : μ s < n) (hm : μ s < m) : iterate out body n s = iterate out body m s := by
  induction n generalizing m s with
  | zero => exact absurd hn (Nat.not_lt_zero _)
  | succ n ih =>
    obtain ⟨m, rfl⟩ : ∃ k, m = k + 1 := ⟨m - 1, by omega⟩
    rw [iterate, iterate]
    match hs : body s with
    | .error e => rfl
    | .ok (.stop t) => rfl
    | .ok (.again t) =>
      have hlt := hμ s t hs
      exact ih (by omega) (by omega)

theorem loop_eq (hμ : ∀ s t, body s = .ok (.again t) → μ t < μ s) (s : σ) :
    loop out body μ s = body s >>= Round.next (loop out body μ) := by
  rw [loop, iterate]
  match hs : body s with
  | .error e => rfl
  | .ok (.stop t) => rfl
  | .ok (.again t) =>
    have hlt := hμ s t hs
    exact iterate_congr hμ hlt (Nat.lt_succ_self _)

/-- A loop whose rounds all yield comes to its end. -/
theorem loop_yields (hμ : ∀ s t, body s = .ok (.again t) → μ t < μ s) {I Q : σ → Prop}
    (hbody : ∀ s, I s → Yields (body s) (Round.Leaves Q I)) {s : σ} (hs : I s) :
    Yields (loop out body μ s) Q := by
  induction hn : μ s using Nat.strong_induction_on generalizing s with
  | _ n ih =>
    obtain ⟨r, hr, hround⟩ := hbody s hs
    rw [loop_eq hμ, hr, ok_bind]
    match r, hround with
    | .stop t, h => exact ⟨t, rfl, h⟩
    | .again t, h => exact ih (μ t) (hn ▸ hμ s t hr) h rfl

/-- An invariant of the rounds holds of what the loop yields, and the loop fails nothing that its
rounds do not fail. -/
theorem loop_safeUpTo (hμ : ∀ s t, body s = .ok (.again t) → μ t < μ s) {I Q : σ → Prop}
    {F : A → Prop}
    (hbody : ∀ s, I s → SafeUpTo F (body s) (Round.Leaves Q I)) {s : σ} (hs : I s) :
    SafeUpTo F (loop out body μ s) Q := by
  induction hn : μ s using Nat.strong_induction_on generalizing s with
  | _ n ih =>
    rw [loop_eq hμ, safeUpTo_bind]
    have hround := hbody s hs
    match hbs : body s, hround with
    | .error .disabled, _ => trivial
    | .error (.failed a), h => exact h
    | .ok (.stop t), h => exact h
    | .ok (.again t), h => exact ih (μ t) (hn ▸ hμ s t hbs) h rfl

end

end Machine
