import Muduo.Machine.Run

/-!
# Two pieces of code side by side

`Agree R x y` says that `x` and `y` end the same way: both yield, and `R` relates what they yield,
or both fail an assertion, or neither is enabled. Which assertion fails is not compared.

`run_agree` is the rule for two machines that take the same events: a relation that every step
keeps, under a condition on the steps of the first machine, is kept by every run.
-/

namespace Machine

universe u
variable {A B C : Type*} {α β γ ε : Type u}

def Agree (R : α → β → Prop) (x : Exec A α) (y : Exec B β) : Prop :=
  match x, y with
  | .ok a, .ok b => R a b
  | .error .disabled, .error .disabled => True
  | .error (.failed _), .error (.failed _) => True
  | _, _ => False

@[simp] lemma agree_ok {R : α → β → Prop} {a : α} {b : β} :
    Agree R (.ok a : Exec A α) (.ok b : Exec B β) ↔ R a b := Iff.rfl

lemma Agree.mono {R S : α → β → Prop} {x : Exec A α} {y : Exec B β} (h : Agree R x y)
    (hRS : ∀ a b, R a b → S a b) : Agree S x y := by
  match x, y, h with
  | .ok a, .ok b, h => exact hRS a b h
  | .error .disabled, .error .disabled, _ => trivial
  | .error (.failed _), .error (.failed _), _ => trivial

/-- Two pieces of code that both agree with a third agree with each other. -/
lemma Agree.comp {R : α → β → Prop} {S : α → γ → Prop} {x : Exec A α} {y : Exec B β}
    {z : Exec C γ} (hy : Agree R x y) (hz : Agree S x z) :
    Agree (fun b c => ∃ a, R a b ∧ S a c) y z := by
  match x, y, z, hy, hz with
  | .ok a, .ok b, .ok c, hy, hz => exact ⟨a, hy, hz⟩
  | .error .disabled, .error .disabled, .error .disabled, _, _ => trivial
  | .error (.failed _), .error (.failed _), .error (.failed _), _, _ => trivial

/-- A relation between the states of two machines that every step meeting `P` keeps. -/
theorem run_agree {R : α → β → Prop} {P : α → ε → Prop} {step : α → ε → Exec A α}
    {step' : β → ε → Exec B β}
    (hstep : ∀ s t e, R s t → P s e → Agree R (step s e) (step' t e)) {s : α} {t : β}
    {es : List ε} (hs : R s t) (hP : Along step P s es) :
    Agree R (run step s es) (run step' t es) := by
  induction es generalizing s t with
  | nil => exact hs
  | cons e es ih =>
    rw [run_cons, run_cons]
    have h := hstep s t e hs hP.head
    match hu : step s e, step' t e, h with
    | .ok u, .ok v, h => exact ih h (hP.tail hu)
    | .error .disabled, .error .disabled, _ => trivial
    | .error (.failed _), .error (.failed _), _ => trivial

end Machine
