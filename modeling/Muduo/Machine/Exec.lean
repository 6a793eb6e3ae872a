import Mathlib.Tactic

/-!
# Code with assertions

An `Exec A α` is a piece of code that yields an `α`, fails an assertion named by `A`, or is not
enabled: an event that cannot happen in the current state. `Safe x Q` says that `x` fails no
assertion and that `Q` holds of whatever it yields. The rules below compute `Safe` of a composite
from `Safe` of its parts, so that a proof about a function follows the function's own text.
-/

namespace Machine

universe u
variable {A : Type*} {α β σ : Type u}

/-- Why a piece of code yields nothing. -/
inductive Halt (A : Type*) where
  | disabled : Halt A
  | failed : A → Halt A
  deriving DecidableEq, Repr

abbrev Exec (A α : Type*) := Except (Halt A) α

/-- `assert(p)` of the code. -/
def check (a : A) (p : Prop) [Decidable p] : Exec A Unit :=
  if p then .ok () else .error (.failed a)

/-- A condition of the environment: without `p` the event does not happen. -/
def require (p : Prop) [Decidable p] : Exec A Unit :=
  if p then .ok () else .error .disabled

/-- `x` fails no assertion, and what it yields satisfies `Q`. -/
def Safe (x : Exec A α) (Q : α → Prop) : Prop :=
  match x with
  | .ok a => Q a
  | .error .disabled => True
  | .error (.failed _) => False

/-- `x` yields a value, and that value satisfies `Q`. -/
def Yields (x : Exec A α) (Q : α → Prop) : Prop := ∃ a, x = .ok a ∧ Q a

/-! ### The rules of `Safe` -/

@[simp] lemma safe_ok (a : α) (Q : α → Prop) : Safe (.ok a : Exec A α) Q ↔ Q a := Iff.rfl

@[simp] lemma safe_pure (a : α) (Q : α → Prop) : Safe (pure a : Exec A α) Q ↔ Q a := Iff.rfl

@[simp] lemma safe_failed (a : A) (Q : α → Prop) : Safe (.error (.failed a)) Q ↔ False := Iff.rfl

@[simp] lemma safe_disabled (Q : α → Prop) : Safe (.error .disabled : Exec A α) Q ↔ True := Iff.rfl

@[simp] lemma safe_bind (x : Exec A α) (f : α → Exec A β) (Q : β → Prop) :
    Safe (x >>= f) Q ↔ Safe x fun a => Safe (f a) Q := by
  match x with
  | .ok a => exact Iff.rfl
  | .error .disabled => exact Iff.rfl
  | .error (.failed _) => exact Iff.rfl

@[simp] lemma safe_map (x : Exec A α) (f : α → β) (Q : β → Prop) :
    Safe (f <$> x) Q ↔ Safe x fun a => Q (f a) := by
  match x with
  | .ok a => exact Iff.rfl
  | .error .disabled => exact Iff.rfl
  | .error (.failed _) => exact Iff.rfl

@[simp] lemma safe_check (a : A) (p : Prop) [Decidable p] (Q : Unit → Prop) :
    Safe (check a p) Q ↔ p ∧ Q () := by
  by_cases hp : p <;> simp [check, hp]

@[simp] lemma safe_require (p : Prop) [Decidable p] (Q : Unit → Prop) :
    Safe (require p : Exec A Unit) Q ↔ (p → Q ()) := by
  by_cases hp : p <;> simp [require, hp]

lemma Safe.mono {x : Exec A α} {Q R : α → Prop} (h : Safe x Q) (hQR : ∀ a, Q a → R a) :
    Safe x R := by
  match x with
  | .ok a => exact hQR a h
  | .error .disabled => trivial

lemma Safe.and {x : Exec A α} {Q R : α → Prop} (hQ : Safe x Q) (hR : Safe x R) :
    Safe x fun a => Q a ∧ R a := by
  match x with
  | .ok a => exact ⟨hQ, hR⟩
  | .error .disabled => trivial

/-- A postcondition that depends on a side condition. -/
lemma Safe.and_imp {x : Exec A α} {Q R : α → Prop} {P : Prop} (hQ : Safe x Q)
    (hR : P → Safe x R) : Safe x fun a => Q a ∧ (P → R a) := by
  match x with
  | .ok a => exact ⟨hQ, hR⟩
  | .error .disabled => trivial

lemma Safe.of_ok {x : Exec A α} {Q : α → Prop} {a : α} (h : Safe x Q) (hx : x = .ok a) : Q a := by
  subst hx
  exact h

lemma Safe.and_of_ok {x : Exec A α} {Q R : α → Prop} (hQ : Safe x Q)
    (hR : ∀ a, x = .ok a → R a) : Safe x fun a => Q a ∧ R a := by
  cases x with
  | ok a => exact ⟨hQ, hR a rfl⟩
  | error e =>
    cases e with
    | disabled => trivial
    | failed a => exact hQ

lemma Yields.safe {x : Exec A α} {Q : α → Prop} (h : Yields x Q) : Safe x Q := by
  obtain ⟨a, rfl, ha⟩ := h
  exact ha

/-- A loop over a list: `I l s` relates the elements still to come to the state reached. -/
lemma Safe.foldlM {f : σ → α → Exec A σ} (I : List α → σ → Prop)
    (hstep : ∀ a l s, I (a :: l) s → Safe (f s a) (I l)) :
    ∀ {l : List α} {s : σ}, I l s → Safe (l.foldlM f s) (I [])
  | [], s, h => by simpa using h
  | a :: l, s, h => by
    rw [List.foldlM_cons, safe_bind]
    exact (hstep a l s h).mono fun t ht => Safe.foldlM I hstep ht

/-- Two nested loops are one loop. -/
lemma foldlM_flatMap (f : σ → α → Exec A σ) (g : β → List α) (l : List β) (s : σ) :
    (l.flatMap g).foldlM f s = l.foldlM (fun s b => (g b).foldlM f s) s := by
  induction l generalizing s with
  | nil => rfl
  | cons b l ih => simp [List.foldlM_append, ih]

/-! ### Failures that are allowed -/

/-- `x` fails no assertion outside `F`, and what it yields satisfies `Q`. -/
def SafeUpTo (F : A → Prop) (x : Exec A α) (Q : α → Prop) : Prop :=
  match x with
  | .ok a => Q a
  | .error .disabled => True
  | .error (.failed a) => F a

section

variable {F : A → Prop}

@[simp] lemma safeUpTo_pure (a : α) (Q : α → Prop) :
    SafeUpTo F (pure a : Exec A α) Q ↔ Q a := Iff.rfl

@[simp] lemma safeUpTo_bind (x : Exec A α) (f : α → Exec A β) (Q : β → Prop) :
    SafeUpTo F (x >>= f) Q ↔ SafeUpTo F x fun a => SafeUpTo F (f a) Q := by
  match x with
  | .ok a => exact Iff.rfl
  | .error .disabled => exact Iff.rfl
  | .error (.failed _) => exact Iff.rfl

@[simp] lemma safeUpTo_map (x : Exec A α) (f : α → β) (Q : β → Prop) :
    SafeUpTo F (f <$> x) Q ↔ SafeUpTo F x fun a => Q (f a) := by
  match x with
  | .ok a => exact Iff.rfl
  | .error .disabled => exact Iff.rfl
  | .error (.failed _) => exact Iff.rfl

lemma SafeUpTo.mono {x : Exec A α} {Q R : α → Prop} (h : SafeUpTo F x Q) (hQR : ∀ a, Q a → R a) :
    SafeUpTo F x R := by
  match x with
  | .ok a => exact hQR a h
  | .error .disabled => trivial
  | .error (.failed _) => exact h

lemma SafeUpTo.and_of_ok {x : Exec A α} {Q R : α → Prop} (hQ : SafeUpTo F x Q)
    (hR : ∀ a, x = .ok a → R a) : SafeUpTo F x fun a => Q a ∧ R a := by
  match x with
  | .ok a => exact ⟨hQ, hR a rfl⟩
  | .error .disabled => trivial
  | .error (.failed _) => exact hQ

lemma Yields.safeUpTo {x : Exec A α} {Q : α → Prop} (h : Yields x Q) : SafeUpTo F x Q := by
  obtain ⟨a, rfl, ha⟩ := h
  exact ha

end

/-! ### Code that yields -/

instance Yields.decidable (x : Exec A α) (Q : α → Prop) [DecidablePred Q] :
    Decidable (Yields x Q) :=
  match x with
  | .ok a => decidable_of_iff (Q a) (by simp [Yields])
  | .error _ => isFalse (by simp [Yields])

@[simp] lemma ok_bind (a : α) (f : α → Exec A β) : (.ok a : Exec A α) >>= f = f a := rfl

lemma check_of {a : A} {p : Prop} [Decidable p] (h : p) : check a p = .ok () := if_pos h

lemma check_eq_ok {a : A} {p : Prop} [Decidable p] {u : Unit} : check a p = .ok u ↔ p := by
  by_cases hp : p <;> simp [check, hp]

lemma bind_eq_ok {x : Exec A α} {f : α → Exec A β} {b : β} :
    x >>= f = .ok b ↔ ∃ a, x = .ok a ∧ f a = .ok b := by
  cases x with
  | error e => simp [bind, Except.bind]
  | ok a => simp [bind, Except.bind]

lemma map_eq_ok {x : Exec A α} {f : α → β} {b : β} :
    f <$> x = .ok b ↔ ∃ a, x = .ok a ∧ f a = b := by
  cases x with
  | error e => simp [Functor.map, Except.map]
  | ok a => simp [Functor.map, Except.map]

lemma require_bind_eq_ok {β : Type} {p : Prop} [Decidable p] {f : Unit → Exec A β} {b : β} :
    (require p : Exec A Unit) >>= f = .ok b ↔ p ∧ f () = .ok b := by
  by_cases hp : p
  · simp [require, hp]
  · simp [require, hp, bind, Except.bind]

lemma eq_ok_of_isOk {x : Exec A α} (h : x.isOk = true) : ∃ a, x = .ok a := by
  match x, h with
  | .ok a, _ => exact ⟨a, rfl⟩

/-- `x` does not wait for its environment: it yields or fails. -/
def Enabled (x : Exec A α) : Prop := x ≠ .error .disabled

lemma Safe.yields {x : Exec A α} {Q : α → Prop} (h : Safe x Q) (he : Enabled x) : Yields x Q := by
  match x with
  | .ok a => exact ⟨a, rfl, h⟩
  | .error .disabled => exact absurd rfl he

@[simp] lemma enabled_ok (a : α) : Enabled (.ok a : Exec A α) := nofun

@[simp] lemma enabled_pure (a : α) : Enabled (pure a : Exec A α) := nofun

@[simp] lemma enabled_failed (a : A) : Enabled (.error (.failed a) : Exec A α) := nofun

@[simp] lemma enabled_check (a : A) (p : Prop) [Decidable p] : Enabled (check a p) := by
  by_cases hp : p <;> simp [check, hp]

lemma Enabled.bind {x : Exec A α} {f : α → Exec A β} (hx : Enabled x) (hf : ∀ a, Enabled (f a)) :
    Enabled (x >>= f) := by
  match x with
  | .ok a => exact hf a
  | .error (.failed a) => exact enabled_failed a
  | .error .disabled => exact absurd rfl hx

lemma Enabled.foldlM {f : σ → α → Exec A σ} (hf : ∀ s a, Enabled (f s a)) :
    ∀ (l : List α) (s : σ), Enabled (l.foldlM f s)
  | [], s => enabled_pure s
  | a :: l, s => by
    rw [List.foldlM_cons]
    exact (hf s a).bind fun t => Enabled.foldlM hf l t

/-- The assertion that a piece of code fails, if it fails one. -/
def failure (x : Exec A α) : Option A :=
  match x with
  | .error (.failed a) => some a
  | _ => none

lemma failure_eq_some {x : Exec A α} {a : A} : failure x = some a ↔ x = .error (.failed a) := by
  match x with
  | .ok b => simp [failure]
  | .error .disabled => simp [failure]
  | .error (.failed b) => simp [failure]

end Machine
