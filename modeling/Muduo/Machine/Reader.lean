import Muduo.Machine.Exec

/-!
# Readers

A `Reader A ε δ α` reads bytes, updates a record of type `δ`, and returns an `α` or throws an `ε`.
What it did to the record before a throw stays done. `Returns` is the run without a throw, and has
one rule for each construct, so that the inputs a reader accepts are computed from its text. A
reader `Decodes` a format if it accepts the codes of the format's items and no other input.
-/

namespace Machine

variable {A ε δ α β : Type}

/-- What is left of the input, and the record. -/
@[ext] structure Input (δ : Type) where
  rest : List UInt8
  data : δ
  deriving DecidableEq

abbrev Reader (A ε δ α : Type) := ExceptT ε (StateT (Input δ) (Exec A)) α

namespace Reader

/-- The run from a state. -/
def exec (x : Reader A ε δ α) (s : Input δ) : Exec A (Except ε α × Input δ) := x.run.run s

/-- `fread` of `n` bytes, which must all be there. -/
def fread (n : ℕ) (e : ε) : Reader A ε δ (List UInt8) := do
  let s ← get
  set { s with rest := s.rest.drop n }
  if n ≤ s.rest.length then pure (s.rest.take n) else throw e

def throwIf (p : Prop) [Decidable p] (e : ε) : Reader A ε δ Unit :=
  if p then throw e else return

/-- Code that does not read. -/
def lift (x : Exec A α) : Reader A ε δ α := liftM x

def data : Reader A ε δ δ := return (← get).data

def modifyData (f : δ → δ) : Reader A ε δ Unit := modify fun s => { s with data := f s.data }

/-- The loop that reads `n` times. -/
def times (x : Reader A ε δ α) : ℕ → Reader A ε δ (List α)
  | 0 => return []
  | n + 1 => do
    let a ← x
    return a :: (← x.times n)

variable {s s' : Input δ} {e : ε} {a : α} {x : Reader A ε δ α} {f : α → Reader A ε δ β}

/-! ### One run -/

lemma exec_pure : (pure a : Reader A ε δ α).exec s = .ok (.ok a, s) := rfl

lemma exec_throw : (throw e : Reader A ε δ α).exec s = .ok (.error e, s) := rfl

lemma exec_bind_eq_ok {r : Except ε β} :
    (x >>= f).exec s = .ok (r, s') ↔
      (∃ a s₁, x.exec s = .ok (.ok a, s₁) ∧ (f a).exec s₁ = .ok (r, s')) ∨
      ∃ e, r = .error e ∧ x.exec s = .ok (.error e, s') := by
  have hbind : (x >>= f).exec s = x.exec s >>= fun y =>
      match y with
      | (.ok a, s₁) => (f a).exec s₁
      | (.error e, s₁) => .ok (.error e, s₁) := by
    show Except.bind _ _ = Except.bind _ _
    congr 1
    funext y
    obtain ⟨_ | a, s₁⟩ := y <;> rfl
  rw [hbind, bind_eq_ok]
  constructor
  · rintro ⟨⟨e | a, s₁⟩, hx, hf⟩
    · cases hf
      exact .inr ⟨e, rfl, hx⟩
    · exact .inl ⟨a, s₁, hx, hf⟩
  · rintro (⟨a, s₁, hx, hf⟩ | ⟨e, rfl, hx⟩)
    · exact ⟨_, hx, hf⟩
    · exact ⟨_, hx, rfl⟩

lemma exec_lift_eq_ok {y : Exec A α} {r : Except ε α} :
    (lift y : Reader A ε δ α).exec s = .ok (r, s') ↔ ∃ a, y = .ok a ∧ r = .ok a ∧ s = s' := by
  cases y with
  | error h => simp [show (lift (.error h) : Reader A ε δ α).exec s = .error h from rfl]
  | ok a =>
    rw [show (lift (.ok a) : Reader A ε δ α).exec s = .ok (.ok a, s) from rfl]
    simp [eq_comm]

lemma exec_data : (data : Reader A ε δ δ).exec s = .ok (.ok s.data, s) := rfl

lemma exec_modifyData {g : δ → δ} :
    (modifyData g : Reader A ε δ Unit).exec s = .ok (.ok (), { s with data := g s.data }) := rfl

lemma exec_throwIf {p : Prop} [Decidable p] :
    (throwIf p e : Reader A ε δ Unit).exec s = .ok (if p then .error e else .ok (), s) := by
  by_cases hp : p
  · rw [throwIf, if_pos hp, if_pos hp, exec_throw]
  · rw [throwIf, if_neg hp, if_neg hp, exec_pure]

lemma exec_fread {n : ℕ} : (fread n e : Reader A ε δ (List UInt8)).exec s =
    .ok (if n ≤ s.rest.length then .ok (s.rest.take n) else .error e,
      { s with rest := s.rest.drop n }) := by
  have hrun : (fread n e : Reader A ε δ (List UInt8)).exec s =
      (if n ≤ s.rest.length then pure (s.rest.take n) else throw e : Reader A ε δ _).exec
        { s with rest := s.rest.drop n } := rfl
  rw [hrun]
  split_ifs with hn
  · rw [exec_pure]
  · rw [exec_throw]

/-! ### Runs without a throw -/

def Returns (x : Reader A ε δ α) (s : Input δ) (a : α) (s' : Input δ) : Prop :=
  x.exec s = .ok (.ok a, s')

@[simp] lemma returns_pure {b : α} :
    Returns (pure a : Reader A ε δ α) s b s' ↔ a = b ∧ s = s' := by
  simp [Returns, exec_pure]

@[simp] lemma returns_bind {b : β} :
    Returns (x >>= f) s b s' ↔ ∃ a s₁, Returns x s a s₁ ∧ Returns (f a) s₁ b s' := by
  simp [Returns, exec_bind_eq_ok]

@[simp] lemma returns_lift {y : Exec A α} :
    Returns (lift y : Reader A ε δ α) s a s' ↔ y = .ok a ∧ s = s' := by
  simp [Returns, exec_lift_eq_ok]

@[simp] lemma returns_data {d : δ} :
    Returns (data : Reader A ε δ δ) s d s' ↔ s.data = d ∧ s = s' := by
  simp [Returns, exec_data]

@[simp] lemma returns_modifyData {g : δ → δ} {u : Unit} :
    Returns (modifyData g : Reader A ε δ Unit) s u s' ↔ { s with data := g s.data } = s' := by
  simp [Returns, exec_modifyData]

@[simp] lemma returns_throwIf {p : Prop} [Decidable p] {u : Unit} :
    Returns (throwIf p e : Reader A ε δ Unit) s u s' ↔ ¬ p ∧ s = s' := by
  by_cases hp : p <;> simp [Returns, exec_throwIf, hp]

lemma returns_fread {n : ℕ} {l : List UInt8} :
    Returns (fread n e : Reader A ε δ (List UInt8)) s l s' ↔
      l.length = n ∧ s.rest = l ++ s'.rest ∧ s'.data = s.data := by
  rw [Returns, exec_fread]
  constructor
  · intro h
    split_ifs at h with hn
    · cases h
      exact ⟨List.length_take_of_le hn, (List.take_append_drop n s.rest).symm, rfl⟩
    · cases h
  · rintro ⟨rfl, hrest, hdata⟩
    obtain ⟨rest, data⟩ := s'
    dsimp only at hrest hdata
    rw [hrest, if_pos (by simp), List.take_left, List.drop_left, hdata]

/-! ### Formats -/

/-- The reader accepts the code of an item, returns its value, and updates the record. -/
def Decodes (x : Reader A ε δ α) (code : β → List UInt8) (value : β → α) (update : δ → β → δ) :
    Prop :=
  ∀ s a s', Returns x s a s' ↔
    ∃ b, s.rest = code b ++ s'.rest ∧ a = value b ∧ s'.data = update s.data b

lemma Decodes.times {code : β → List UInt8} {value : β → α} {update : δ → β → δ}
    (h : Decodes x code value update) {n : ℕ} {l : List α} :
    Returns (x.times n) s l s' ↔ ∃ bs : List β, bs.length = n ∧
      s.rest = bs.flatMap code ++ s'.rest ∧ l = bs.map value ∧
        s'.data = bs.foldl update s.data := by
  induction n generalizing s s' l with
  | zero =>
    rw [Reader.times, returns_pure]
    constructor
    · rintro ⟨rfl, rfl⟩
      exact ⟨[], rfl, rfl, rfl, rfl⟩
    · rintro ⟨bs, hlen, hrest, rfl, hdata⟩
      obtain rfl := List.length_eq_zero_iff.mp hlen
      exact ⟨rfl, Input.ext hrest hdata.symm⟩
  | succ n ih =>
    rw [Reader.times]
    simp only [returns_bind, returns_pure, ih, h _ _ _]
    constructor
    · rintro ⟨a, s₁, ⟨b, hb, rfl, hs₁⟩, l', s₂, ⟨bs, rfl, hbs, rfl, hs₂⟩, rfl, rfl⟩
      exact ⟨b :: bs, rfl, by simp [hb, hbs], rfl, by simp [hs₁, hs₂]⟩
    · rintro ⟨bs, hlen, hrest, rfl, hdata⟩
      obtain ⟨b, bs, rfl⟩ := List.exists_of_length_succ bs hlen
      exact ⟨_, ⟨bs.flatMap code ++ s'.rest, update s.data b⟩,
        ⟨b, by simpa using hrest, rfl, rfl⟩, _, s',
        ⟨bs, by simpa using hlen, rfl, rfl, hdata⟩, rfl, rfl⟩

/-! ### Throws -/

/-- `x` keeps `I`, also if it throws. -/
def Keeps (I : δ → Prop) (x : Reader A ε δ α) : Prop :=
  ∀ s r s', x.exec s = .ok (r, s') → I s.data → I s'.data

/-- If `x` throws, `I` is kept up to there. -/
def ThrowsIn (I : δ → Prop) (x : Reader A ε δ α) : Prop :=
  ∀ s e s', x.exec s = .ok (.error e, s') → I s.data → I s'.data

variable {I : δ → Prop}

lemma Keeps.bind (hx : Keeps I x) (hf : ∀ a, Keeps I (f a)) : Keeps I (x >>= f) := by
  intro s r s' h hs
  rcases exec_bind_eq_ok.mp h with ⟨a, s₁, hx', hf'⟩ | ⟨e, -, hx'⟩
  · exact hf a s₁ r s' hf' (hx s _ s₁ hx' hs)
  · exact hx s _ s' hx' hs

lemma Keeps.bind_throwsIn (hx : Keeps I x) (hf : ∀ a, ThrowsIn I (f a)) :
    ThrowsIn I (x >>= f) := by
  intro s e s' h hs
  rcases exec_bind_eq_ok.mp h with ⟨a, s₁, hx', hf'⟩ | ⟨e, -, hx'⟩
  · exact hf a s₁ e s' hf' (hx s _ s₁ hx' hs)
  · exact hx s _ s' hx' hs

lemma keeps_pure : Keeps I (pure a : Reader A ε δ α) := by
  rintro s r s' ⟨⟩ hs
  exact hs

lemma keeps_lift (y : Exec A α) : Keeps I (lift y : Reader A ε δ α) := by
  intro s r s' h hs
  obtain ⟨-, -, -, rfl⟩ := exec_lift_eq_ok.mp h
  exact hs

lemma keeps_data : Keeps I (data : Reader A ε δ δ) := by
  rintro s r s' ⟨⟩ hs
  exact hs

lemma keeps_fread (n : ℕ) (e : ε) : Keeps I (fread n e : Reader A ε δ (List UInt8)) := by
  intro s r s' h hs
  rw [exec_fread] at h
  cases h
  exact hs

lemma keeps_throwIf (p : Prop) [Decidable p] (e : ε) :
    Keeps I (throwIf p e : Reader A ε δ Unit) := by
  intro s r s' h hs
  rw [exec_throwIf] at h
  cases h
  exact hs

lemma keeps_modifyData {g : δ → δ} (hg : ∀ d, I d → I (g d)) :
    Keeps I (modifyData g : Reader A ε δ Unit) := by
  rintro s r s' ⟨⟩ hs
  exact hg _ hs

lemma throwsIn_modifyData (g : δ → δ) : ThrowsIn I (modifyData g : Reader A ε δ Unit) := by
  rintro s e s' ⟨⟩

lemma Keeps.times (hx : Keeps I x) (n : ℕ) : Keeps I (x.times n) := by
  induction n with
  | zero => exact keeps_pure
  | succ n ih => exact hx.bind fun a => ih.bind fun l => keeps_pure

lemma keeps_forM {γ : Type} {g : γ → Reader A ε δ Unit} (hg : ∀ c, Keeps I (g c)) (l : List γ) :
    Keeps I (forM l g) := by
  induction l with
  | nil => exact keeps_pure
  | cons c l ih => exact (hg c).bind fun _ => ih

end Reader

end Machine
