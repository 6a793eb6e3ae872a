import Muduo.Machine.Run

/-!
# Input that arrives in chunks

A reader takes the bytes that it has in its buffer and leaves those it cannot use yet. If reading a
part first and the rest later comes to the same as reading all at once, then it does not matter how
a stream is cut into chunks.
-/

namespace Machine

universe u
variable {A β σ : Type u}

/-- A chunk is put behind the bytes that are left, and the reader is called. -/
def feed (read : σ → List β → Exec A (σ × List β)) (p : σ × List β) (chunk : List β) :
    Exec A (σ × List β) :=
  read p.1 (p.2 ++ chunk)

/-- `Ok s l` is a condition on the input `l` that is met by every first part of it. -/
theorem run_feed (read : σ → List β → Exec A (σ × List β)) (Ok : σ → List β → Prop)
    (hpart : ∀ s x y, Ok s (x ++ y) → Ok s x)
    (hsplit : ∀ s x y, y ≠ [] → Ok s (x ++ y) →
      read s (x ++ y) = read s x >>= fun p => read p.1 (p.2 ++ y))
    {chunks : List (List β)} (hchunks : ∀ c ∈ chunks, c ≠ []) {s : σ} {x : List β}
    (hok : Ok s (x ++ chunks.flatten)) :
    (read s x >>= fun p => run (feed read) p chunks) = read s (x ++ chunks.flatten) := by
  induction chunks generalizing x with
  | nil =>
    rw [List.flatten_nil, List.append_nil]
    exact bind_pure _
  | cons c chunks ih =>
    rw [List.flatten_cons, ← List.append_assoc] at hok ⊢
    have hc : c ≠ [] := hchunks c (List.mem_cons_self ..)
    rw [← ih (fun c' hc' => hchunks c' (List.mem_cons_of_mem c hc')) hok,
      hsplit s x c hc (hpart _ _ _ hok), bind_assoc]
    rfl

end Machine
