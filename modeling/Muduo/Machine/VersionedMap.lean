import Mathlib.Tactic

/-!
# Maps whose entries carry the number of their update

The updates of a `VersionedMap` are numbered, and every entry carries the number of the update that
wrote it. An id that is no longer the id of a key never comes back: this is what a compare-and-swap
on ids rests on.
-/

namespace Machine

structure VersionedMap (κ V : Type*) where
  /-- The id and the value at a key. -/
  entry : κ → Option (ℕ × V)
  /-- The number of the last update. -/
  last : ℕ
  id_le_last : ∀ {k e}, entry k = some e → e.1 ≤ last
  id_injective : ∀ {k k' e e'}, entry k = some e → entry k' = some e' → e.1 = e'.1 → k = k'

namespace VersionedMap

variable {κ V : Type*}

def empty : VersionedMap κ V := ⟨fun _ => none, 0, nofun, nofun⟩

variable [DecidableEq κ] (m : VersionedMap κ V)

/-- Write `v` at `k`, under a new id. -/
def put (k : κ) (v : V) : VersionedMap κ V where
  entry := Function.update m.entry k (some (m.last + 1, v))
  last := m.last + 1
  id_le_last := by
    intro k' e he
    rw [Function.update_apply] at he
    split at he
    · cases he
      exact le_refl _
    · exact (m.id_le_last he).trans (Nat.le_succ _)
  id_injective := by
    intro k₁ k₂ e₁ e₂ h₁ h₂ hid
    rw [Function.update_apply] at h₁ h₂
    -- an id that was there before is not the new one
    split at h₁ <;> split at h₂
    · next hk₁ hk₂ => rw [hk₁, hk₂]
    · cases h₁
      have := m.id_le_last h₂
      dsimp only at hid
      omega
    · cases h₂
      have := m.id_le_last h₁
      dsimp only at hid
      omega
    · exact m.id_injective h₁ h₂ hid

def remove (k : κ) : VersionedMap κ V where
  entry := Function.update m.entry k none
  last := m.last
  id_le_last := by
    intro k' e he
    rw [Function.update_apply] at he
    split at he
    · cases he
    · exact m.id_le_last he
  id_injective := by
    intro k₁ k₂ e₁ e₂ h₁ h₂ hid
    rw [Function.update_apply] at h₁ h₂
    split at h₁
    · cases h₁
    split at h₂
    · cases h₂
    exact m.id_injective h₁ h₂ hid

variable {m} {k k' : κ} {v : V} {c : ℕ}

lemma entry_put : (m.put k v).entry k' = if k' = k then some (m.last + 1, v) else m.entry k' :=
  Function.update_apply ..

lemma entry_remove : (m.remove k).entry k' = if k' = k then none else m.entry k' :=
  Function.update_apply ..

/-! ### Stale ids -/

/-- The id `c` has been given out, and is not the id of `k`. -/
def Stale (m : VersionedMap κ V) (k : κ) (c : ℕ) : Prop :=
  c ≤ m.last ∧ ∀ e, m.entry k = some e → e.1 ≠ c

lemma Stale.put (h : m.Stale k c) (k' : κ) (v : V) : (m.put k' v).Stale k c := by
  refine ⟨h.1.trans (Nat.le_succ _), fun e he => ?_⟩
  have hc := h.1
  rw [entry_put] at he
  split at he
  · cases he
    dsimp only
    omega
  · exact h.2 e he

lemma Stale.remove (h : m.Stale k c) (k' : κ) : (m.remove k').Stale k c := by
  refine ⟨h.1, fun e he => ?_⟩
  rw [entry_remove] at he
  split at he
  · cases he
  · exact h.2 e he

/-- An update makes all earlier ids of its key stale. -/
lemma stale_put (hc : c ≤ m.last) (k : κ) (v : V) : (m.put k v).Stale k c := by
  refine ⟨hc.trans (Nat.le_succ _), fun e he => ?_⟩
  rw [entry_put, if_pos rfl] at he
  cases he
  dsimp only
  omega

lemma stale_remove (hc : c ≤ m.last) (k : κ) : (m.remove k).Stale k c := by
  refine ⟨hc, fun e he => ?_⟩
  rw [entry_remove, if_pos rfl] at he
  cases he

end VersionedMap
end Machine
