import Mathlib.Tactic

/-!
# Lines in a buffer

`Buffer::findCRLF` of `muduo/net/Buffer.h`, by which the servers cut their input into lines.
-/

namespace Muduo

/-- `Buffer::findCRLF` on the readable bytes: the index of the first CRLF. -/
def findCRLF : List UInt8 → Option ℕ
  | [] => none
  | b :: bs => if b = 13 ∧ bs.head? = some 10 then some 0 else (findCRLF bs).map (· + 1)

lemma findCRLF_cons {b : UInt8} {bs : List UInt8} :
    findCRLF (b :: bs) =
      if b = 13 ∧ bs.head? = some 10 then some 0 else (findCRLF bs).map (· + 1) := rfl

lemma length_of_findCRLF {x : List UInt8} {c : ℕ} (h : findCRLF x = some c) : c + 2 ≤ x.length := by
  induction x generalizing c with
  | nil => cases h
  | cons b bs ih =>
    rw [findCRLF_cons] at h
    split at h
    · next hb =>
      cases h
      have : bs ≠ [] := by
        rintro rfl
        cases hb.2
      have := List.length_pos_of_ne_nil this
      rw [List.length_cons]
      omega
    · obtain ⟨c', hc', rfl⟩ := Option.map_eq_some_iff.mp h
      have := ih hc'
      rw [List.length_cons]
      omega

lemma findCRLF_eq_none {x : List UInt8} (h : (13 : UInt8) ∉ x) : findCRLF x = none := by
  induction x with
  | nil => rfl
  | cons b bs ih =>
    have hb : b ≠ 13 := by
      rintro rfl
      exact h (List.mem_cons_self ..)
    rw [findCRLF_cons, if_neg fun hcrlf => hb hcrlf.1,
      ih fun hbs => h (List.mem_cons_of_mem b hbs)]
    rfl

/-- The first CRLF behind a text without one. -/
lemma findCRLF_append_crlf {x : List UInt8} (h : findCRLF x = none) (y : List UInt8) :
    findCRLF (x ++ 13 :: 10 :: y) = some x.length := by
  induction x with
  | nil => rfl
  | cons b bs ih =>
    rw [findCRLF_cons] at h
    split at h
    · cases h
    · next hb =>
      have hhead : ¬ (b = 13 ∧ (bs ++ 13 :: 10 :: y).head? = some 10) := by
        rintro ⟨hb13, hhead⟩
        cases bs with
        | nil => cases hhead
        | cons c bs => exact hb ⟨hb13, hhead⟩
      rw [List.cons_append, findCRLF_cons, if_neg hhead, ih (Option.map_eq_none_iff.mp h)]
      rfl

/-- The line in front of the first CRLF and what follows. -/
lemma exists_line {x : List UInt8} {c : ℕ} (h : findCRLF x = some c) :
    ∃ line rest, x = line ++ 13 :: 10 :: rest ∧ findCRLF line = none ∧ line.length = c := by
  induction x generalizing c with
  | nil => cases h
  | cons b bs ih =>
    rw [findCRLF_cons] at h
    split at h
    · next hb =>
      obtain ⟨rest, rfl⟩ := List.head?_eq_some_iff.mp hb.2
      exact ⟨[], rest, by rw [hb.1]; rfl, rfl, Option.some.inj h⟩
    · next hb =>
      obtain ⟨c', hc', rfl⟩ := Option.map_eq_some_iff.mp h
      obtain ⟨line, rest, rfl, hline, rfl⟩ := ih hc'
      refine ⟨b :: line, rest, rfl, ?_, rfl⟩
      have hb' : ¬ (b = 13 ∧ line.head? = some 10) := by
        rintro ⟨hb13, hhead⟩
        obtain ⟨l, rfl⟩ := List.head?_eq_some_iff.mp hhead
        exact hb ⟨hb13, rfl⟩
      rw [findCRLF_cons, if_neg hb', hline]
      rfl

/-- Induction over the lines of a text. -/
theorem lines_induction {P : List UInt8 → Prop} (hlast : ∀ x, findCRLF x = none → P x)
    (hline : ∀ line rest, findCRLF line = none → P rest → P (line ++ 13 :: 10 :: rest))
    (x : List UInt8) : P x := by
  induction hn : x.length using Nat.strong_induction_on generalizing x with
  | _ n ih =>
    cases hcrlf : findCRLF x with
    | none => exact hlast x hcrlf
    | some c =>
      obtain ⟨line, rest, rfl, hnone, -⟩ := exists_line hcrlf
      refine hline line rest hnone (ih rest.length ?_ rest rfl)
      rw [← hn, List.length_append, List.length_cons, List.length_cons]
      omega

/-- A CRLF that is there stays the first one. -/
lemma findCRLF_append {x : List UInt8} {c : ℕ} (h : findCRLF x = some c) (y : List UInt8) :
    findCRLF (x ++ y) = some c := by
  induction x generalizing c with
  | nil => cases h
  | cons b bs ih =>
    rw [List.cons_append, findCRLF_cons]
    rw [findCRLF_cons] at h
    have hhead : bs ≠ [] → (bs ++ y).head? = bs.head? := List.head?_append_of_ne_nil bs
    split at h
    · next hb =>
      have hbs : bs ≠ [] := by
        rintro rfl
        cases hb.2
      rw [if_pos ⟨hb.1, (hhead hbs).trans hb.2⟩]
      exact h
    · next hb =>
      obtain ⟨c', hc', rfl⟩ := Option.map_eq_some_iff.mp h
      have hbs : bs ≠ [] := by
        rintro rfl
        cases hc'
      rw [hhead hbs, if_neg hb, ih hc']
      rfl

/-- A CRLF that more bytes bring ends in them. -/
lemma length_le_of_findCRLF_append {x y : List UInt8} {c : ℕ} (hx : findCRLF x = none)
    (h : findCRLF (x ++ y) = some c) : x.length ≤ c + 1 := by
  induction x generalizing c with
  | nil => exact Nat.zero_le _
  | cons b bs ih =>
    rw [List.cons_append, findCRLF_cons] at h
    rw [findCRLF_cons] at hx
    split at hx
    · cases hx
    · next hb =>
      split at h
      · next hb' =>
        have hbs : bs = [] := by
          by_contra hbs
          rw [List.head?_append_of_ne_nil bs hbs] at hb'
          exact hb hb'
        cases hbs
        exact Nat.le_add_left ..
      · obtain ⟨c', hc', rfl⟩ := Option.map_eq_some_iff.mp h
        have := ih (Option.map_eq_none_iff.mp hx) hc'
        rw [List.length_cons]
        omega

end Muduo
