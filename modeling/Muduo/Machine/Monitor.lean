import Muduo.Machine.Condition

/-!
# Calls to a monitor

A member function of a monitor locks the mutex, waits for its condition in a loop, and returns. What
it does between locking the mutex and waiting or returning is one step, so where a thread is in such
a function is one of four places.
-/

namespace Machine

/-- Where a thread is in a function that it called with `arg` and that returns `result`. -/
inductive Call (A R : Type) where
  | lock (arg : A)
  /-- In `wait()`. -/
  | waiting (arg : A)
  /-- About to return from `wait()`, with or without a signal. -/
  | woken (arg : A) (signalled : Bool)
  | returned (result : R)
  deriving DecidableEq

namespace Call

variable {A R : Type}

def waits : Call A R → Bool
  | .waiting _ => true
  | _ => false

def signalled : Call A R → Bool
  | .woken _ signalled => signalled
  | _ => false

def signal : Call A R → Call A R
  | .waiting arg => .woken arg true
  | c => c

def result : Call A R → Option R
  | .returned result => some result
  | _ => none

/-- The argument, if the thread needs nothing but the mutex to go on. -/
def ready : Call A R → Option A
  | .lock arg | .woken arg _ => some arg
  | .waiting _ | .returned _ => none

/-- What a thread still has to do. One that returns may signal another one, which adds less than it
gives up itself. -/
def weight : Call A R → ℕ
  | .lock _ | .woken .. => 3
  | .waiting _ => 2
  | .returned _ => 0

def condition : Condition (Call A R) where
  waits := waits
  signalled := signalled
  signal := signal
  not_signalled c := by cases c <;> simp [waits, signalled]
  signal_not_waits c := by cases c <;> simp [waits, signal]
  signal_signalled c := by cases c <;> simp [waits, signalled, signal]

/-- The thread `i` locks the mutex. -/
def locking (calls : List (Call A R)) (i : ℕ) : Option A := calls[i]?.bind ready

/-- The thread `i` wakes up with no signal. -/
def wake {F : Type} (calls : List (Call A R)) (i : ℕ) : Exec F (List (Call A R)) :=
  match calls[i]? with
  | some (.waiting arg) => return calls.set i (.woken arg false)
  | _ => .error .disabled

def results (calls : List (Call A R)) : List R := calls.filterMap result

def weights (calls : List (Call A R)) : ℕ := (calls.map weight).sum

variable {c : Call A R} {calls calls' : List (Call A R)} {arg : A} {i target : ℕ} {F : Type}

lemma ready_of_signalled (h : c.signalled = true) : c.ready.isSome = true := by
  cases c with
  | woken arg signalled => rfl
  | _ => cases h

lemma locking_eq_some (h : locking calls i = some arg) :
    ∃ c, calls[i]? = some c ∧ c.ready = some arg ∧ c.result = none ∧ c.weight = 3 := by
  obtain ⟨c, hc, hr⟩ := Option.bind_eq_some_iff.mp h
  refine ⟨c, hc, hr, ?_⟩
  cases c with
  | lock | woken => exact ⟨rfl, rfl⟩
  | _ => cases hr

lemma exists_locking (hc : c ∈ calls) (hr : c.ready = some arg) :
    ∃ i, locking calls i = some arg := by
  obtain ⟨i, hi⟩ := List.mem_iff_getElem?.mp hc
  exact ⟨i, by rw [locking, hi]; exact hr⟩

lemma wake_spec (calls : List (Call A R)) (i : ℕ) :
    Safe (wake calls i : Exec F (List (Call A R))) fun calls' =>
      ∃ arg, calls[i]? = some (.waiting arg) ∧ calls' = calls.set i (.woken arg false) := by
  unfold wake
  split
  · rename_i arg hi
    exact ⟨arg, hi, rfl⟩
  · trivial

/-! ### The calls that have returned -/

lemma results_set (hi : calls[i]? = some c) (hc : c.result = none) (c' : Call A R) :
    (results (calls.set i c')).Perm (results calls ++ c'.result.toList) := by
  obtain ⟨l₁, l₂, hl, hset⟩ := Condition.exists_set hi c'
  rw [hset, hl]
  cases hr : c'.result with
  | none => simp [results, hc, hr]
  | some r =>
    simp only [results, List.filterMap_append, List.filterMap_cons, hc, hr, List.append_assoc]
    exact (List.perm_append_singleton ..).symm.append_left _

lemma results_concat (calls : List (Call A R)) (arg : A) :
    results (calls ++ [.lock arg]) = results calls := by
  simp [results, result]

lemma results_notify (h : (condition.notify calls target : Exec F _) = .ok calls') :
    results calls' = results calls := by
  have hmap := Condition.notify_map_eq (f := result) (fun c hc => ?_) h
  · simpa [results, List.filterMap_map] using congrArg (List.filterMap id) hmap
  · cases c with
    | waiting arg => rfl
    | _ => cases hc

/-- Where no call can go on, those that have not returned wait. -/
lemma length_results_add (h : ∀ c ∈ calls, c.ready = none) :
    (results calls).length + calls.countP waits = calls.length := by
  rw [results, List.length_filterMap_eq_countP, List.length_eq_countP_add_countP waits, add_comm]
  congr 1
  refine List.countP_congr fun c hc => ?_
  have hr := h c hc
  cases c with
  | waiting | returned => simp [result, waits]
  | _ => cases hr

/-! ### What is still to be done -/

lemma weights_le (calls : List (Call A R)) : weights calls ≤ 3 * calls.length := by
  have hle := List.sum_le_card_nsmul (calls.map weight) 3 ?_
  · rw [List.length_map, smul_eq_mul] at hle
    rw [weights]
    omega
  · simp only [List.mem_map, forall_exists_index, and_imp]
    rintro _ c - rfl
    cases c <;> simp [weight]

lemma weights_set (h : locking calls i = some arg) (c' : Call A R) :
    weights (calls.set i c') + 3 = weights calls + c'.weight := by
  obtain ⟨c, hc, -, -, hw⟩ := locking_eq_some h
  exact hw ▸ Condition.sum_set weight hc c'

lemma weights_notify (h : (condition.notify calls target : Exec F _) = .ok calls') :
    weights calls' ≤ weights calls + 1 := by
  refine Condition.notify_sum_le (w := weight) (fun c hc => ?_) h
  cases c with
  | waiting arg => exact le_rfl
  | _ => cases hc

end Call
end Machine
