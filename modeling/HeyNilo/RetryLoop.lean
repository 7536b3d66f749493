import Mathlib.Data.List.Basic

namespace RetryLoop

variable {σ α : Type*} (attempt : Nat → σ → α × σ) (ok : α → Bool)

/-- At most `left` attempts, numbered from `n`, up to the first that is `ok`. -/
def run : Nat → Nat → σ → List α × σ
  | 0, _, s => ([], s)
  | left + 1, n, s =>
    let once := attempt n s
    if ok once.1 then ([once.1], once.2)
    else
      let later := run left (n + 1) once.2
      (once.1 :: later.1, later.2)

/-- The state that `i` attempts, numbered from `n`, leave. -/
def before : Nat → σ → Nat → σ
  | _, s, 0 => s
  | n, s, i + 1 => before (n + 1) (attempt n s).2 i

variable {attempt ok}

theorem run_of_ok {left n : Nat} {s : σ} (h : ok (attempt n s).1 = true) :
    run attempt ok (left + 1) n s = ([(attempt n s).1], (attempt n s).2) := by
  simp only [run, h, ↓reduceIte]

theorem run_of_not_ok {left n : Nat} {s : σ} (h : ok (attempt n s).1 = false) :
    run attempt ok (left + 1) n s =
      ((attempt n s).1 :: (run attempt ok left (n + 1) (attempt n s).2).1,
        (run attempt ok left (n + 1) (attempt n s).2).2) := by
  simp only [run, h, Bool.false_eq_true, ↓reduceIte]

theorem forall_mem_run {P : α → Prop} (h : ∀ n s, P (attempt n s).1) (left n : Nat) (s : σ) :
    ∀ a ∈ (run attempt ok left n s).1, P a := by
  induction left generalizing n s with
  | zero => simp [run]
  | succ left ih =>
    cases hok : ok (attempt n s).1 with
    | true =>
      rw [run_of_ok hok]
      simpa using h n s
    | false =>
      rw [run_of_not_ok hok]
      exact List.forall_mem_cons.mpr ⟨h n s, ih (n + 1) _⟩

variable (attempt ok) in
/-- A run has a successful attempt exactly if one of the attempts it may make would succeed after
all those before it. -/
theorem exists_ok_iff (left n : Nat) (s : σ) :
    (∃ a ∈ (run attempt ok left n s).1, ok a = true) ↔
      ∃ i < left, ok (attempt (n + i) (before attempt n s i)).1 = true := by
  induction left generalizing n s with
  | zero => simp [run]
  | succ left ih =>
    cases hok : ok (attempt n s).1 with
    | true =>
      rw [run_of_ok hok]
      exact ⟨fun _ => ⟨0, Nat.succ_pos left, hok⟩, fun _ => ⟨_, List.mem_singleton_self _, hok⟩⟩
    | false =>
      rw [run_of_not_ok hok]
      have hlater := ih (n + 1) (attempt n s).2
      constructor
      · rintro ⟨a, ha, hoka⟩
        rcases List.mem_cons.mp ha with rfl | ha
        · rw [hok] at hoka
          cases hoka
        · obtain ⟨i, hi, hoki⟩ := hlater.mp ⟨a, ha, hoka⟩
          refine ⟨i + 1, by omega, ?_⟩
          rwa [show n + (i + 1) = n + 1 + i by omega]
      · rintro ⟨i, hi, hoki⟩
        cases i with
        | zero =>
          rw [show before attempt n s 0 = s from rfl, Nat.add_zero, hok] at hoki
          cases hoki
        | succ i =>
          rw [show n + (i + 1) = n + 1 + i by omega] at hoki
          obtain ⟨a, ha, hoka⟩ := hlater.mpr ⟨i, by omega, hoki⟩
          exact ⟨a, List.mem_cons_of_mem _ ha, hoka⟩

/-- What failing attempts keep holds at the end of a run without a success. -/
theorem run_invariant {I : σ → Prop}
    (keep : ∀ n s, I s → ok (attempt n s).1 = false → I (attempt n s).2)
    {left n : Nat} {s : σ} (hs : I s) (h : ∀ a ∈ (run attempt ok left n s).1, ok a = false) :
    I (run attempt ok left n s).2 := by
  induction left generalizing n s with
  | zero => exact hs
  | succ left ih =>
    cases hok : ok (attempt n s).1 with
    | true =>
      rw [run_of_ok hok] at h
      have hno := h _ (List.mem_singleton_self _)
      rw [hok] at hno
      cases hno
    | false =>
      rw [run_of_not_ok hok] at h ⊢
      exact ih (keep n s hs hok) fun a ha => h a (List.mem_cons_of_mem _ ha)

variable (attempt ok) in
/-- Attempts that fail in every state of an invariant never succeed. -/
theorem run_fails {I : σ → Prop} (keep : ∀ n s, I s → ok (attempt n s).1 = false ∧ I (attempt n s).2)
    (left n : Nat) {s : σ} (hs : I s) :
    (∀ a ∈ (run attempt ok left n s).1, ok a = false) ∧ I (run attempt ok left n s).2 := by
  induction left generalizing n s with
  | zero => exact ⟨by simp [run], hs⟩
  | succ left ih =>
    obtain ⟨hok, ht⟩ := keep n s hs
    rw [run_of_not_ok hok]
    have hlater := ih (n + 1) ht
    exact ⟨List.forall_mem_cons.mpr ⟨hok, hlater.1⟩, hlater.2⟩

end RetryLoop
