/-!
Outcomes of steps that may fail. A row of steps succeeds exactly if each of them
does, and fails as the first of them that fails.
-/

set_option autoImplicit false

namespace SymmetricTrees.Outcome

variable {Failure First Second Value : Type}

theorem bind_eq_ok_iff {first : Except Failure First} {second : First → Except Failure Second}
    {result : Second} :
    (first >>= second) = .ok result ↔ ∃ value, first = .ok value ∧ second value = .ok result := by
  cases first with
  | error failure => simp [bind, Except.bind]
  | ok value => simp [bind, Except.bind]

theorem bind_eq_error_iff {first : Except Failure First} {second : First → Except Failure Second}
    {failure : Failure} :
    (first >>= second) = .error failure ↔
      first = .error failure ∨ ∃ value, first = .ok value ∧ second value = .error failure := by
  cases first with
  | error other => simp [bind, Except.bind]
  | ok value => simp [bind, Except.bind]

section Judging

variable {judge : Value → Except Failure Unit}

theorem for_m_eq_ok {values : List Value} (good : ∀ value ∈ values, judge value = .ok ()) :
    values.forM judge = .ok () := by
  induction values with
  | nil => rfl
  | cons value rest induction =>
      obtain ⟨here, later⟩ := List.forall_mem_cons.mp good
      rw [List.forM_eq_forM, List.forM_cons, here]
      exact induction later

/-- A list is judged in order, up to the first value that fails. -/
theorem for_m_eq_error {before behind : List Value} {value : Value} {failure : Failure}
    (good : ∀ earlier ∈ before, judge earlier = .ok ()) (bad : judge value = .error failure) :
    (before ++ value :: behind).forM judge = .error failure := by
  induction before with
  | nil =>
      rw [List.nil_append, List.forM_eq_forM, List.forM_cons, bad]
      rfl
  | cons first rest induction =>
      obtain ⟨here, later⟩ := List.forall_mem_cons.mp good
      rw [List.cons_append, List.forM_eq_forM, List.forM_cons, here]
      exact induction later

end Judging

end SymmetricTrees.Outcome
