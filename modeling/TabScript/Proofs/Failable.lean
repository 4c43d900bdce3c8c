/-! Computations that can fail, one behind the other. -/

set_option autoImplicit false

namespace TabScript

theorem except_bind_ok {ε α β : Type} {first : Except ε α} {next : α → Except ε β} {result : β}
    (reached : (first >>= next) = .ok result) :
    ∃ value, first = .ok value ∧ next value = .ok result := by
  cases first with
  | error fault => cases reached
  | ok value => exact ⟨value, rfl, reached⟩

theorem except_bind_error {ε α β : Type} {first : Except ε α} {next : α → Except ε β} {fault : ε}
    (failed : (first >>= next) = .error fault) :
    first = .error fault ∨ ∃ value, first = .ok value ∧ next value = .error fault := by
  cases first with
  | error other =>
    cases failed
    exact .inl rfl
  | ok value => exact .inr ⟨value, rfl, failed⟩

theorem except_of_toOption {ε α : Type} {result : Except ε α} {value : α}
    (found : result.toOption = some value) : result = .ok value := by
  cases result with
  | error fault => cases found
  | ok other =>
    cases found
    rfl

inductive Verdict {ε α : Type} (accepts : α → Prop) (refuses : ε → Prop) : Except ε α → Prop where
  | ok {value : α} (accepted : accepts value) : Verdict accepts refuses (.ok value)
  | error {fault : ε} (refused : refuses fault) : Verdict accepts refuses (.error fault)

namespace Verdict

variable {ε α β : Type} {accepts : α → Prop} {refuses : ε → Prop} {result : Except ε α}

theorem of_ok (verdict : Verdict accepts refuses result) {value : α} (same : result = .ok value) :
    accepts value := by
  subst same
  cases verdict with
  | ok accepted => exact accepted

theorem of_error (verdict : Verdict accepts refuses result) {fault : ε} (same : result = .error fault) :
    refuses fault := by
  subst same
  cases verdict with
  | error refused => exact refused

theorem bind {next : α → Except ε β} {welcomes : β → Prop} (verdict : Verdict accepts refuses result)
    (goes : ∀ value, result = .ok value → accepts value → Verdict welcomes refuses (next value)) :
    Verdict welcomes refuses (result >>= next) := by
  cases verdict with
  | ok accepted => exact goes _ rfl accepted
  | error refused => exact .error refused

end Verdict

end TabScript
