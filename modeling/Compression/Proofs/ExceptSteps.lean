import Mathlib.Logic.Basic

namespace Compression

variable {ε α β : Type}

theorem eq_ok_of_toOption {answer : Except ε α} {a : α} (h : answer.toOption = some a) :
    answer = .ok a := by
  cases answer with
  | error e => cases h
  | ok b => exact congrArg Except.ok (Option.some.inj h)

theorem mapError_eq_ok_iff {ε' : Type} {answer : Except ε α} {f : ε → ε'} {a : α} :
    answer.mapError f = .ok a ↔ answer = .ok a := by
  cases answer with
  | error e => exact iff_of_false (fun h => by cases h) fun h => by cases h
  | ok b => exact ⟨fun h => congrArg Except.ok (Except.ok.inj h), fun h => h ▸ rfl⟩

theorem bind_eq_ok_iff {answer : Except ε α} {next : α → Except ε β} {b : β} :
    answer >>= next = .ok b ↔ ∃ a, answer = .ok a ∧ next a = .ok b := by
  cases answer <;> simp [bind, Except.bind]

theorem bind_eq_error_iff {answer : Except ε α} {next : α → Except ε β} {e : ε} :
    answer >>= next = .error e ↔ answer = .error e ∨ ∃ a, answer = .ok a ∧ next a = .error e := by
  cases answer <;> simp [bind, Except.bind]

/-- A check hands on nothing but that it was passed. -/
theorem check_bind_eq_ok_iff {check : Except ε Unit} {next : Unit → Except ε β} {b : β} :
    check >>= next = .ok b ↔ check = .ok () ∧ next () = .ok b := by
  cases check <;> simp [bind, Except.bind]

end Compression
