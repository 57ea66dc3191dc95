import Esoterica.Options

/-!
What loading comes to: one check after another, each of which may refuse.
-/

namespace Esoterica

/-- Two checks in a row pass exactly if both do. -/
theorem bind_eq_ok_iff {Failure A B : Type} {first : Except Failure A} {next : A → Except Failure B}
    {result : B} : (first >>= next) = .ok result ↔ ∃ a, first = .ok a ∧ next a = .ok result := by
  cases first with
  | error failure => simp [bind, Except.bind]
  | ok a => simp [bind, Except.bind]

theorem map_eq_ok_iff {Failure A B : Type} {first : Except Failure A} {change : A → B} {result : B} :
    first.map change = .ok result ↔ ∃ a, first = .ok a ∧ change a = result := by
  cases first with
  | error failure => simp [Except.map]
  | ok a => simp [Except.map]

theorem toOption_eq_some_iff {Failure A : Type} {checked : Except Failure A} {result : A} :
    checked.toOption = some result ↔ checked = .ok result := by
  cases checked with
  | error failure => simp [Except.toOption]
  | ok a => simp [Except.toOption]

/-- Exactly the valid options are let through. -/
theorem Options.validate_eq_ok_iff {options : Options} {passed : Unit} :
    options.validate = .ok passed ↔ options.Valid := by
  unfold validate Valid
  grind

end Esoterica
