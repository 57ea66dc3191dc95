import Esoterica.Program
import Esoterica.Proofs.Loading

/-!
Programs that have been loaded, and what can be said of their machines whichever they are.
-/

namespace Esoterica.Program

/-- The program was loaded under these options, in one of the ways there are. -/
inductive Accepted (options : Options) (program : Program) : Prop where
  | asText {language : Language} {source : String}
      (loaded : load options language source = .ok program)
  | asSource {language : Language} {source : String}
      (loaded : ofSource options language source = .ok program)
  | asCodels {codels : Piet.Codels} (loaded : ofCodels options codels = .ok program)
  | asImage {image : Image} (loaded : ofImage options image = .ok program)

variable {options : Options} {program : Program}

/-- In the end a program is loaded from a text or from codels. -/
theorem Accepted.loaded (accepted : program.Accepted options) :
    (∃ language source, load options language source = .ok program) ∨
      ∃ codels, ofCodels options codels = .ok program := by
  cases accepted with
  | asText loaded => exact .inl ⟨_, _, loaded⟩
  | asSource loaded =>
      obtain ⟨_, _, loaded⟩ := bind_eq_ok_iff.1 loaded
      exact .inl ⟨_, _, loaded⟩
  | asCodels loaded => exact .inr ⟨_, loaded⟩
  | asImage loaded =>
      obtain ⟨_, _, loaded⟩ := bind_eq_ok_iff.1 loaded
      exact .inr ⟨_, loaded⟩

/-- Whatever is loaded was loaded under valid options. -/
theorem Accepted.valid (accepted : program.Accepted options) : options.Valid := by
  have checked {A : Type} {next : Unit → Except Error A} {result : A}
      (passed : (options.validate >>= next) = .ok result) : options.Valid := by
    obtain ⟨_, validated, _⟩ := bind_eq_ok_iff.1 passed
    exact Options.validate_eq_ok_iff.1 validated
  obtain ⟨language, source, loaded⟩ | ⟨codels, loaded⟩ := accepted.loaded
  · cases language with
    | piet => simp [load] at loaded
    | _ =>
        obtain ⟨_, loaded, _⟩ := map_eq_ok_iff.1 loaded
        exact checked loaded
  · obtain ⟨_, loaded, _⟩ := map_eq_ok_iff.1 loaded
    exact checked loaded

/-- What follows for every machine of some sort follows for the machine of a program. -/
theorem withMachine_imp {Answer : Type} {Good : {Op Registers : Type} → Machine Op Registers → Prop}
    {ask : {Op Registers : Type} → Machine Op Registers → Answer} {dice : Befunge.Dice}
    (Fine : Answer → Prop) (good : program.withMachine options Good dice)
    (fine : ∀ {Op Registers : Type} (machine : Machine Op Registers),
      Good machine → Fine (ask machine)) :
    Fine (program.withMachine options ask dice) := by
  cases program <;> exact fine _ good

end Esoterica.Program
