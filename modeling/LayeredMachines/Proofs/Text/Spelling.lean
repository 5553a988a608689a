import LayeredMachines.Machine
import LayeredMachines.Proofs.Text.Caseless

/-!
# Two spellings of an event

What is said of an event in two spellings is said of pairs of texts: they are the same text, or the
one and the other spelling of the event. Events that are equal up to case select the same
transitions.
-/

namespace LayeredMachines

/-- The same text twice, or an event in its first and in its second spelling. -/
def Spelled (first second a b : String) : Prop :=
  a = b ∨ a = first ∧ b = second

variable {first second a b : String}

theorem Spelled.refl (a : String) : Spelled first second a a :=
  .inl rfl

theorem Spelled.event : Spelled first second first second :=
  .inr ⟨rfl, rfl⟩

/-- Two spellings of an event are equal up to case if they are so throughout. -/
theorem Spelled.caselessEq (hspelled : Spelled first second a b)
    (hsame : caselessEq first second = true) : caselessEq a b = true := by
  rcases hspelled with rfl | ⟨rfl, rfl⟩
  · exact caselessEq_refl a
  · exact hsame

/-- A state goes to the same label on events that are equal up to case. -/
theorem State.next?_congr (state : State) (hsame : caselessEq a b = true) :
    state.next? a = state.next? b := by
  simp only [next?, matching?, isEmpty_eq_of_caselessEq hsame, caselessEq_congr_right hsame]

end LayeredMachines
