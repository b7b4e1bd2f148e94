/-
Seconds on a clock.

Times are whole seconds in a word of 64 bits with a sign.  Two times can be farther
apart than such a word can say, and their difference then starts over from its
other end (`Clock.sub`); wherever the word can say it, it is the difference
(`Clock.sub_eq`).
-/

namespace FleetMesh
namespace Clock

/-- How many numbers the word has. -/
def period : Nat := 0x10000000000000000

/-- Whether the word can say a number. -/
def Says (seconds : Int) : Prop :=
  -0x8000000000000000 ≤ seconds ∧ seconds < 0x8000000000000000

instance (seconds : Int) : Decidable (Says seconds) :=
  inferInstanceAs (Decidable (_ ∧ _))

/-- The first time less the second, as the word has it. -/
def sub (a b : Int) : Int := (a - b).bmod period

theorem sub_eq {a b : Int} (h : Says (a - b)) : sub a b = a - b :=
  Int.bmod_eq_of_le h.1 h.2

/-- Past the least number of the word comes its greatest. -/
example : sub (-0x8000000000000000) 1 = 0x7fffffffffffffff := by decide

end Clock
end FleetMesh
