import CStringVerified.Foundation.Transitions

/-!
# Mutual exclusion, as a machine

One section that one party may be in at a time: parties enter it when nobody is inside, and leave it
when they are. What the machine accepts is exactly the sequences in which the sections come one
after the other (`run_isSome_iff`).
-/

namespace Foundation

namespace Mutex

/-- A party enters the section or leaves it. -/
inductive Event (A : Type) where
  | enters (a : A)
  | leaves (a : A)
  deriving DecidableEq

variable {A : Type} [DecidableEq A]

/-- Who is inside after an event, where the event is possible. -/
def step : Option A → Event A → Option (Option A)
  | none, .enters a => some (some a)
  | some a, .leaves b => if a = b then some none else none
  | none, .leaves _ | some _, .enters _ => none

/-- One section after the other, each left by the party that entered it; the last one may go on. -/
def Serial : List (Event A) → Prop
  | [] | [.enters _] => True
  | .enters a :: .leaves b :: es => a = b ∧ Serial es
  | .leaves _ :: _ | .enters _ :: .enters _ :: _ => False

/-- From an empty section the machine goes through what is serial, and through nothing else. -/
theorem run_isSome_iff (es : List (Event A)) : (run step none es).isSome ↔ Serial es := by
  induction es using Serial.induct with
  | case1 => exact iff_of_true rfl trivial
  | case2 a => exact iff_of_true rfl trivial
  | case3 a b es ih =>
    have hrun : run step none (.enters a :: .leaves b :: es) =
        (if a = b then some none else none).bind fun h => run step h es := rfl
    rw [hrun, Serial]
    split
    · next hab =>
      rw [Option.bind_some, ih]
      exact (and_iff_right hab).symm
    · next hab => exact iff_of_false (by rintro ⟨⟩) fun h => hab h.1
  | case4 a es => exact iff_of_false (by rintro ⟨⟩) id
  | case5 a b es => exact iff_of_false (by rintro ⟨⟩) id

end Mutex

end Foundation
