/-!
# Faults

A fault is a mishap that ends work at once, such as a number or a time outside its range; it is
neither a rejected entry nor a failure that the program foresees.
-/

namespace AutoDoc

inductive Fault where
  | addOverflow
  | negateOverflow
  | capacityOverflow
  | instantOverflow
  | noSuchTime
  | other (message : String)
deriving DecidableEq, Repr

def Fault.message : Fault → String
  | .addOverflow => "attempt to add with overflow"
  | .negateOverflow => "attempt to negate with overflow"
  | .capacityOverflow => "capacity overflow"
  | .instantOverflow => "overflow when adding duration to instant"
  | .noSuchTime => "No such local time"
  | .other message => message

/-- What comes to a value in two parts did so in both. -/
theorem ok_of_bind {ε α β : Type} {step : Except ε α} {next : α → Except ε β} {value : β}
    (success : (step >>= next) = .ok value) : ∃ x, step = .ok x ∧ next x = .ok value := by
  cases step with
  | error e => cases success
  | ok x => exact ⟨x, rfl, success⟩

end AutoDoc
