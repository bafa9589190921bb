/-!
# How a computation stops

A computation that does not finish stops in one of two ways: it reports an error to its
caller, or it runs into a *fault*, the use of an index, slot or length that does not exist. A
fault carries no message and is never handled; checked functions do not run into one.
-/

namespace ArrayOffload

inductive Stop (ε : Type) where
  | error (cause : ε)
  | fault
deriving DecidableEq, Repr

namespace Stop

/-- The same stop, with its error seen as another error. -/
def map {ε δ : Type} (f : ε → δ) : Stop ε → Stop δ
  | error cause => error (f cause)
  | fault => fault

theorem error_ne_fault {ε : Type} (cause : ε) : error cause ≠ fault := by
  rintro ⟨⟩

end Stop

/-- A lookup that faults when there is nothing to find. -/
def orFault {ε α : Type} : Option α → Except (Stop ε) α
  | some a => .ok a
  | none => .error .fault

end ArrayOffload
