import Gatehouse.Access.Hook

/-!
# Hooks that follow a script
-/

namespace Gatehouse.Rehearsal

open Access (Hook)

/-- A hook whose command does not exist. -/
def missingHook : Hook where
  run _ _ := .failed

/-- A hook whose command prints one text after the other, and then nothing, and always ends with the
same status. -/
def printingHook (status : Nat) (outputs : List Bytes) : Hook where
  run earlier _ := .finished status (outputs[earlier.length]?.getD [])

end Gatehouse.Rehearsal
