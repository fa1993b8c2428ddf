/-!
# Named things

What a script gives names to.
-/

namespace Gatehouse.Rehearsal

/-- Puts an entry in front of those of the same name. -/
def overlay {α : Type} (entries : List (String × α)) (name : String) (a : α) :
    List (String × α) :=
  (name, a) :: entries.filter fun entry => entry.1 ≠ name

end Gatehouse.Rehearsal
