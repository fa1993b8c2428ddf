/-!
# Bounded queues

A queue between one producer and one reader, each of which may leave. What a queue holds can still
be read after the producer has left; once the reader has left, nothing is kept any more.
-/

namespace Gatehouse.Relay

/-- A queue that holds at most `depth` items. -/
structure Queue (α : Type) where
  depth : Nat
  items : List α := []
  /-- The producer is still there. -/
  fed : Bool := true
  /-- The reader is still there. -/
  read : Bool := true
deriving DecidableEq

/-- What comes of reading a queue. -/
inductive Taken (α : Type) where
  | item (a : α)
  /-- Nothing will ever come. -/
  | ended
  /-- Nothing is there yet. -/
  | waiting
deriving DecidableEq

namespace Queue

variable {α : Type}

/-- Whether the producer need not wait. -/
def hasRoom (q : Queue α) : Bool :=
  !q.fed || !q.read || q.items.length < q.depth

/-- Adds an item, or gives it back if the queue is full. A producer without a reader leaves, and
what a producer that has left adds is lost. -/
def push (q : Queue α) (a : α) : Queue α × Option α :=
  if !q.fed then (q, none)
  else if !q.read then ({ q with fed := false }, none)
  else if q.items.length < q.depth then ({ q with items := q.items ++ [a] }, none)
  else (q, some a)

/-- Takes the oldest item. Nothing will come to a reader that has left. -/
def take (q : Queue α) : Queue α × Taken α :=
  match q.items with
  | a :: rest => ({ q with items := rest }, .item a)
  | [] => (q, if q.fed && q.read then .waiting else .ended)

/-- The producer leaves. -/
def finish (q : Queue α) : Queue α :=
  { q with fed := false }

/-- The reader leaves. -/
def abandon (q : Queue α) : Queue α :=
  { q with read := false, items := [] }

end Queue

end Gatehouse.Relay
