/-!
How many workers share the parts of a task. A single worker gets to the parts in
their order, a pool of workers in any order.
-/

set_option autoImplicit false

namespace SymmetricTrees

inductive Schedule where
  | sequential
  | parallel (workers : Nat)
deriving DecidableEq

structure Machine where
  workers : Nat
  /-- Whether another pool can be had for a number of threads. -/
  hasPool : Nat → Bool
  /-- The order in which the workers of a pool get to the parts of a task. -/
  order {Part : Type} : List Part → List Part

namespace Machine

def ordinary : Machine where
  workers := 2
  hasPool _ := true
  order parts := parts

/-- A pool gets to each part once. -/
structure Fair (machine : Machine) : Prop where
  order_perm : ∀ {Part : Type} (parts : List Part), (machine.order parts).Perm parts

/-- A single thread works without a pool. No number of threads asks for all workers
there are. -/
def schedule (machine : Machine) (threads : Nat) : Schedule :=
  if threads = 1 ∨ threads = 0 ∧ machine.workers = 1 then .sequential
  else if machine.hasPool threads then .parallel threads
  else .sequential

def visits {Part : Type} (machine : Machine) (parts : List Part) : Schedule → List Part
  | .sequential => parts
  | .parallel _ => machine.order parts

end Machine

namespace Schedule

def ofThreads (threads : Nat) : Schedule := Machine.ordinary.schedule threads

def isParallel : Schedule → Bool
  | sequential => false
  | parallel _ => true

def pool? : Schedule → Option Nat
  | sequential => none
  | parallel workers => some workers

def map {Part Result : Type} (schedule : Schedule) (treat : Part → Result) (parts : List Part) :
    List Result :=
  (Machine.ordinary.visits parts schedule).map treat

end Schedule

end SymmetricTrees
