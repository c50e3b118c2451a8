import SymmetricTrees.BlockStream.Reader

/-!
Walks of a block stream. A walker says how the next header is taken and what
happens at a block, where it reads the records for itself. A walk goes from
block to block and keeps the offset of the block's part of the leaf table.
Main statements: what a walk does at the end of the stream, at a block and at a
failure, each as one equation.
-/

set_option autoImplicit false

namespace SymmetricTrees.BlockStream

/-- How a stream is walked. Headers move the reader forward and visits never
move it back, so every walk ends. -/
structure Walker (Failure State : Type) where
  next : Reader → Except Failure (Option Block) × Reader
  visit : Nat → Block → State → Reader → Except Failure (State × Reader)
  next_length : ∀ {reader after : Reader} {block : Block},
    next reader = (.ok (some block), after) → after.rest.length < reader.rest.length
  visit_length : ∀ {offset : Nat} {block : Block} {state visited : State} {reader after : Reader},
    visit offset block state reader = .ok (visited, after) →
      after.rest.length ≤ reader.rest.length

structure Arrival (State : Type) where
  state : State
  /-- The number of leaf values that the walked blocks take. -/
  offset : Nat
  reader : Reader

namespace Walker

variable {Failure State : Type}

/-- Visits the blocks from here on, until no further header is found. -/
def walk (walker : Walker Failure State) (reader : Reader) (offset : Nat) (state : State) :
    Except Failure (Arrival State) :=
  match _next : walker.next reader with
  | (.error failure, _) => .error failure
  | (.ok none, after) => .ok ⟨state, offset, after⟩
  | (.ok (some block), afterHeader) =>
      match _visited : walker.visit offset block state afterHeader with
      | .error failure => .error failure
      | .ok (visited, after) => walker.walk after (offset + block.leafCount) visited
termination_by reader.rest.length
decreasing_by
  have header := walker.next_length _next
  have block := walker.visit_length _visited
  omega

theorem walk_end (walker : Walker Failure State) {reader after : Reader}
    (next : walker.next reader = (.ok none, after)) (offset : Nat) (state : State) :
    walker.walk reader offset state = .ok ⟨state, offset, after⟩ := by
  rw [walk]
  split <;> simp_all

theorem walk_fault (walker : Walker Failure State) {reader after : Reader} {failure : Failure}
    (next : walker.next reader = (.error failure, after)) (offset : Nat) (state : State) :
    walker.walk reader offset state = .error failure := by
  rw [walk]
  split <;> simp_all

theorem walk_block (walker : Walker Failure State) {reader afterHeader : Reader} {block : Block}
    (next : walker.next reader = (.ok (some block), afterHeader)) (offset : Nat) (state : State) :
    walker.walk reader offset state =
      match walker.visit offset block state afterHeader with
      | .error failure => .error failure
      | .ok (visited, after) => walker.walk after (offset + block.leafCount) visited := by
  rw [walk]
  split
  · simp_all
  · simp_all
  · rename_i foundBlock foundAfter found
    obtain ⟨rfl, rfl⟩ : foundBlock = block ∧ foundAfter = afterHeader := by
      simp_all
    split <;> simp_all

end Walker

/-- Takes the next header for a walk that ends at a bad one as if the stream
ended there. -/
def nextOrEnd {Failure : Type} (reader : Reader) : Except Failure (Option Block) × Reader :=
  match reader.nextBlock? with
  | (block, after) => (.ok block, after)

theorem next_or_end_length {Failure : Type} {reader after : Reader} {block : Block}
    (found : nextOrEnd reader = ((.ok (some block) : Except Failure (Option Block)), after)) :
    after.rest.length < reader.rest.length := by
  simp only [nextOrEnd, Prod.mk.injEq, Except.ok.injEq] at found
  exact Reader.next_block?_length (Prod.ext found.1 found.2)

end SymmetricTrees.BlockStream
