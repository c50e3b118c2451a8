import SymmetricTrees.Proofs.ReadingSteps
import SymmetricTrees.Description.Model

/-!
Loops of reading steps as turns. A turn either leads to a state from which the
next turn starts, or is the last one. The loops of the library count rounds by
the bytes that are left; since a turn that is not the last takes a byte, they do
what the turns do, and the rounds can be forgotten.
-/

set_option autoImplicit false

namespace SymmetricTrees.Description

open Relation (ReflTransGen)

namespace Scan

variable {State Value : Type}

/-- Takes turns for at most so many rounds. -/
def turns (turn : State → Scan (Option State)) : List UInt8 → State → Scan State
  | [], _ => fail .malformed
  | _ :: rounds, state => do
      match ← turn state with
      | some later => turns turn rounds later
      | none => return state

def takeTurns (turn : State → Scan (Option State)) (state : State) : Scan State :=
  budgeted fun rounds => turns turn rounds state

/-- A turn after which another one follows. -/
def Again (turn : State → Scan (Option State)) (before after : State × Source) : Prop :=
  turn before.1 before.2 = .ok (some after.1, after.2)

/-- Every turn but the last takes a byte. -/
abbrev Progresses (turn : State → Scan (Option State)) : Prop :=
  ∀ state, TakesWhen (fun later => later.isSome) (turn state)

variable {turn : State → Scan (Option State)} {sight : Sight}

theorem turns_succ_eq_ok_iff {round : UInt8} {rounds : List UInt8} {state final : State}
    {source after : Source} :
    turns turn (round :: rounds) state source = .ok (final, after) ↔
      (∃ later middle, Again turn (state, source) (later, middle) ∧
          turns turn rounds later middle = .ok (final, after)) ∨
        turn state source = .ok (none, after) ∧ final = state := by
  rw [turns, bind_eq_ok_iff]
  constructor
  · rintro ⟨reply, middle, took, rest⟩
    cases reply with
    | some later => exact .inl ⟨later, middle, took, rest⟩
    | none =>
        obtain ⟨rfl, rfl⟩ := pure_eq_ok_iff.mp rest
        exact .inr ⟨took, rfl⟩
  · rintro (⟨later, middle, took, rest⟩ | ⟨took, rfl⟩)
    · exact ⟨some later, middle, took, rest⟩
    · exact ⟨none, after, took, rfl⟩

/-- Enough rounds do what the turns do. -/
theorem turns_of_again (progresses : Progresses turn) {start last : State × Source}
    (again : ReflTransGen (Again turn) start last) {after : Source}
    (ended : turn last.1 last.2 = .ok (none, after)) {rounds : List UInt8}
    (enough : start.2.rest.length < rounds.length) :
    turns turn rounds start.1 start.2 = .ok (last.1, after) := by
  induction again using ReflTransGen.head_induction_on generalizing rounds with
  | refl =>
      cases rounds with
      | nil => exact absurd enough (Nat.not_lt_zero _)
      | cons round rounds => exact turns_succ_eq_ok_iff.mpr (.inr ⟨ended, rfl⟩)
  | @head first second took _ induction =>
      cases rounds with
      | nil => exact absurd enough (Nat.not_lt_zero _)
      | cons round rounds =>
          have shorter := (progresses first.1).shorter took rfl
          have left : second.2.rest.length < rounds.length := by
            rw [List.length_cons] at enough
            omega
          exact turns_succ_eq_ok_iff.mpr (.inl ⟨second.1, second.2, took, induction left⟩)

theorem again_of_turns {rounds : List UInt8} {state final : State} {source after : Source}
    (done : turns turn rounds state source = .ok (final, after)) :
    ∃ last, ReflTransGen (Again turn) (state, source) (final, last) ∧
      turn final last = .ok (none, after) := by
  induction rounds generalizing state source with
  | nil => cases done
  | cons round rounds induction =>
      obtain ⟨later, middle, took, rest⟩ | ⟨ended, rfl⟩ := turns_succ_eq_ok_iff.mp done
      · obtain ⟨last, again, ended⟩ := induction rest
        exact ⟨last, .head took again, ended⟩
      · exact ⟨source, .refl, ended⟩

theorem take_turns_eq_ok_iff (progresses : Progresses turn) {state final : State}
    {source after : Source} :
    takeTurns turn state source = .ok (final, after) ↔
      ∃ last, ReflTransGen (Again turn) (state, source) (final, last) ∧
        turn final last = .ok (none, after) := by
  constructor
  · exact again_of_turns
  · rintro ⟨last, again, ended⟩
    exact turns_of_again progresses again ended (Nat.lt_succ_self _)

theorem again_local (near : ∀ state, Local sight (turn state)) {start last : State × Source}
    (again : ReflTransGen (Again turn) start last) :
    ∃ taken, start.2.rest = taken ++ last.2.rest ∧ last.2.ending = start.2.ending ∧
      ∀ other, sight.Alike last.2.rest other →
        ReflTransGen (Again turn) (start.1, ⟨taken ++ other, start.2.ending⟩)
          (last.1, ⟨other, start.2.ending⟩) := by
  induction again using ReflTransGen.head_induction_on with
  | refl => exact ⟨[], rfl, rfl, fun _ _ => .refl⟩
  | @head first second took _ induction =>
      obtain ⟨behind, secondBytes, lastEnding, later⟩ := induction
      obtain ⟨taken, bytes, ending, now⟩ := (near first.1).takes took
      refine ⟨taken ++ behind, ?_, lastEnding.trans ending, fun other alike => ?_⟩
      · rw [List.append_assoc, ← secondBytes, bytes]
      · have seen : sight.Alike second.2.rest (behind ++ other) := by
          rw [secondBytes]
          by_cases none : behind = []
          · rw [none]
            exact alike
          · exact sight.of_head (head?_append_of_ne_nil none _ _)
        have step : Again turn (first.1, ⟨taken ++ (behind ++ other), first.2.ending⟩)
            (second.1, ⟨behind ++ other, first.2.ending⟩) := now _ seen
        rw [List.append_assoc]
        refine .head step ?_
        rw [← ending]
        exact later other alike

theorem turns_readable (near : ∀ state, Local sight (turn state)) (rounds : List UInt8)
    (state : State) {bytes : List UInt8} {reason : String} :
    turns turn rounds state ⟨bytes, .complete⟩ ≠ .error (.unreadable reason) := by
  induction rounds generalizing state bytes with
  | nil =>
      intro failed
      cases failed
  | cons round rounds induction =>
      intro failed
      rw [turns, bind_eq_error_iff] at failed
      rcases failed with early | ⟨reply, ⟨rest, ending⟩, took, late⟩
      · exact (near state).readable early
      · obtain rfl : ending = _ := (near state).ending_eq took
        cases reply with
        | some later => exact induction later late
        | none => cases late

theorem take_turns_local (near : ∀ state, Local sight (turn state)) (progresses : Progresses turn)
    (state : State) : Local sight (takeTurns turn state) where
  takes done := by
    obtain ⟨last, again, ended⟩ := (take_turns_eq_ok_iff progresses).mp done
    obtain ⟨front, bytes, middleEnding, before⟩ := again_local near again
    obtain ⟨lastRest, lastEnding⟩ := last
    obtain ⟨back, lastBytes, ending, behind⟩ := (near _).takes ended
    simp only at bytes middleEnding lastBytes
    refine ⟨front ++ back, ?_, ending.trans middleEnding, fun other alike => ?_⟩
    · rw [List.append_assoc, ← lastBytes, bytes]
    · have seen : sight.Alike lastRest (back ++ other) := by
        rw [lastBytes]
        by_cases none : back = []
        · rw [none]
          exact alike
        · exact sight.of_head (head?_append_of_ne_nil none _ _)
      rw [List.append_assoc, take_turns_eq_ok_iff progresses]
      refine ⟨_, before _ seen, ?_⟩
      rw [← middleEnding]
      exact behind other alike
  readable := turns_readable near _ _

end Scan

end SymmetricTrees.Description
