import Mathlib.Logic.Relation
import SymmetricTrees.Description.Source
import SymmetricTrees.Outcome

/-!
What reading steps have in common. A step takes bytes from the front and sees
at most the next byte behind them; with another text behind the bytes it takes,
it does the same, as long as the two texts look alike to it. How much of a
continuation a step sees is its sight. Loops are counted in rounds that never
run out; here they are runs of turns instead.
-/

set_option autoImplicit false

namespace SymmetricTrees.Description

/-- A byte that a number in front of it would take, too. -/
def goesOn (byte : UInt8) : Bool :=
  isDigit byte || byte == point || byte == 'e'.toUInt8 || byte == 'E'.toUInt8

/-- A text that ends any number in front of it. -/
def Stops (bytes : List UInt8) : Prop := ∃ byte rest, bytes = byte :: rest ∧ goesOn byte = false

namespace Scan

variable {First Value State : Type}

theorem bind_apply (first : Scan First) (second : First → Scan Value) (source : Source) :
    (first >>= second) source = first source >>= fun read => second read.1 read.2 := rfl

theorem bind_eq_ok_iff {first : Scan First} {second : First → Scan Value} {source : Source}
    {result : Value × Source} :
    (first >>= second) source = .ok result ↔
      ∃ value middle, first source = .ok (value, middle) ∧ second value middle = .ok result := by
  rw [bind_apply, Outcome.bind_eq_ok_iff, Prod.exists]

theorem bind_eq_error_iff {first : Scan First} {second : First → Scan Value} {source : Source}
    {fault : Fault} :
    (first >>= second) source = .error fault ↔
      first source = .error fault ∨
        ∃ value middle, first source = .ok (value, middle) ∧
          second value middle = .error fault := by
  rw [bind_apply, Outcome.bind_eq_error_iff, Prod.exists]

theorem bind_of_ok {first : Scan First} {second : First → Scan Value} {source middle : Source}
    {value : First} (read : first source = .ok (value, middle)) :
    (first >>= second) source = second value middle := by
  simp only [bind, StateT.bind, read, Except.bind]

theorem pure_eq_ok_iff {value result : Value} {source after : Source} :
    (pure value : Scan Value) source = .ok (result, after) ↔ result = value ∧ after = source := by
  constructor
  · intro read
    cases read
    exact ⟨rfl, rfl⟩
  · rintro ⟨rfl, rfl⟩
    rfl

/-- When two continuations look alike. Those with the same next byte always do. -/
structure Sight where
  Alike : List UInt8 → List UInt8 → Prop
  of_head : ∀ {rest other : List UInt8}, rest.head? = other.head? → Alike rest other

namespace Sight

def byte : Sight := ⟨fun rest other => rest.head? = other.head?, id⟩

def stop : Sight :=
  ⟨fun rest other => rest.head? = other.head? ∨ Stops rest ∧ Stops other, .inl⟩

def nothing : Sight := ⟨fun _ _ => True, fun _ => trivial⟩

end Sight

/-- A step that takes some bytes and sees no more than its sight allows. Without a
failing source it does not fail like one. -/
structure Local (sight : Sight) (step : Scan Value) : Prop where
  takes : ∀ {bytes : List UInt8} {ending : Ending} {value : Value} {after : Source},
    step ⟨bytes, ending⟩ = .ok (value, after) →
      ∃ taken, bytes = taken ++ after.rest ∧ after.ending = ending ∧
        ∀ other, sight.Alike after.rest other →
          step ⟨taken ++ other, ending⟩ = .ok (value, ⟨other, ending⟩)
  readable : ∀ {bytes : List UInt8} {reason : String},
    step ⟨bytes, .complete⟩ ≠ .error (.unreadable reason)

/-- A step that takes at least one byte when its value is of some kind. -/
structure TakesWhen (wanted : Value → Prop) (step : Scan Value) : Prop where
  shorter : ∀ {source after : Source} {value : Value},
    step source = .ok (value, after) → wanted value → after.rest.length < source.rest.length

abbrev Takes (step : Scan Value) : Prop := TakesWhen (fun _ => True) step

/-- A local step that takes at least a byte. -/
structure Reads (sight : Sight) (step : Scan Value) : Prop where
  near : Local sight step
  takes : Takes step

structure LocalFrom (sight : Sight) (byte : UInt8) (step : Scan Value) : Prop where
  takes : ∀ {bytes : List UInt8} {ending : Ending} {value : Value} {after : Source},
    step ⟨byte :: bytes, ending⟩ = .ok (value, after) →
      ∃ taken, bytes = taken ++ after.rest ∧ after.ending = ending ∧
        ∀ other, sight.Alike after.rest other →
          step ⟨byte :: (taken ++ other), ending⟩ = .ok (value, ⟨other, ending⟩)
  readable : ∀ {bytes : List UInt8} {reason : String},
    step ⟨byte :: bytes, .complete⟩ ≠ .error (.unreadable reason)

section

variable {sight : Sight} {first : Scan First} {second : First → Scan Value} {step : Scan Value}

theorem Local.weaken {wider : Sight} (near : Local sight step)
    (sees : ∀ rest other, wider.Alike rest other → sight.Alike rest other) :
    Local wider step where
  takes read := by
    obtain ⟨taken, bytes, ending, again⟩ := near.takes read
    exact ⟨taken, bytes, ending, fun other alike => again other (sees _ _ alike)⟩
  readable := near.readable

theorem Local.to_byte (near : Local sight step) : Local .byte step :=
  near.weaken fun _ _ => sight.of_head

theorem Local.length_le (near : Local sight step) {source after : Source} {value : Value}
    (read : step source = .ok (value, after)) : after.rest.length ≤ source.rest.length := by
  obtain ⟨taken, bytes, -⟩ := near.takes read
  rw [bytes, List.length_append]
  exact Nat.le_add_left _ _

theorem Local.ending_eq (near : Local sight step) {source after : Source} {value : Value}
    (read : step source = .ok (value, after)) : after.ending = source.ending := by
  obtain ⟨-, -, ending, -⟩ := near.takes read
  exact ending

theorem head?_append_of_ne_nil {taken : List UInt8} (some : taken ≠ []) (rest other : List UInt8) :
    (taken ++ rest).head? = (taken ++ other).head? := by
  cases taken with
  | nil => exact absurd rfl some
  | cons byte behind => rfl

/-- Two steps in a row see what the second sees: the first sees no more, or the
second always takes a byte, which is then all that the first can see. -/
theorem Local.bind_of {narrow : Sight} (before : Local narrow first)
    (behind : ∀ value, Local sight (second value))
    (sees : (∀ rest other, sight.Alike rest other → narrow.Alike rest other) ∨
      ∀ value, Takes (second value)) :
    Local sight (first >>= second) where
  takes read := by
    obtain ⟨value, middle, early, late⟩ := bind_eq_ok_iff.mp read
    obtain ⟨one, bytes, ending, againEarly⟩ := before.takes early
    obtain ⟨middleRest, middleEnding⟩ := middle
    obtain ⟨two, middleBytes, lateEnding, againLate⟩ := (behind value).takes late
    obtain rfl : middleEnding = _ := ending
    refine ⟨one ++ two, ?_, lateEnding, fun other alike => ?_⟩
    · rw [List.append_assoc, ← middleBytes]
      exact bytes
    · have seen : narrow.Alike middleRest (two ++ other) := by
        rw [middleBytes]
        by_cases none : two = []
        · rcases sees with sees | takes
          · rw [none]
            exact sees _ _ alike
          · have shorter := (takes value).shorter late trivial
            rw [middleBytes, none] at shorter
            exact absurd shorter (Nat.lt_irrefl _)
        · exact narrow.of_head (head?_append_of_ne_nil none _ _)
      rw [List.append_assoc, bind_of_ok (againEarly _ seen)]
      exact againLate other alike
  readable failed := by
    rcases bind_eq_error_iff.mp failed with early | ⟨value, middle, early, late⟩
    · exact before.readable early
    · obtain ⟨-, -, ending, -⟩ := before.takes early
      obtain ⟨rest, middleEnding⟩ := middle
      obtain rfl : middleEnding = _ := ending
      exact (behind value).readable late

theorem Local.bind (before : Local sight first) (behind : ∀ value, Local sight (second value)) :
    Local sight (first >>= second) :=
  before.bind_of behind (.inl fun _ _ => id)

theorem TakesWhen.bind_left {wanted : Value → Prop} (before : Takes first)
    (behind : ∀ value, Local sight (second value)) : TakesWhen wanted (first >>= second) where
  shorter read _ := by
    obtain ⟨early, middle, firstRead, secondRead⟩ := bind_eq_ok_iff.mp read
    exact Nat.lt_of_le_of_lt ((behind early).length_le secondRead)
      (before.shorter firstRead trivial)

theorem TakesWhen.bind_right {wanted : Value → Prop} (before : Local sight first)
    (behind : ∀ value, TakesWhen wanted (second value)) : TakesWhen wanted (first >>= second) where
  shorter read isWanted := by
    obtain ⟨early, middle, firstRead, secondRead⟩ := bind_eq_ok_iff.mp read
    exact Nat.lt_of_lt_of_le ((behind early).shorter secondRead isWanted)
      (before.length_le firstRead)

theorem Reads.to_byte (reads : Reads sight step) : Reads .byte step :=
  ⟨reads.near.to_byte, reads.takes⟩

theorem Reads.bind (before : Reads sight first) (behind : ∀ value, Local sight (second value)) :
    Reads sight (first >>= second) :=
  ⟨before.near.bind behind, before.takes.bind_left behind⟩

theorem Local.then_reads (before : Local .byte first)
    (behind : ∀ value, Reads sight (second value)) : Reads sight (first >>= second) :=
  ⟨before.bind_of (fun value => (behind value).near) (.inr fun value => (behind value).takes),
    .bind_right before fun value => (behind value).takes⟩

theorem Reads.in_place {byte : UInt8} (reads : Reads sight step) : LocalFrom sight byte step where
  takes read := by
    obtain ⟨taken, bytes, ending, again⟩ := reads.near.takes read
    cases taken with
    | nil =>
        have shorter := reads.takes.shorter read trivial
        rw [bytes] at shorter
        exact absurd shorter (Nat.lt_irrefl _)
    | cons head behind =>
        obtain ⟨rfl, rfl⟩ := List.cons.inj bytes
        exact ⟨behind, rfl, ending, again⟩
  readable := reads.near.readable

theorem LocalFrom.to_byte {byte : UInt8} (near : LocalFrom sight byte step) :
    LocalFrom .byte byte step where
  takes read := by
    obtain ⟨taken, bytes, ending, again⟩ := near.takes read
    exact ⟨taken, bytes, ending, fun other alike => again other (sight.of_head alike)⟩
  readable := near.readable

theorem LocalFrom.skip {byte : UInt8} {next : Scan Value} (near : Local sight next) :
    LocalFrom sight byte (Scan.skip >>= fun _ => next) where
  takes := near.takes
  readable := near.readable

theorem LocalFrom.skip_end {byte : UInt8} : LocalFrom sight byte Scan.skip where
  takes read := by
    cases read
    exact ⟨[], rfl, rfl, fun _ _ => rfl⟩
  readable failed := by cases failed

theorem LocalFrom.bind {byte : UInt8} (before : LocalFrom sight byte first)
    (behind : ∀ value, Local sight (second value)) : LocalFrom sight byte (first >>= second) := by
  have whole : Local sight (fun source => first ⟨byte :: source.rest, source.ending⟩) :=
    ⟨before.takes, before.readable⟩
  have both := whole.bind behind
  exact ⟨both.takes, both.readable⟩

end

section

variable {sight : Sight}

theorem pure_local (value : Value) : Local sight (pure value : Scan Value) where
  takes read := by
    obtain ⟨rfl, rfl⟩ := pure_eq_ok_iff.mp read
    exact ⟨[], rfl, rfl, fun _ _ => rfl⟩
  readable failed := by cases failed

theorem fail_local {fault : Fault} (told : ∀ reason, fault ≠ .unreadable reason) :
    Local sight (fail fault : Scan Value) where
  takes read := by cases read
  readable failed := told _ (Except.error.inj failed)

theorem malformed_local : Local sight (fail .malformed : Scan Value) :=
  fail_local fun _ same => by cases same

theorem malformed_reads : Reads sight (fail .malformed : Scan Value) :=
  ⟨malformed_local, ⟨fun read _ => by cases read⟩⟩

theorem peek?_eq_ok_iff {source after : Source} {seen : Option UInt8} :
    peek? source = .ok (seen, after) ↔
      seen = source.rest.head? ∧ after = source ∧
        (source.rest = [] → source.ending = .complete) := by
  obtain ⟨rest, ending⟩ := source
  cases rest with
  | cons byte rest => simp [peek?, eq_comm]
  | nil => cases ending <;> simp [peek?, eq_comm]

theorem peek?_local : Local .byte peek? where
  takes {bytes ending value after} read := by
    obtain ⟨rfl, rfl, complete⟩ := peek?_eq_ok_iff.mp read
    refine ⟨[], rfl, rfl, fun other alike => peek?_eq_ok_iff.mpr ⟨alike, rfl, fun gone => ?_⟩⟩
    obtain rfl : other = [] := gone
    exact complete (List.head?_eq_none_iff.mp alike)
  readable {bytes reason} failed := by cases bytes <;> cases failed

theorem skip_local : Local .byte skip where
  takes {bytes ending value after} read := by
    cases bytes with
    | nil =>
        cases read
        refine ⟨[], rfl, rfl, fun other alike => ?_⟩
        obtain rfl : other = [] := List.head?_eq_none_iff.mp alike.symm
        rfl
    | cons byte rest =>
        cases read
        exact ⟨[byte], rfl, rfl, fun _ _ => rfl⟩
  readable failed := by cases failed

theorem next_eq_ok_iff {source after : Source} {byte : UInt8} :
    next source = .ok (byte, after) ↔
      ∃ rest, source.rest = byte :: rest ∧ after = ⟨rest, source.ending⟩ := by
  obtain ⟨rest, ending⟩ := source
  cases rest with
  | nil =>
      have missing : ∀ result, next ⟨[], ending⟩ ≠ .ok result := by
        intro result read
        cases ending <;> cases read
      simp [missing]
  | cons head tail =>
      have found : next ⟨head :: tail, ending⟩ = .ok (head, ⟨tail, ending⟩) := rfl
      rw [found]
      constructor
      · intro read
        cases read
        exact ⟨tail, rfl, rfl⟩
      · rintro ⟨rest, same, rfl⟩
        cases same
        rfl

theorem next_bind_eq_ok_iff {second : UInt8 → Scan Value} {source : Source}
    {result : Value × Source} :
    (next >>= second) source = .ok result ↔
      ∃ byte rest, source.rest = byte :: rest ∧ second byte ⟨rest, source.ending⟩ = .ok result := by
  rw [bind_eq_ok_iff]
  constructor
  · rintro ⟨byte, _, taken, read⟩
    rcases next_eq_ok_iff.mp taken with ⟨rest, same, rfl⟩
    exact ⟨byte, rest, same, read⟩
  · rintro ⟨byte, rest, same, read⟩
    exact ⟨byte, _, next_eq_ok_iff.mpr ⟨rest, same, rfl⟩, read⟩

theorem next_local : Local sight next where
  takes read := by
    obtain ⟨rest, bytes, rfl⟩ := next_eq_ok_iff.mp read
    exact ⟨[_], bytes, rfl, fun _ _ => rfl⟩
  readable {bytes reason} failed := by cases bytes <;> cases failed

theorem next_reads : Reads sight next where
  near := next_local
  takes := ⟨fun read _ => by
    obtain ⟨rest, bytes, rfl⟩ := next_eq_ok_iff.mp read
    rw [bytes]
    exact Nat.lt_succ_self _⟩

theorem take_run_append {test : UInt8 → Bool} {taken other : List UInt8} {ending : Ending}
    (all : ∀ byte ∈ taken, test byte = true) (ends : ∀ byte ∈ other.head?, test byte = false) :
    takeRun test ⟨taken ++ other, ending⟩ = .ok (taken, ⟨other, ending⟩) := by
  have none : other.takeWhile test = [] ∧ other.dropWhile test = other := by
    cases other with
    | nil => exact ⟨rfl, rfl⟩
    | cons head tail =>
        have fails := ends head rfl
        simp [fails]
  simp [takeRun, List.takeWhile_append_of_pos all, List.dropWhile_append_of_pos all, none]

theorem take_run_eq_ok {test : UInt8 → Bool} {source after : Source} {taken : List UInt8}
    (read : takeRun test source = .ok (taken, after)) :
    source.rest = taken ++ after.rest ∧ after.ending = source.ending ∧
      (∀ byte ∈ taken, test byte = true) ∧ ∀ byte ∈ after.rest.head?, test byte = false := by
  obtain ⟨rfl, rfl⟩ := Prod.mk.inj (Except.ok.inj read)
  refine ⟨List.takeWhile_append_dropWhile.symm, rfl, fun byte member => ?_, fun byte head => ?_⟩
  · exact List.all_eq_true.mp List.all_takeWhile byte member
  · have stopped := List.head?_dropWhile_not test source.rest
    rw [Option.mem_def] at head
    simp only [head] at stopped
    exact stopped

theorem take_run_local {test : UInt8 → Bool}
    (sees : ∀ rest other : List UInt8, sight.Alike rest other →
      (∀ byte ∈ rest.head?, test byte = false) → ∀ byte ∈ other.head?, test byte = false) :
    Local sight (takeRun test) where
  takes read := by
    obtain ⟨bytes, ending, all, ends⟩ := take_run_eq_ok read
    exact ⟨_, bytes, ending, fun other alike => take_run_append all (sees _ _ alike ends)⟩
  readable failed := by cases failed

theorem take_run_local_byte (test : UInt8 → Bool) : Local .byte (takeRun test) :=
  take_run_local fun rest other alike ends byte head => ends byte (by rw [alike]; exact head)

end

end Scan

open Scan

def Blank (bytes : List UInt8) : Prop := ∀ byte ∈ bytes, isBlank byte = true

section

variable {Value : Type} {sight : Sight}

theorem token_append {blanks rest : List UInt8} {byte : UInt8} (blank : Blank blanks)
    (solid : isBlank byte = false) (ending : Ending) :
    token ⟨blanks ++ byte :: rest, ending⟩ = .ok (byte, ⟨byte :: rest, ending⟩) := by
  have run := @take_run_append isBlank blanks (byte :: rest) ending blank
    (fun head same => by cases same; exact solid)
  rw [token, bind_of_ok run]
  rfl

theorem token_eq_ok_iff {source after : Source} {byte : UInt8} :
    token source = .ok (byte, after) ↔
      ∃ blanks rest, source.rest = blanks ++ byte :: rest ∧ Blank blanks ∧
        isBlank byte = false ∧ after = ⟨byte :: rest, source.ending⟩ := by
  constructor
  · intro read
    rw [token] at read
    obtain ⟨blanks, ⟨rest, middleEnding⟩, run, look⟩ := bind_eq_ok_iff.mp read
    obtain ⟨bytes, ending, blank, ends⟩ := take_run_eq_ok run
    obtain ⟨seen, last, peeked, answered⟩ := bind_eq_ok_iff.mp look
    obtain ⟨rfl, rfl, -⟩ := peek?_eq_ok_iff.mp peeked
    cases rest with
    | nil => cases answered
    | cons head rest =>
        obtain ⟨rfl, rfl⟩ := pure_eq_ok_iff.mp answered
        obtain rfl : middleEnding = _ := ending
        exact ⟨blanks, rest, bytes, blank, ends byte rfl, rfl⟩
  · rintro ⟨blanks, rest, bytes, blank, solid, rfl⟩
    obtain ⟨sourceRest, ending⟩ := source
    obtain rfl : sourceRest = _ := bytes
    exact token_append blank solid ending

theorem token_bind_eq_ok_iff {next : UInt8 → Scan Value} {source : Source}
    {result : Value × Source} :
    (token >>= next) source = .ok result ↔
      ∃ blanks byte rest, source.rest = blanks ++ byte :: rest ∧ Blank blanks ∧
        isBlank byte = false ∧ next byte ⟨byte :: rest, source.ending⟩ = .ok result := by
  rw [bind_eq_ok_iff]
  constructor
  · rintro ⟨byte, _, seen, read⟩
    rcases token_eq_ok_iff.mp seen with ⟨blanks, rest, same, blank, solid, rfl⟩
    exact ⟨blanks, byte, rest, same, blank, solid, read⟩
  · rintro ⟨blanks, byte, rest, same, blank, solid, read⟩
    exact ⟨byte, _, token_eq_ok_iff.mpr ⟨blanks, rest, same, blank, solid, rfl⟩, read⟩

theorem token_local : Local .byte token := by
  refine (take_run_local_byte isBlank).bind fun _ => peek?_local.bind fun seen => ?_
  cases seen with
  | none => exact fail_local fun _ same => by cases same
  | some byte => exact pure_local byte

theorem token_blanks {blanks : List UInt8} (blank : Blank blanks) (bytes : List UInt8)
    (ending : Ending) : token ⟨blanks ++ bytes, ending⟩ = token ⟨bytes, ending⟩ := by
  simp only [token, bind, StateT.bind, takeRun, Except.bind, List.dropWhile_append_of_pos blank]

theorem token_bind_blanks {blanks : List UInt8} (blank : Blank blanks) (bytes : List UInt8)
    (ending : Ending) (next : UInt8 → Scan Value) :
    (token >>= next) ⟨blanks ++ bytes, ending⟩ = (token >>= next) ⟨bytes, ending⟩ := by
  simp only [bind, StateT.bind, token_blanks blank]

theorem token_bind_reads {next : UInt8 → Scan Value}
    (near : ∀ byte, LocalFrom sight byte (next byte)) : Reads sight (token >>= next) where
  near := {
    takes := fun read => by
      obtain ⟨blanks, byte, rest, rfl, blank, solid, late⟩ := token_bind_eq_ok_iff.mp read
      obtain ⟨taken, restBytes, ending, again⟩ := (near byte).takes late
      refine ⟨blanks ++ byte :: taken, ?_, ending, fun other alike => ?_⟩
      · rw [List.append_assoc, List.cons_append, ← restBytes]
      · rw [List.append_assoc, List.cons_append, bind_of_ok (token_append blank solid _)]
        exact again other alike
    readable := fun failed => by
      rcases bind_eq_error_iff.mp failed with early | ⟨byte, middle, seen, late⟩
      · exact token_local.readable early
      · obtain ⟨_, _, _, _, _, rfl⟩ := token_eq_ok_iff.mp seen
        exact (near byte).readable late }
  takes := ⟨fun read _ => by
    obtain ⟨blanks, byte, rest, bytes, -, -, late⟩ := token_bind_eq_ok_iff.mp read
    obtain ⟨taken, restBytes, -⟩ := (near byte).takes late
    rw [bytes, restBytes]
    simp only [List.length_append, List.length_cons]
    omega⟩

theorem literal_local (expected : List UInt8) : Local sight (literal expected) := by
  induction expected with
  | nil => exact pure_local ()
  | cons byte rest induction =>
      refine next_local.bind fun found => ?_
      split
      · exact induction
      · exact malformed_local

theorem literal_reads {byte : UInt8} {rest : List UInt8} :
    Reads sight (literal (byte :: rest)) := by
  refine next_reads.bind fun found => ?_
  split
  · exact literal_local rest
  · exact malformed_local

theorem expect_reads (expected : UInt8) : Reads sight (expect expected) := by
  refine token_bind_reads fun byte => ?_
  split
  · exact .skip_end
  · exact malformed_reads.in_place

theorem expect_eq_ok_iff {expected : UInt8} {source after : Source} :
    expect expected source = .ok ((), after) ↔
      ∃ rest, token source = .ok (expected, ⟨expected :: rest, source.ending⟩) ∧
        after = ⟨rest, source.ending⟩ := by
  rw [expect, bind_eq_ok_iff]
  constructor
  · rintro ⟨byte, middle, seen, passed⟩
    rcases token_eq_ok_iff.mp seen with ⟨_, rest, _, _, _, rfl⟩
    by_cases same : byte = expected
    · rw [if_pos same] at passed
      subst same
      cases passed
      exact ⟨rest, seen, rfl⟩
    · rw [if_neg same] at passed
      cases passed
  · rintro ⟨rest, seen, rfl⟩
    refine ⟨expected, _, seen, ?_⟩
    rw [if_pos rfl]
    rfl

theorem another_element_local (first : Bool) : Local .byte (anotherElement first) := by
  refine token_local.bind fun byte => ?_
  split
  · exact pure_local false
  · split
    · exact pure_local true
    · split
      · refine skip_local.bind fun _ => token_local.bind fun head => ?_
        split
        · exact malformed_local
        · exact pure_local true
      · exact malformed_local

theorem another_member_local (first : Bool) : Local .byte (anotherMember first) := by
  refine token_local.bind fun byte => ?_
  split
  · exact pure_local false
  · split
    · split
      · exact pure_local true
      · exact malformed_local
    · split
      · refine skip_local.bind fun _ => token_local.bind fun head => ?_
        split
        · exact pure_local true
        · exact malformed_local
      · exact malformed_local

end

end SymmetricTrees.Description
