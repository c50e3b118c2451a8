import SymmetricTrees.Proofs.SkippedTexts

/-!
What is read could have been skipped: a reader that succeeds stops where the
reader that skips values stops. So how far a well-formed value reaches does not
depend on what reads it, nor on what stands behind it.
-/

set_option autoImplicit false

namespace SymmetricTrees.Description

open Scan
open Relation (ReflTransGen)

variable {Value State : Type}

theorem literal_singleton {expected : UInt8} {source after : Source}
    (read : literal [expected] source = .ok ((), after)) :
    next source = .ok (expected, after) := by
  rcases bind_eq_ok_iff.mp read with ⟨byte, middle, taken, judged⟩
  by_cases same : byte = expected
  · rw [if_pos same] at judged
    cases judged
    rw [taken, same]
  · rw [if_neg same] at judged
    cases judged

theorem skip_escape_point {source middle after : Source} {unit : Nat}
    (letter : next source = .ok ('u'.toUInt8, middle)) (read : hexUnit middle = .ok (unit, after)) :
    skipEscape source = .ok ((), after) := by
  rw [skipEscape, bind_of_ok letter, if_pos rfl, bind_of_ok read]
  rfl

theorem skip_text_turn_escape {source middle after : Source}
    (mark : next source = .ok (backslash, middle)) (skipped : skipEscape middle = .ok ((), after)) :
    Again skipTextTurn ((), source) ((), after) := by
  have notQuote : backslash ≠ quote := by decide
  simp only [Again, skipTextTurn, bind_of_ok mark, notQuote, if_false, if_true, bind_of_ok skipped]
  rfl

/-- An escape that is resolved is one escape to skip, or two if it is a pair of
surrogates. -/
theorem skip_text_turns_of_escape {source middle after : Source} {bytes : List UInt8}
    (mark : next source = .ok (backslash, middle)) (read : escape middle = .ok (bytes, after)) :
    ReflTransGen (Again skipTextTurn) ((), source) ((), after) := by
  rcases bind_eq_ok_iff.mp read with ⟨letter, behind, taken, resolved⟩
  split at resolved
  · rename_i isPoint
    subst isPoint
    rcases bind_eq_ok_iff.mp resolved with ⟨unit, last, unitRead, judged⟩
    have first := skip_text_turn_escape mark (skip_escape_point taken unitRead)
    split at judged
    · cases judged
    split at judged
    · rcases bind_eq_ok_iff.mp judged with ⟨trailing, _, trailingRead, done⟩
      rcases pure_eq_ok_iff.mp done with ⟨-, rfl⟩
      rcases bind_eq_ok_iff.mp trailingRead with ⟨⟨⟩, _, secondMark, trailingRead⟩
      rcases bind_eq_ok_iff.mp trailingRead with ⟨⟨⟩, _, secondLetter, trailingRead⟩
      rcases bind_eq_ok_iff.mp trailingRead with ⟨unit, _, secondUnit, judged⟩
      split at judged
      · rcases pure_eq_ok_iff.mp judged with ⟨-, rfl⟩
        have second := skip_text_turn_escape (literal_singleton secondMark)
          (skip_escape_point (literal_singleton secondLetter) secondUnit)
        exact .head first (.single second)
      · cases judged
    · rcases pure_eq_ok_iff.mp judged with ⟨-, rfl⟩
      exact .single first
  · rename_i notPoint
    cases known : plainEscape? letter with
    | none =>
        rw [known] at resolved
        cases resolved
    | some byte =>
        rw [known] at resolved
        rcases pure_eq_ok_iff.mp resolved with ⟨-, rfl⟩
        apply ReflTransGen.single
        apply skip_text_turn_escape mark
        rw [skipEscape, bind_of_ok taken, if_neg notPoint, known]
        rfl

/-- What a turn does with a text: it stops behind a quote, resolves an escape, or
takes a byte as it is. -/
theorem text_turn_cases {reversed : List UInt8} {source after : Source}
    {later : Option (List UInt8)} (took : textTurn reversed source = .ok (later, after)) :
    ∃ byte middle, next source = .ok (byte, middle) ∧
      (byte = quote ∧ later = none ∧ after = middle ∨
        byte = backslash ∧ later.isSome ∧ (∃ bytes, escape middle = .ok (bytes, after)) ∨
        (byte ≠ quote ∧ byte ≠ backslash ∧ ¬byte < 0x20) ∧ later.isSome ∧ after = middle) := by
  rcases bind_eq_ok_iff.mp took with ⟨byte, middle, taken, resolved⟩
  refine ⟨byte, middle, taken, ?_⟩
  split at resolved
  · rename_i isQuote
    rcases pure_eq_ok_iff.mp resolved with ⟨rfl, rfl⟩
    exact .inl ⟨isQuote, rfl, rfl⟩
  split at resolved
  · rename_i mark
    rcases bind_eq_ok_iff.mp resolved with ⟨bytes, _, read, done⟩
    rcases pure_eq_ok_iff.mp done with ⟨rfl, rfl⟩
    exact .inr (.inl ⟨mark, rfl, bytes, read⟩)
  split at resolved
  · cases resolved
  · rename_i notQuote notMark notControl
    rcases pure_eq_ok_iff.mp resolved with ⟨rfl, rfl⟩
    exact .inr (.inr ⟨⟨notQuote, notMark, notControl⟩, rfl, rfl⟩)

theorem skip_text_turns_of_text_turn {start last : List UInt8 × Source}
    (took : Again textTurn start last) :
    ReflTransGen (Again skipTextTurn) ((), start.2) ((), last.2) := by
  rcases text_turn_cases took with ⟨byte, middle, taken, ⟨-, ended, -⟩ | ⟨rfl, -, bytes, read⟩ |
    ⟨⟨notQuote, notMark, notControl⟩, -, same⟩⟩
  · cases ended
  · exact skip_text_turns_of_escape taken read
  · apply ReflTransGen.single
    simp only [Again, skipTextTurn, bind_of_ok taken, notQuote, notMark, notControl, if_false, same]
    rfl

theorem skip_text_turns_of_text_turns {start last : List UInt8 × Source}
    (again : ReflTransGen (Again textTurn) start last) :
    ReflTransGen (Again skipTextTurn) ((), start.2) ((), last.2) :=
  again.lift' (fun place => ((), place.2)) fun _ _ took => skip_text_turns_of_text_turn took

theorem skip_text_turn_ends {reversed : List UInt8} {source after : Source}
    (ended : textTurn reversed source = .ok (none, after)) :
    skipTextTurn () source = .ok (none, after) := by
  rcases text_turn_cases ended with ⟨byte, middle, taken, ⟨isQuote, -, same⟩ | ⟨-, goesOn, -⟩ |
    ⟨-, goesOn, -⟩⟩
  · rw [skipTextTurn, bind_of_ok taken, if_pos isQuote, same]
    rfl
  · cases goesOn
  · cases goesOn

theorem skip_text_of_text {source after : Source} {value : String}
    (read : text source = .ok (value, after)) : skipText source = .ok ((), after) := by
  rcases bind_eq_ok_iff.mp read with ⟨⟨⟩, inside, opened, read⟩
  rcases bind_eq_ok_iff.mp read with ⟨bytes, closed, taken, decoded⟩
  have same : closed = after := by
    generalize String.fromUTF8? bytes.toByteArray = decoding at decoded
    cases decoding with
    | none => cases decoded
    | some decoding => exact (pure_eq_ok_iff.mp decoded).2.symm
  subst same
  rw [budgeted_eq_take_turns fun rounds => text_bytes_eq_turns rounds []] at taken
  rcases bind_eq_ok_iff.mp taken with ⟨reversed, last, turned, done⟩
  rcases pure_eq_ok_iff.mp done with ⟨-, rfl⟩
  rcases again_of_turns turned with ⟨final, again, ended⟩
  have turned : takeTurns skipTextTurn () inside = .ok ((), closed) := by
    rw [take_turns_eq_ok_iff fun state => .of_takes (@skip_text_turn_reads .nothing state).takes]
    exact ⟨final, skip_text_turns_of_text_turns again, skip_text_turn_ends ended⟩
  rw [skipText, budgeted_eq_take_turns skip_text_bytes_eq_turns, bind_of_ok opened,
    bind_of_ok turned]
  rfl

theorem real_number_keeps {isNegative : Bool} {significand : Nat} {exponent : Int}
    {source after : Source} {value : Number}
    (read : realNumber isNegative significand exponent source = .ok (value, after)) :
    after = source := by
  rw [realNumber] at read
  generalize scale? significand.toUInt64.toFloat exponent = scaled at read
  cases scaled with
  | none => cases read
  | some magnitude => exact (pure_eq_ok_iff.mp read).2

theorem skip_exponent_part_of_exponent_part {isNegative : Bool} {significand : Nat} {start : Int}
    {source after : Source} {value : Number}
    (read : exponentPart isNegative significand start source = .ok (value, after)) :
    skipExponentPart source = .ok ((), after) := by
  rcases bind_eq_ok_iff.mp read with ⟨⟨⟩, _, opened, read⟩
  rcases bind_eq_ok_iff.mp read with ⟨upward, _, signed, read⟩
  rcases bind_eq_ok_iff.mp read with ⟨taken, last, digitsRead, read⟩
  rw [skipExponentPart, bind_of_ok opened, bind_of_ok signed, bind_of_ok digitsRead]
  split at read
  · exact absurd read missing_digits_ne_ok
  · rename_i some
    have looked : ∃ seen, peek? last = .ok (seen, after) := by
      simp only at read
      split at read
      · split at read
        · cases read
        · rcases bind_eq_ok_iff.mp read with ⟨seen, _, looked, done⟩
          rcases pure_eq_ok_iff.mp done with ⟨-, rfl⟩
          exact ⟨seen, looked⟩
      · rcases bind_eq_ok_iff.mp read with ⟨seen, _, looked, rounded⟩
        exact ⟨seen, real_number_keeps rounded ▸ looked⟩
    rcases looked with ⟨seen, looked⟩
    rw [if_neg some, bind_of_ok looked]
    rfl

theorem skip_fraction_part_of_fraction_part {isNegative : Bool} {significand : Nat} {start : Int}
    {source after : Source} {value : Number}
    (read : fractionPart isNegative significand start source = .ok (value, after)) :
    skipFractionPart source = .ok ((), after) := by
  rcases bind_eq_ok_iff.mp read with ⟨⟨⟩, _, opened, read⟩
  rcases bind_eq_ok_iff.mp read with ⟨taken, last, digitsRead, read⟩
  rw [skipFractionPart, bind_of_ok opened, bind_of_ok digitsRead]
  split at read
  · exact absurd read missing_digits_ne_ok
  · rename_i some
    rcases bind_eq_ok_iff.mp read with ⟨seen, middle, looked, read⟩
    rcases peek?_eq_ok_iff.mp looked with ⟨-, rfl, -⟩
    rw [if_neg some, bind_of_ok looked]
    cases seen with
    | none =>
        rw [real_number_keeps read]
        rfl
    | some byte =>
        simp only at read ⊢
        by_cases mark : isExponentMark byte = true
        · rw [if_pos mark] at read ⊢
          exact skip_exponent_part_of_exponent_part read
        · rw [if_neg mark] at read ⊢
          rw [real_number_keeps read]
          rfl

def readBehindDigits (isNegative : Bool) (taken : List Nat) : Scan Number := do
  let (significand, dropped) := accumulate 0 taken
  let plain : Scan Number :=
    if dropped.isEmpty then return .ofInteger isNegative significand
    else realNumber isNegative significand dropped.length
  match ← peek? with
  | none => plain
  | some byte =>
      if byte = point then fractionPart isNegative significand dropped.length
      else if isExponentMark byte then exponentPart isNegative significand dropped.length
      else plain

theorem skip_behind_digits_of_read {isNegative : Bool} {taken : List Nat} {source after : Source}
    {value : Number} (read : readBehindDigits isNegative taken source = .ok (value, after)) :
    skipBehindDigits source = .ok ((), after) := by
  rcases bind_eq_ok_iff.mp read with ⟨seen, middle, looked, read⟩
  rcases peek?_eq_ok_iff.mp looked with ⟨-, rfl, -⟩
  rw [skipBehindDigits, bind_of_ok looked]
  cases seen with
  | none =>
      simp only at read ⊢
      split at read
      · rw [(pure_eq_ok_iff.mp read).2]
        rfl
      · rw [real_number_keeps read]
        rfl
  | some byte =>
      simp only at read ⊢
      by_cases isPoint : byte = point
      · rw [if_pos isPoint] at read ⊢
        exact skip_fraction_part_of_fraction_part read
      · rw [if_neg isPoint] at read ⊢
        by_cases mark : isExponentMark byte = true
        · rw [if_pos mark] at read ⊢
          exact skip_exponent_part_of_exponent_part read
        · rw [if_neg mark] at read ⊢
          split at read
          · rw [(pure_eq_ok_iff.mp read).2]
            rfl
          · rw [real_number_keeps read]
            rfl

theorem skip_unsigned_number_of_unsigned_number {isNegative : Bool} {source after : Source}
    {value : Number} (read : unsignedNumber isNegative source = .ok (value, after)) :
    skipUnsignedNumber source = .ok ((), after) := by
  rcases bind_eq_ok_iff.mp read with ⟨taken, last, digitsRead, read⟩
  rw [skipUnsignedNumber, bind_of_ok digitsRead]
  cases taken with
  | nil => exact absurd read missing_digits_ne_ok
  | cons first others =>
      cases first with
      | succ digit =>
          exact @skip_behind_digits_of_read isNegative ((digit + 1) :: others) last after value read
      | zero =>
          cases others with
          | nil => exact @skip_behind_digits_of_read isNegative [0] last after value read
          | cons second others => cases read

/-- How a loop finds out whether another part of a frame follows. -/
structure Separates (another : Bool → Scan Bool) (frame : Frame) : Prop where
  ends : ∀ {first : Bool} {source after : Source},
    another first source = .ok (false, after) ↔ token source = .ok (frame.closing, after)
  starts : ∀ {source after : Source}, another true source = .ok (true, after) ↔
    ∃ byte, token source = .ok (byte, after) ∧ frame.Opens byte
  continues : ∀ {source after : Source}, another false source = .ok (true, after) ↔
    ∃ rest byte, token source = .ok (comma, ⟨comma :: rest, source.ending⟩) ∧
      token ⟨rest, source.ending⟩ = .ok (byte, after) ∧ frame.Opens byte

instance (frame : Frame) (byte : UInt8) : Decidable (frame.Opens byte) :=
  match frame with
  | .array => inferInstanceAs (Decidable (byte ≠ closeBracket))
  | .object => inferInstanceAs (Decidable (byte = quote))

theorem not_opens_closing (frame : Frame) : ¬frame.Opens frame.closing := by
  cases frame <;> decide

def judgePart (frame : Frame) (byte : UInt8) : Scan Bool :=
  if frame.Opens byte then return true else fail .malformed

theorem judge_part_eq_ok_iff {frame : Frame} {byte : UInt8} {source after : Source}
    {answer : Bool} :
    judgePart frame byte source = .ok (answer, after) ↔
      frame.Opens byte ∧ answer = true ∧ after = source := by
  rw [judgePart]
  by_cases opens : frame.Opens byte
  · rw [if_pos opens, pure_eq_ok_iff]
    exact (and_iff_right opens).symm
  · rw [if_neg opens]
    refine iff_of_false ?_ fun started => opens started.1
    intro failed
    cases failed

/-- Arrays and objects go on alike, but for their closing bytes and what starts a part. -/
def anotherPart (frame : Frame) (first : Bool) : Scan Bool := do
  let byte ← token
  if byte = frame.closing then return false
  else if first then judgePart frame byte
  else if byte = comma then do
    skip
    judgePart frame (← token)
  else fail .malformed

theorem judge_part_array (byte : UInt8) :
    judgePart .array byte = if byte = closeBracket then fail .malformed else return true := by
  by_cases closes : byte = closeBracket
  · have ended : ¬Frame.array.Opens byte := fun opens => opens closes
    rw [judgePart, if_neg ended, if_pos closes]
  · have opens : Frame.array.Opens byte := closes
    rw [judgePart, if_pos opens, if_neg closes]

theorem another_element_eq : anotherElement = anotherPart .array := by
  funext first
  unfold anotherElement anotherPart
  simp only [judge_part_array]
  congr 1
  funext byte
  by_cases closes : byte = closeBracket
  · simp only [closes, Frame.closing, if_true]
  · simp only [closes, Frame.closing, if_false]

theorem another_member_eq : anotherMember = anotherPart .object := rfl

theorem another_part_separates (frame : Frame) : Separates (anotherPart frame) frame where
  ends {first source after} := by
    rw [anotherPart, bind_eq_ok_iff]
    constructor
    · intro ended
      rcases ended with ⟨byte, middle, seen, answered⟩
      by_cases closes : byte = frame.closing
      · rw [if_pos closes] at answered
        cases answered
        rw [seen, closes]
      · rw [if_neg closes] at answered
        split at answered
        · cases (judge_part_eq_ok_iff.mp answered).2.1
        split at answered
        · rcases bind_eq_ok_iff.mp answered with ⟨⟨⟩, _, _, answered⟩
          rcases bind_eq_ok_iff.mp answered with ⟨head, _, _, judged⟩
          cases (judge_part_eq_ok_iff.mp judged).2.1
        · cases answered
    · intro seen
      refine ⟨frame.closing, after, seen, ?_⟩
      rw [if_pos rfl]
      rfl
  starts {source after} := by
    rw [anotherPart, bind_eq_ok_iff]
    constructor
    · intro started
      rcases started with ⟨byte, middle, seen, answered⟩
      split at answered
      · cases answered
      · rw [if_pos rfl] at answered
        rcases judge_part_eq_ok_iff.mp answered with ⟨opens, -, same⟩
        subst same
        exact ⟨byte, seen, opens⟩
    · intro started
      rcases started with ⟨byte, seen, opens⟩
      refine ⟨byte, after, seen, ?_⟩
      have inside : byte ≠ frame.closing := by
        intro closes
        subst closes
        exact not_opens_closing frame opens
      rw [if_neg inside, if_pos rfl]
      exact judge_part_eq_ok_iff.mpr ⟨opens, rfl, rfl⟩
  continues {source after} := by
    rw [anotherPart, bind_eq_ok_iff]
    constructor
    · intro continued
      rcases continued with ⟨byte, middle, seen, answered⟩
      split at answered
      · cases answered
      rw [if_neg Bool.false_ne_true] at answered
      by_cases isComma : byte = comma
      · subst isComma
        rw [if_pos rfl] at answered
        rcases bind_eq_ok_iff.mp answered with ⟨⟨⟩, _, passed, answered⟩
        rcases bind_eq_ok_iff.mp answered with ⟨head, _, found, judged⟩
        rcases token_eq_ok_iff.mp seen with ⟨_, rest, _, _, _, rfl⟩
        cases passed
        rcases judge_part_eq_ok_iff.mp judged with ⟨opens, -, same⟩
        subst same
        exact ⟨rest, head, seen, found, opens⟩
      · rw [if_neg isComma] at answered
        cases answered
    · intro continued
      rcases continued with ⟨rest, byte, seen, found, opens⟩
      refine ⟨comma, _, seen, ?_⟩
      rw [if_neg frame.comma_ne_closing, if_neg Bool.false_ne_true, if_pos rfl,
        bind_of_ok skip_cons, bind_of_ok found]
      exact judge_part_eq_ok_iff.mpr ⟨opens, rfl, rfl⟩

theorem another_element_separates : Separates anotherElement .array := by
  rw [another_element_eq]
  exact another_part_separates .array

theorem another_member_separates : Separates anotherMember .object := by
  rw [another_member_eq]
  exact another_part_separates .object

section

variable {another : Bool → Scan Bool} {part : State → Scan State} {frame : Frame}

theorem Separates.closes (separates : Separates another frame) {first : Bool}
    {source middle after : Source} (asked : another first source = .ok (false, middle))
    (closes : token middle = .ok (frame.closing, ⟨frame.closing :: after.rest, after.ending⟩)) :
    token source = .ok (frame.closing, ⟨frame.closing :: after.rest, after.ending⟩) := by
  have seen := separates.ends.mp asked
  rcases token_eq_ok_iff.mp seen with ⟨_, _, _, _, _, rfl⟩
  rw [token_cons frame.closing_solid] at closes
  rw [seen, closes]

theorem part_turn_eq_some_iff {state later : Bool × State} {source after : Source} :
    Again (partTurn another part) (state, source) (later, after) ↔
      ∃ middle, another state.1 source = .ok (true, middle) ∧
        part state.2 middle = .ok (later.2, after) ∧ later.1 = false := by
  rw [Again, partTurn, bind_eq_ok_iff]
  constructor
  · rintro ⟨more, middle, asked, rest⟩
    cases more with
    | false => cases rest
    | true =>
        rcases bind_eq_ok_iff.mp rest with ⟨_, _, read, done⟩
        cases done
        exact ⟨middle, asked, read, rfl⟩
  · rcases later with ⟨first, later⟩
    rintro ⟨middle, asked, read, rfl⟩
    exact ⟨true, middle, asked, (bind_of_ok read).trans rfl⟩

theorem part_turn_eq_none_iff {state : Bool × State} {source after : Source} :
    partTurn another part state source = .ok (none, after) ↔
      another state.1 source = .ok (false, after) := by
  rw [partTurn, bind_eq_ok_iff]
  constructor
  · rintro ⟨more, middle, asked, rest⟩
    cases more with
    | false =>
        rcases pure_eq_ok_iff.mp rest with ⟨-, rfl⟩
        exact asked
    | true =>
        rcases bind_eq_ok_iff.mp rest with ⟨_, _, _, done⟩
        cases done
  · intro asked
    exact ⟨false, after, asked, rfl⟩

/-- What the part reads from a byte in place on, the frame passes. -/
def PartPasses (frame : Frame) (part : State → Scan State) : Prop :=
  ∀ ⦃state later : State⦄ ⦃byte : UInt8⦄ ⦃rest : List UInt8⦄ ⦃ending : Ending⦄ ⦃middle : Source⦄,
    isBlank byte = false → frame.Opens byte →
      part state ⟨byte :: rest, ending⟩ = .ok (later, middle) →
      PassesPart frame ⟨byte :: rest, ending⟩ middle

/-- Behind its first part, a loop that reads parts passes the rest of its frame. -/
theorem reaches_of_parts (separates : Separates another frame) (passes : PartPasses frame part)
    {start last : (Bool × State) × Source} {after : Source}
    (run : ReflTransGen (Again (partTurn another part)) start last) (later : start.1.1 = false)
    (closes : token last.2 = .ok (frame.closing, ⟨frame.closing :: after.rest, after.ending⟩))
    (frames : List Frame) :
    ReflTransGen (Again skipTurn) ((false, frame :: frames), start.2) ((false, frames), after) := by
  induction run using ReflTransGen.head_induction_on with
  | refl => exact reaches_close closes
  | @head start second took _ induction =>
      rcases start with ⟨⟨first, state⟩, source⟩
      subst later
      rcases part_turn_eq_some_iff.mp took with ⟨middle, asked, read, notFirst⟩
      rcases separates.continues.mp asked with ⟨more, byte, seen, found, opens⟩
      rcases token_eq_ok_iff.mp found with ⟨blanks, behind, same, blank, solid, rfl⟩
      apply reaches_comma seen
      have same : more = blanks ++ byte :: behind := same
      rw [same, due_blanks blank]
      exact passes solid opens read frames _ (induction notFirst)

/-- A loop that reads the parts of a frame passes the whole frame. -/
theorem passes_of_parts (separates : Separates another frame) (passes : PartPasses frame part)
    {state : State} {final : Bool × State} {bytes : List UInt8} {last after : Source}
    {ending : Ending}
    (read : takeTurns (partTurn another part) (true, state) ⟨bytes, ending⟩ = .ok (final, last))
    (closes : token last = .ok (frame.closing, ⟨frame.closing :: after.rest, after.ending⟩)) :
    Passes ⟨frame.opening :: bytes, ending⟩ after := by
  rcases again_of_turns read with ⟨stop, run, ended⟩
  have closes := separates.closes (part_turn_eq_none_iff.mp ended) closes
  rcases ReflTransGen.cases_head run with same | ⟨second, took, later⟩
  · cases same
    exact passes_empty closes
  · rcases part_turn_eq_some_iff.mp took with ⟨middle, asked, read, notFirst⟩
    rcases separates.starts.mp asked with ⟨byte, seen, opens⟩
    apply passes_open seen opens
    rcases token_eq_ok_iff.mp seen with ⟨_, _, _, _, solid, rfl⟩
    intro frames
    apply passes solid opens read frames
    exact reaches_of_parts separates passes later notFirst closes frames

end

/-- A step that reads one value, blanks in front of it included. -/
structure ReadsValue (step : Scan Value) : Prop where
  reads : Reads .stop step
  blanks : ∀ {blanks : List UInt8}, Blank blanks → ∀ (bytes : List UInt8) (ending : Ending),
    step ⟨blanks ++ bytes, ending⟩ = step ⟨bytes, ending⟩
  passes : ∀ {source after : Source} {value : Value},
    step source = .ok (value, after) → Passes source after

/-- A step that passes the value whose first byte is in place. -/
def PassesFrom (byte : UInt8) (step : Scan Value) : Prop :=
  ∀ ⦃rest : List UInt8⦄ ⦃ending : Ending⦄ ⦃after : Source⦄ ⦃value : Value⦄,
    step ⟨byte :: rest, ending⟩ = .ok (value, after) → Passes ⟨byte :: rest, ending⟩ after

theorem reads_value_of_token {next : UInt8 → Scan Value} (reads : Reads .stop (token >>= next))
    (passes : ∀ byte, isBlank byte = false → PassesFrom byte (next byte)) :
    ReadsValue (token >>= next) where
  reads := reads
  blanks blank bytes ending := token_bind_blanks blank bytes ending next
  passes {source after value} read := by
    rcases token_bind_eq_ok_iff.mp read with ⟨blanks, byte, rest, same, blank, solid, read⟩
    rcases source with ⟨bytes, ending⟩
    have same : bytes = blanks ++ byte :: rest := same
    rw [same, passes_blanks blank]
    exact passes byte solid read

theorem ReadsValue.judged {First : Type} {first : Scan First} {second : First → Scan Value}
    (value : ReadsValue first) (near : ∀ found, Local .stop (second found))
    (keeps : ∀ {found : First} {source after : Source} {result : Value},
      second found source = .ok (result, after) → after = source) :
    ReadsValue (first >>= second) where
  reads := value.reads.bind near
  blanks blank bytes ending := by
    simp only [bind, StateT.bind, value.blanks blank]
  passes read := by
    rcases bind_eq_ok_iff.mp read with ⟨found, middle, read, judged⟩
    rw [keeps judged]
    exact value.passes read

theorem pure_keeps {source after : Source} {value result : Value}
    (done : (pure value : Scan Value) source = .ok (result, after)) : after = source :=
  (pure_eq_ok_iff.mp done).2

theorem PassesFrom.bind_pure {First : Type} {byte : UInt8} {first : Scan First}
    {make : First → Value} (passes : PassesFrom byte first) :
    PassesFrom byte (first >>= fun found => pure (make found)) := by
  intro rest ending after value read
  rcases bind_eq_ok_iff.mp read with ⟨found, middle, read, done⟩
  rw [pure_keeps done]
  exact passes read

theorem null_word_passes : PassesFrom 'n'.toUInt8 nullWord :=
  fun _ _ _ _ read => passes_scalar rfl (by decide) (by decide) read

theorem true_word_passes : PassesFrom 't'.toUInt8 trueWord :=
  fun _ _ _ _ read => passes_scalar rfl (by decide) (by decide) read

theorem false_word_passes : PassesFrom 'f'.toUInt8 falseWord :=
  fun _ _ _ _ read => passes_scalar rfl (by decide) (by decide) read

theorem text_passes : PassesFrom quote text :=
  fun _ _ _ _ read => passes_scalar rfl (by decide) (by decide) (skip_text_of_text read)

theorem number_passes {byte : UInt8} (solid : isBlank byte = false)
    (starts : startsNumber byte = true) : PassesFrom byte (number byte) := by
  intro rest ending after value read
  by_cases isMinus : byte = minus
  · subst isMinus
    rw [number, if_pos rfl, bind_of_ok skip_cons] at read
    exact passes_scalar rfl (by decide) (by decide) (skip_unsigned_number_of_unsigned_number read)
  · have digit : isDigit byte = true := by
      simp only [startsNumber, Bool.or_eq_true, beq_iff_eq, isMinus, false_or] at starts
      exact starts
    have noBracket : byte ≠ openBracket := by
      rintro rfl
      cases digit
    have noBrace : byte ≠ openBrace := by
      rintro rfl
      cases digit
    rw [number, if_neg isMinus] at read
    apply passes_scalar solid noBracket noBrace
    rw [skip_scalar_digit digit]
    exact skip_unsigned_number_of_unsigned_number read

theorem push_element_passes {element : Scan Value} (value : ReadsValue element) :
    PartPasses .array (pushElement element) := by
  intro reversed later byte rest ending middle _ _ read
  rcases bind_eq_ok_iff.mp read with ⟨found, middle, read, done⟩
  rw [pure_keeps done]
  exact passes_part_array (value.passes read)

theorem array_passes {element : Scan Value} (value : ReadsValue element) :
    PassesFrom openBracket (array element) := by
  intro rest ending after values read
  rw [array, budgeted_eq_take_turns fun rounds => elements_eq_turns element rounds true [],
    bind_of_ok skip_cons] at read
  rcases bind_eq_ok_iff.mp read with ⟨final, last, turned, closed⟩
  rcases bind_eq_ok_iff.mp closed with ⟨⟨⟩, _, closed, done⟩
  rcases pure_eq_ok_iff.mp done with ⟨-, rfl⟩
  rcases expect_eq_ok_iff.mp closed with ⟨behind, seen, rfl⟩
  exact passes_of_parts another_element_separates (push_element_passes value) turned seen

theorem passes_part_of_member {name : String} {rest : List UInt8} {ending : Ending}
    {between behind middle : Source} (named : text ⟨quote :: rest, ending⟩ = .ok (name, between))
    (colonRead : expect colon between = .ok ((), behind)) (passes : Passes behind middle) :
    PassesPart .object ⟨quote :: rest, ending⟩ middle := by
  apply passes_part_object _ passes
  rw [skipName, bind_of_ok (token_cons rfl), if_pos rfl, bind_of_ok (skip_text_of_text named)]
  exact colonRead

theorem push_member_passes {item : Scan FreeValue} (value : ReadsValue item) :
    PartPasses .object (pushMember item) := by
  intro reversed later byte rest ending middle _ opens read
  have opens : byte = quote := opens
  subst opens
  rcases bind_eq_ok_iff.mp read with ⟨name, between, named, read⟩
  rcases bind_eq_ok_iff.mp read with ⟨⟨⟩, behind, colonRead, read⟩
  rcases bind_eq_ok_iff.mp read with ⟨found, middle, read, done⟩
  rw [pure_keeps done]
  exact passes_part_of_member named colonRead (value.passes read)

theorem free_members_passes {item : Scan FreeValue} (value : ReadsValue item) :
    PassesFrom openBrace (skip >>= fun _ =>
      budgeted fun rounds => freeMembers item rounds true []) := by
  intro rest ending after members read
  rw [budgeted_eq_take_turns fun rounds => free_members_eq_turns item rounds true [],
    bind_of_ok skip_cons] at read
  rcases bind_eq_ok_iff.mp read with ⟨final, last, turned, closed⟩
  rcases bind_eq_ok_iff.mp closed with ⟨⟨⟩, _, closed, done⟩
  rcases pure_eq_ok_iff.mp done with ⟨-, rfl⟩
  rcases expect_eq_ok_iff.mp closed with ⟨behind, seen, rfl⟩
  exact passes_of_parts another_member_separates (push_member_passes value) turned seen

theorem free_value_reads_value (nesting : Nat) : ReadsValue (freeValue nesting) := by
  have reads := free_value_reads nesting
  unfold freeValue at reads ⊢
  apply reads_value_of_token reads
  intro byte solid
  split
  · rename_i isNull
    subst isNull
    exact null_word_passes.bind_pure
  split
  · rename_i isTrue
    subst isTrue
    exact true_word_passes.bind_pure
  split
  · rename_i isFalse
    subst isFalse
    exact false_word_passes.bind_pure
  split
  · rename_i isQuote
    subst isQuote
    exact text_passes.bind_pure
  split
  · rename_i starts
    exact (number_passes solid starts).bind_pure
  split
  · rename_i opens
    cases nesting with
    | zero =>
        intro rest ending after value read
        cases read
    | succ deeper =>
        have value := free_value_reads_value deeper
        by_cases isBracket : byte = openBracket
        · subst isBracket
          have passes : PassesFrom openBracket (array (freeValue deeper) >>= fun items =>
              pure (FreeValue.array items)) := (array_passes value).bind_pure
          exact passes
        · have isBrace : byte = openBrace := opens.resolve_left isBracket
          subst isBrace
          have passes : PassesFrom openBrace ((skip >>= fun _ => budgeted fun rounds =>
              freeMembers (freeValue deeper) rounds true []) >>= fun members =>
                pure (FreeValue.object members)) := (free_members_passes value).bind_pure
          exact passes
  · intro rest ending after value read
    cases read

end SymmetricTrees.Description
