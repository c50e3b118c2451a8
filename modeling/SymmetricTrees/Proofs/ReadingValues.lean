import SymmetricTrees.Proofs.ReadingTurns

/-!
What the readers of texts, numbers, lists, free values and skipped values see. A
value takes at least a byte, and sees no more behind it than whether a number
would end there. What ends with a byte of its own sees nothing behind it.
-/

set_option autoImplicit false

namespace SymmetricTrees.Description

open Scan
open Relation (ReflTransGen)

variable {Value : Type} {sight : Sight}

namespace Scan

variable {State : Type} {turn : State → Scan (Option State)}

theorem budgeted_eq_take_turns {state : State} {finish : State → Scan Value}
    {loop : List UInt8 → Scan Value}
    (same : ∀ rounds, loop rounds = turns turn rounds state >>= finish) :
    budgeted loop = takeTurns turn state >>= finish := by
  obtain rfl : loop = fun rounds => turns turn rounds state >>= finish := funext same
  rfl

theorem take_turns_reads (near : ∀ state, Local sight (turn state)) (progresses : Progresses turn)
    {state : State} (takes : Takes (turn state)) : Reads sight (takeTurns turn state) where
  near := take_turns_local near progresses state
  takes := ⟨fun done _ => by
    obtain ⟨last, again, ended⟩ := again_of_turns done
    have behind := (near _).length_le ended
    rcases ReflTransGen.cases_head again with same | ⟨second, took, later⟩
    · cases same
      exact takes.shorter ended trivial
    · obtain ⟨taken, bytes, -⟩ := again_local near later
      have shorter := takes.shorter took trivial
      rw [bytes, List.length_append] at shorter
      exact Nat.lt_of_le_of_lt behind (Nat.lt_of_le_of_lt (Nat.le_add_left _ _) shorter)⟩

theorem TakesWhen.of_takes {step : Scan Value} {wanted : Value → Prop} (takes : Takes step) :
    TakesWhen wanted step where
  shorter read _ := takes.shorter read trivial

theorem last_takes : TakesWhen (fun later => later.isSome) (pure none : Scan (Option State)) where
  shorter read isSome := by
    obtain ⟨rfl, -⟩ := pure_eq_ok_iff.mp read
    cases isSome

/-- A turn of a loop over parts between commas: the loop asks whether it is the
first part that may follow, and a part changes the state. -/
def partTurn (another : Bool → Scan Bool) (part : State → Scan State) (state : Bool × State) :
    Scan (Option (Bool × State)) := do
  if ← another state.1 then
    let later ← part state.2
    return some (false, later)
  else return none

section

variable {another : Bool → Scan Bool} {part : State → Scan State}

theorem part_turn_local (asks : ∀ first, Local .byte (another first))
    (reads : ∀ state, Reads .byte (part state)) (state : Bool × State) :
    Local .byte (partTurn another part state) := by
  refine (asks _).bind fun more => ?_
  split
  · exact (reads _).near.bind fun _ => pure_local _
  · exact pure_local _

theorem part_turn_progresses (asks : ∀ first, Local .byte (another first))
    (reads : ∀ state, Reads .byte (part state)) : Progresses (partTurn another part) := by
  intro state
  refine .bind_right (asks _) fun more => ?_
  split
  · exact (reads _).takes.bind_left fun _ => @pure_local _ .byte _
  · exact last_takes

theorem part_turns_local (asks : ∀ first, Local .byte (another first))
    (reads : ∀ state, Reads .byte (part state)) (state : Bool × State) :
    Local .byte (takeTurns (partTurn another part) state) :=
  take_turns_local (part_turn_local asks reads) (part_turn_progresses asks reads) state

end

end Scan

theorem hex_unit_local : Local sight hexUnit := by
  refine next_local.bind fun _ => next_local.bind fun _ => next_local.bind fun _ =>
    next_local.bind fun _ => ?_
  split
  · exact pure_local _
  · exact malformed_local

theorem trailing_surrogate_local : Local sight trailingSurrogate := by
  refine (literal_local _).bind fun _ => (literal_local _).bind fun _ =>
    hex_unit_local.bind fun unit => ?_
  split
  · exact pure_local _
  · exact malformed_local

theorem point_escape_local : Local sight pointEscape := by
  refine hex_unit_local.bind fun unit => ?_
  split
  · exact malformed_local
  · split
    · exact trailing_surrogate_local.bind fun _ => pure_local _
    · exact pure_local _

theorem escape_local : Local sight escape := by
  refine next_local.bind fun letter => ?_
  split
  · exact point_escape_local
  · split
    · exact pure_local _
    · exact malformed_local

def textTurn (reversed : List UInt8) : Scan (Option (List UInt8)) := do
  let byte ← next
  if byte = quote then return none
  else if byte = backslash then do
    let bytes ← escape
    return some (bytes.reverse ++ reversed)
  else if byte < 0x20 then fail .malformed
  else return some (byte :: reversed)

theorem text_bytes_eq_turns (rounds reversed : List UInt8) :
    textBytes rounds reversed =
      turns textTurn rounds reversed >>= fun last => return last.reverse := by
  induction rounds generalizing reversed with
  | nil => rfl
  | cons round rounds induction =>
      simp only [textBytes, turns, textTurn, bind_assoc, induction]
      congr 1
      funext byte
      split
      · simp
      · split
        · simp
        · split
          · rfl
          · simp

theorem text_turn_reads (reversed : List UInt8) : Reads sight (textTurn reversed) := by
  refine next_reads.bind fun byte => ?_
  split
  · exact pure_local _
  · split
    · exact escape_local.bind fun _ => pure_local _
    · split
      · exact malformed_local
      · exact pure_local _

theorem text_turns_reads : Reads sight (takeTurns textTurn []) :=
  take_turns_reads (fun reversed => (text_turn_reads reversed).near)
    (fun reversed => .of_takes (@text_turn_reads .nothing reversed).takes)
    (@text_turn_reads .nothing []).takes

theorem text_reads : Reads sight text := by
  refine skip_local.then_reads fun _ => ?_
  rw [budgeted_eq_take_turns fun rounds => text_bytes_eq_turns rounds []]
  refine (text_turns_reads.bind fun _ => pure_local _).bind fun bytes => ?_
  split
  · exact pure_local _
  · exact malformed_local

theorem peek?_bind_local {next : Option UInt8 → Scan Value}
    (near : ∀ seen, Local .stop (next seen))
    (ends : ∀ byte, goesOn byte = false → next (some byte) = next none) :
    Local .stop (peek? >>= next) where
  takes {bytes ending value after} read := by
    obtain ⟨seen, middle, peeked, late⟩ := bind_eq_ok_iff.mp read
    obtain ⟨rfl, rfl, complete⟩ := peek?_eq_ok_iff.mp peeked
    obtain ⟨taken, rfl, afterEnding, again⟩ := (near _).takes late
    refine ⟨taken, rfl, afterEnding, fun other alike => ?_⟩
    have late := again other alike
    cases taken with
    | cons head behind => exact late
    | nil =>
        rcases alike with same | ⟨⟨byte, behind, rest, stop⟩, byte', behind', rfl, stop'⟩
        · have peeked : peek? ⟨other, ending⟩ = .ok (after.rest.head?, ⟨other, ending⟩) :=
            peek?_eq_ok_iff.mpr ⟨same, rfl, fun gone => complete (by
              obtain rfl : other = [] := gone
              exact List.head?_eq_none_iff.mp same)⟩
          exact (bind_of_ok peeked).trans late
        · have seen : next after.rest.head? = next (some byte') := by
            rw [rest, ends byte' stop']
            exact ends byte stop
          rw [List.nil_append, seen] at late
          exact late
  readable failed := by
    rcases bind_eq_error_iff.mp failed with early | ⟨seen, middle, peeked, late⟩
    · exact peek?_local.readable early
    · obtain ⟨-, rfl, -⟩ := peek?_eq_ok_iff.mp peeked
      exact (near seen).readable late

theorem peek?_ignored_local {next : Scan Value} (near : Local .stop next) :
    Local .stop (peek? >>= fun _ => next) :=
  peek?_bind_local (fun _ => near) fun _ _ => rfl

theorem digits_local : Local .stop digits := by
  refine (take_run_local fun rest other alike ends byte head => ?_).bind fun _ => pure_local _
  rcases alike with same | ⟨-, stop, behind, rfl, notOn⟩
  · exact ends byte (by rw [same]; exact head)
  · cases head
    simp only [goesOn, Bool.or_eq_false_iff] at notOn
    exact notOn.1.1.1

theorem digits_bind_reads {next : List Nat → Scan Value} (near : ∀ taken, Local .stop (next taken))
    (refused : ∀ source result, next [] source ≠ .ok result) : Reads .stop (digits >>= next) where
  near := digits_local.bind near
  takes := ⟨fun read _ => by
    obtain ⟨taken, middle, early, late⟩ := bind_eq_ok_iff.mp read
    obtain ⟨run, ⟨rest, ending⟩, took, mapped⟩ := bind_eq_ok_iff.mp early
    obtain ⟨rfl, rfl⟩ := pure_eq_ok_iff.mp mapped
    obtain ⟨bytes, -⟩ := take_run_eq_ok took
    cases run with
    | nil => exact absurd late (refused _ _)
    | cons digit run =>
        rw [bytes, List.length_append, List.length_cons]
        exact Nat.lt_of_le_of_lt ((near _).length_le late) (by simp only; omega)⟩

theorem missing_digits_ne_ok {source : Source} {result : Value × Source} :
    missingDigits source ≠ .ok result := by
  intro read
  obtain ⟨seen, middle, -, late⟩ := bind_eq_ok_iff.mp read
  cases seen <;> cases late

theorem missing_digits_local : Local sight (missingDigits : Scan Value) where
  takes read := absurd read missing_digits_ne_ok
  readable failed := by
    rcases bind_eq_error_iff.mp failed with early | ⟨seen, middle, -, late⟩
    · exact peek?_local.readable early
    · cases seen <;> cases late

theorem real_number_local (isNegative : Bool) (significand : Nat) (exponent : Int) :
    Local sight (realNumber isNegative significand exponent) := by
  unfold realNumber
  split
  · exact pure_local _
  · exact malformed_local

theorem exponent_sign_local : Local .byte exponentSign := by
  refine peek?_local.bind fun seen => ?_
  split
  · exact pure_local _
  · split
    · exact skip_local.bind fun _ => pure_local _
    · split
      · exact skip_local.bind fun _ => pure_local _
      · exact pure_local _

theorem exponent_part_reads (isNegative : Bool) (significand : Nat) (start : Int) :
    Reads .stop (exponentPart isNegative significand start) := by
  refine skip_local.then_reads fun _ => exponent_sign_local.then_reads fun upward =>
    digits_bind_reads (fun taken => ?_) fun _ _ => missing_digits_ne_ok
  simp only
  split
  · exact missing_digits_local
  · split
    · split
      · exact malformed_local
      · exact peek?_ignored_local (pure_local _)
    · exact peek?_ignored_local (real_number_local _ _ _)

theorem is_exponent_mark_goes_on {byte : UInt8} (ends : goesOn byte = false) :
    isExponentMark byte = false := by
  simp only [goesOn, Bool.or_eq_false_iff] at ends
  simp only [isExponentMark, ends, Bool.or_self]

theorem point_goes_on {byte : UInt8} (ends : goesOn byte = false) : byte ≠ point := by
  simp only [goesOn, Bool.or_eq_false_iff, beq_eq_false_iff_ne] at ends
  exact ends.1.1.2

theorem fraction_part_reads (isNegative : Bool) (significand : Nat) (start : Int) :
    Reads .stop (fractionPart isNegative significand start) := by
  refine skip_local.then_reads fun _ => digits_bind_reads (fun taken => ?_) fun _ _ =>
    missing_digits_ne_ok
  split
  · exact missing_digits_local
  · refine peek?_bind_local (fun seen => ?_) fun byte ends => ?_
    · split
      · exact real_number_local _ _ _
      · split
        · exact (exponent_part_reads _ _ _).near
        · exact real_number_local _ _ _
    · simp only [is_exponent_mark_goes_on ends]
      rfl

theorem unsigned_number_reads (isNegative : Bool) : Reads .stop (unsignedNumber isNegative) := by
  refine digits_bind_reads (fun taken => ?_) fun _ _ => missing_digits_ne_ok
  split
  · exact missing_digits_local
  · exact malformed_local
  · have plain_local : ∀ (significand : Nat) (dropped : List Nat), Local .stop
        (if dropped.isEmpty then return .ofInteger isNegative significand
        else realNumber isNegative significand dropped.length : Scan Number) := by
      intro significand dropped
      split
      · exact pure_local _
      · exact real_number_local _ _ _
    refine peek?_bind_local (fun seen => ?_) fun byte ends => ?_
    · split
      · exact plain_local _ _
      · split
        · exact (fraction_part_reads _ _ _).near
        · split
          · exact (exponent_part_reads _ _ _).near
          · exact plain_local _ _
    · simp only [is_exponent_mark_goes_on ends, point_goes_on ends]
      rfl

theorem number_in_place (byte : UInt8) : LocalFrom .stop byte (number byte) := by
  unfold number
  split
  · exact .skip (unsigned_number_reads true).near
  · exact (unsigned_number_reads false).in_place

theorem word_reads {letter : Char} {letters : List Char} : Reads sight (word (letter :: letters)) :=
  literal_reads

def pushElement (element : Scan Value) (reversed : List Value) : Scan (List Value) := do
  let value ← element
  return value :: reversed

theorem elements_eq_turns (element : Scan Value) (rounds : List UInt8) (first : Bool)
    (reversed : List Value) :
    elements element rounds first reversed =
      turns (partTurn anotherElement (pushElement element)) rounds (first, reversed) >>=
        fun last => do
          expect closeBracket
          return last.2.reverse := by
  induction rounds generalizing first reversed with
  | nil => rfl
  | cons round rounds induction =>
      simp only [elements, turns, partTurn, pushElement, bind_assoc, induction]
      congr 1
      funext another
      cases another <;> simp

theorem push_element_reads {element : Scan Value} (reads : Reads sight element)
    (reversed : List Value) : Reads sight (pushElement element reversed) :=
  reads.bind fun _ => pure_local _

theorem array_in_place {within : Sight} {element : Scan Value} (reads : Reads within element)
    (byte : UInt8) : LocalFrom sight byte (array element) := by
  refine .skip ?_
  rw [budgeted_eq_take_turns fun rounds => elements_eq_turns element rounds true []]
  refine Reads.near (Local.then_reads (part_turns_local another_element_local
    (push_element_reads reads.to_byte) _) fun last => (expect_reads _).bind fun _ => pure_local _)

def pushMember (value : Scan FreeValue) (reversed : List (String × FreeValue)) :
    Scan (List (String × FreeValue)) := do
  let name ← text
  expect colon
  let item ← value
  return (name, item) :: reversed

theorem free_members_eq_turns (value : Scan FreeValue) (rounds : List UInt8) (first : Bool)
    (reversed : List (String × FreeValue)) :
    freeMembers value rounds first reversed =
      turns (partTurn anotherMember (pushMember value)) rounds (first, reversed) >>=
        fun last => do
          expect closeBrace
          return last.2.reverse := by
  induction rounds generalizing first reversed with
  | nil => rfl
  | cons round rounds induction =>
      simp only [freeMembers, turns, partTurn, pushMember, bind_assoc, induction]
      congr 1
      funext another
      cases another <;> simp

theorem push_member_reads {value : Scan FreeValue} (reads : Reads sight value)
    (reversed : List (String × FreeValue)) : Reads sight (pushMember value reversed) :=
  text_reads.bind fun _ => (expect_reads colon).near.bind fun _ =>
    reads.near.bind fun _ => pure_local _

theorem free_members_near {value : Scan FreeValue} (reads : Reads .stop value) :
    Local sight (budgeted fun rounds => freeMembers value rounds true []) := by
  rw [budgeted_eq_take_turns fun rounds => free_members_eq_turns value rounds true []]
  have turns := part_turns_local another_member_local (push_member_reads reads.to_byte)
  exact (Local.then_reads (turns _) fun last =>
    (expect_reads closeBrace).bind fun _ => pure_local _).near

theorem free_value_reads (nesting : Nat) : Reads .stop (freeValue nesting) := by
  unfold freeValue
  refine token_bind_reads fun byte => ?_
  split
  · exact word_reads.in_place.bind fun _ => pure_local _
  split
  · exact word_reads.in_place.bind fun _ => pure_local _
  split
  · exact word_reads.in_place.bind fun _ => pure_local _
  split
  · exact text_reads.in_place.bind fun _ => pure_local _
  split
  · exact (number_in_place byte).bind fun _ => pure_local _
  split
  · cases nesting with
    | zero => exact malformed_reads.in_place
    | succ deeper =>
        have reads := free_value_reads deeper
        simp only
        split
        · exact (array_in_place reads byte).bind fun _ => pure_local _
        · exact .skip ((free_members_near reads).bind fun _ => pure_local _)
  · exact malformed_reads.in_place

theorem skip_escape_local : Local sight skipEscape := by
  refine next_local.bind fun letter => ?_
  split
  · exact hex_unit_local.bind fun _ => pure_local _
  · split
    · exact pure_local _
    · exact malformed_local

def skipTextTurn (_ : Unit) : Scan (Option Unit) := do
  let byte ← next
  if byte = quote then return none
  else if byte = backslash then do
    skipEscape
    return some ()
  else if byte < 0x20 then fail .malformed
  else return some ()

theorem skip_text_bytes_eq_turns (rounds : List UInt8) :
    skipTextBytes rounds = turns skipTextTurn rounds () >>= fun _ => return () := by
  induction rounds with
  | nil => rfl
  | cons round rounds induction =>
      simp only [skipTextBytes, turns, skipTextTurn, bind_assoc, induction]
      congr 1
      funext byte
      split
      · simp
      · split
        · simp
        · split
          · rfl
          · simp

theorem skip_text_turn_reads (state : Unit) : Reads sight (skipTextTurn state) := by
  refine next_reads.bind fun byte => ?_
  split
  · exact pure_local _
  · split
    · exact skip_escape_local.bind fun _ => pure_local _
    · split
      · exact malformed_local
      · exact pure_local _

theorem skip_text_reads : Reads sight skipText := by
  refine skip_local.then_reads fun _ => ?_
  rw [budgeted_eq_take_turns skip_text_bytes_eq_turns]
  exact (take_turns_reads (fun state => (skip_text_turn_reads state).near)
    (fun state => .of_takes (@skip_text_turn_reads .nothing state).takes)
    (@skip_text_turn_reads .nothing ()).takes).bind fun _ => pure_local _

theorem cut_number_ne_ok {source : Source} {result : Unit × Source} :
    cutNumber source ≠ .ok result := by
  intro read
  obtain ⟨seen, middle, -, late⟩ := bind_eq_ok_iff.mp read
  cases late

theorem cut_number_local : Local sight cutNumber where
  takes read := absurd read cut_number_ne_ok
  readable failed := by
    rcases bind_eq_error_iff.mp failed with early | ⟨seen, middle, -, late⟩
    · exact peek?_local.readable early
    · cases late

theorem skip_exponent_part_reads : Reads .stop skipExponentPart := by
  refine skip_local.then_reads fun _ => exponent_sign_local.then_reads fun _ =>
    digits_bind_reads (fun taken => ?_) fun _ _ => cut_number_ne_ok
  split
  · exact cut_number_local
  · exact peek?_ignored_local (pure_local ())

theorem skip_fraction_part_reads : Reads .stop skipFractionPart := by
  refine skip_local.then_reads fun _ => digits_bind_reads (fun taken => ?_) fun _ _ =>
    cut_number_ne_ok
  split
  · exact cut_number_local
  · refine peek?_bind_local (fun seen => ?_) fun byte ends => ?_
    · split
      · exact pure_local ()
      · split
        · exact skip_exponent_part_reads.near
        · exact pure_local ()
    · simp only [is_exponent_mark_goes_on ends]
      rfl

theorem skip_unsigned_number_reads : Reads .stop skipUnsignedNumber := by
  refine digits_bind_reads (fun taken => ?_) fun _ _ => cut_number_ne_ok
  split
  · exact cut_number_local
  · exact malformed_local
  · refine peek?_bind_local (fun seen => ?_) fun byte ends => ?_
    · split
      · exact pure_local ()
      · split
        · exact skip_fraction_part_reads.near
        · split
          · exact skip_exponent_part_reads.near
          · exact pure_local ()
    · simp only [is_exponent_mark_goes_on ends, point_goes_on ends]
      rfl

theorem skip_scalar_in_place (byte : UInt8) : LocalFrom .stop byte (skipScalar byte) := by
  unfold skipScalar
  split
  · exact word_reads.in_place
  split
  · exact word_reads.in_place
  split
  · exact word_reads.in_place
  split
  · exact skip_text_reads.in_place
  split
  · exact .skip skip_unsigned_number_reads.near
  split
  · exact skip_unsigned_number_reads.in_place
  · exact malformed_reads.in_place

theorem skip_name_reads : Reads sight skipName := by
  refine token_bind_reads fun byte => ?_
  split
  · exact (skip_text_reads.bind fun _ => (expect_reads colon).near).in_place
  · exact malformed_reads.in_place

def skipTurn : Bool × List Frame → Scan (Option (Bool × List Frame))
  | (true, frames) => do
      let byte ← token
      if byte = openBracket then do
        skip
        if (← token) = closeBracket then do
          skip
          return some (false, frames)
        else return some (true, .array :: frames)
      else if byte = openBrace then do
        skip
        if (← token) = closeBrace then do
          skip
          return some (false, frames)
        else do
          skipName
          return some (true, .object :: frames)
      else do
        skipScalar byte
        return some (false, frames)
  | (false, []) => return none
  | (false, .array :: frames) => do
      let byte ← token
      if byte = comma then do
        skip
        return some (true, .array :: frames)
      else if byte = closeBracket then do
        skip
        return some (false, frames)
      else fail .malformed
  | (false, .object :: frames) => do
      let byte ← token
      if byte = comma then do
        skip
        skipName
        return some (true, .object :: frames)
      else if byte = closeBrace then do
        skip
        return some (false, frames)
      else fail .malformed

theorem skip_frames_eq_turns (rounds : List UInt8) (due : Bool) (frames : List Frame) :
    skipFrames rounds due frames = turns skipTurn rounds (due, frames) >>= fun _ => return () := by
  induction rounds generalizing due frames with
  | nil => rfl
  | cons round rounds induction =>
      match due, frames with
      | true, frames =>
          simp only [skipFrames, turns, skipTurn, bind_assoc, induction]
          congr 1
          funext byte
          split
          · simp only [bind_assoc]
            congr 1
            funext _
            congr 1
            funext head
            split <;> simp
          · split
            · simp only [bind_assoc]
              congr 1
              funext _
              congr 1
              funext head
              split <;> simp
            · simp
      | false, [] => rfl
      | false, .array :: frames =>
          simp only [skipFrames, turns, skipTurn, bind_assoc, induction]
          congr 1
          funext byte
          split
          · simp
          · split
            · simp
            · rfl
      | false, .object :: frames =>
          simp only [skipFrames, turns, skipTurn, bind_assoc, induction]
          congr 1
          funext byte
          split
          · simp
          · split
            · simp
            · rfl

theorem skip_turn_due_reads (frames : List Frame) : Reads .byte (skipTurn (true, frames)) := by
  refine token_bind_reads fun byte => ?_
  split
  · refine .skip (token_local.bind fun head => ?_)
    split
    · exact skip_local.bind fun _ => pure_local _
    · exact pure_local _
  · split
    · refine .skip (token_local.bind fun head => ?_)
      split
      · exact skip_local.bind fun _ => pure_local _
      · exact skip_name_reads.near.bind fun _ => pure_local _
    · exact (skip_scalar_in_place byte).to_byte.bind fun _ => pure_local _

theorem skip_turn_passed_reads (frame : Frame) (frames : List Frame) :
    Reads .byte (skipTurn (false, frame :: frames)) := by
  cases frame with
  | array =>
      refine token_bind_reads fun byte => ?_
      split
      · exact .skip (pure_local _)
      · split
        · exact .skip (pure_local _)
        · exact malformed_reads.in_place
  | object =>
      refine token_bind_reads fun byte => ?_
      split
      · exact .skip (skip_name_reads.near.bind fun _ => pure_local _)
      · split
        · exact .skip (pure_local _)
        · exact malformed_reads.in_place

theorem skip_turn_local : ∀ state, Local .byte (skipTurn state)
  | (true, frames) => (skip_turn_due_reads frames).near
  | (false, []) => pure_local none
  | (false, frame :: frames) => (skip_turn_passed_reads frame frames).near

theorem skip_turn_progresses : Progresses skipTurn
  | (true, frames) => .of_takes (skip_turn_due_reads frames).takes
  | (false, []) => last_takes
  | (false, frame :: frames) => .of_takes (skip_turn_passed_reads frame frames).takes

theorem skip_value_reads : Reads .byte skipValue := by
  rw [skipValue, budgeted_eq_take_turns fun rounds => skip_frames_eq_turns rounds true []]
  exact (take_turns_reads skip_turn_local skip_turn_progresses (skip_turn_due_reads []).takes).bind
    fun _ => pure_local _

end SymmetricTrees.Description
