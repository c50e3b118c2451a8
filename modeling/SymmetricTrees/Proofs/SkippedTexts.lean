import SymmetricTrees.Proofs.JsonTexts
import SymmetricTrees.Proofs.ReadingValues

/-!
The reader that skips values passes every well-formed value, and stops right
behind it. What it does inside arrays and objects is stated for both at once: a
part is due, and behind a part the innermost frame goes on or closes.
-/

set_option autoImplicit false

namespace SymmetricTrees.Description

open Scan
open Relation (ReflTransGen)

/-- The reader that skips values gets from one place to another by passing one
value, whatever is open around it. -/
def Passes (source after : Source) : Prop :=
  ∀ frames, ReflTransGen (Again skipTurn) ((true, frames), source) ((false, frames), after)

theorem stops_of_not_goes_on {byte : UInt8} {rest : List UInt8} (ends : goesOn byte = false) :
    Stops (byte :: rest) := ⟨byte, rest, rfl, ends⟩

theorem blank_stops {blanks rest : List UInt8} (blank : Blank blanks) (stops : Stops rest) :
    Stops (blanks ++ rest) := by
  cases blanks with
  | nil => exact stops
  | cons byte blanks =>
      apply stops_of_not_goes_on
      have kind := blank byte (List.mem_cons_self ..)
      simp only [isBlank, Bool.or_eq_true, beq_iff_eq] at kind
      rcases kind with ((rfl | rfl) | rfl) | rfl <;> rfl

theorem not_digit_of_not_goes_on {byte : UInt8} (ends : goesOn byte = false) :
    isDigit byte = false := by
  simp only [goesOn, Bool.or_eq_false_iff] at ends
  exact ends.1.1.1

theorem Stops.not_digit {rest : List UInt8} (stops : Stops rest) :
    ∀ byte ∈ rest.head?, isDigit byte = false := by
  rcases stops with ⟨byte, behind, rfl, ends⟩
  intro head same
  cases same
  exact not_digit_of_not_goes_on ends

section

variable {rest : List UInt8} {ending : Ending}

theorem peek?_cons {byte : UInt8} :
    peek? ⟨byte :: rest, ending⟩ = .ok (some byte, ⟨byte :: rest, ending⟩) := rfl

theorem skip_cons {byte : UInt8} : skip ⟨byte :: rest, ending⟩ = .ok ((), ⟨rest, ending⟩) := rfl

theorem next_cons {byte : UInt8} : next ⟨byte :: rest, ending⟩ = .ok (byte, ⟨rest, ending⟩) := rfl

theorem digits_append {taken : List UInt8} (all : AllDigits taken)
    (ends : ∀ byte ∈ rest.head?, isDigit byte = false) :
    digits ⟨taken ++ rest, ending⟩ =
      .ok (taken.map fun byte => byte.toNat - 0x30, ⟨rest, ending⟩) := by
  rw [digits, bind_of_ok (take_run_append all ends)]
  rfl

theorem skip_exponent_part_append {mark : UInt8} {sign taken : List UInt8}
    (isSign : sign ∈ [[], ['+'.toUInt8], [minus]]) (some : taken ≠ []) (all : AllDigits taken)
    (stops : Stops rest) :
    skipExponentPart ⟨mark :: (sign ++ (taken ++ rest)), ending⟩ = .ok ((), ⟨rest, ending⟩) := by
  have signed : ∃ upward, exponentSign ⟨sign ++ (taken ++ rest), ending⟩ =
      .ok (upward, ⟨taken ++ rest, ending⟩) := by
    simp only [List.mem_cons, List.not_mem_nil, or_false] at isSign
    rcases isSign with rfl | rfl | rfl
    · cases taken with
      | nil => exact absurd rfl some
      | cons digit taken =>
          have isDigit := all digit (List.mem_cons_self ..)
          refine ⟨true, ?_⟩
          rw [List.nil_append, List.cons_append, exponentSign, bind_of_ok peek?_cons]
          have plus : digit ≠ '+'.toUInt8 := by
            rintro rfl
            cases isDigit
          have minus : digit ≠ minus := by
            rintro rfl
            cases isDigit
          simp only [plus, minus, if_false]
          rfl
    · exact ⟨true, rfl⟩
    · exact ⟨false, rfl⟩
  rcases signed with ⟨upward, signed⟩
  rcases stops with ⟨stop, behind, rfl, ends⟩
  have isEmpty : (taken.map fun byte => byte.toNat - 0x30).isEmpty = false := by
    simpa using some
  rw [skipExponentPart, bind_of_ok skip_cons, bind_of_ok signed,
    bind_of_ok (digits_append all (Stops.not_digit ⟨stop, behind, rfl, ends⟩)), isEmpty]
  rfl

theorem Exponent.ends {exponent : List UInt8} (isExponent : Exponent exponent)
    (stops : Stops rest) : ∀ byte ∈ (exponent ++ rest).head?, isDigit byte = false := by
  cases isExponent with
  | none => exact stops.not_digit
  | @some mark _ _ isMark =>
      intro byte head
      cases head
      simp only [isExponentMark, Bool.or_eq_true, beq_iff_eq] at isMark
      rcases isMark with rfl | rfl <;> rfl

theorem skip_fraction_part_append {taken exponent : List UInt8} (some : taken ≠ [])
    (all : AllDigits taken) (isExponent : Exponent exponent) (stops : Stops rest) :
    skipFractionPart ⟨point :: (taken ++ (exponent ++ rest)), ending⟩ =
      .ok ((), ⟨rest, ending⟩) := by
  have isEmpty : (taken.map fun byte => byte.toNat - 0x30).isEmpty = false := by
    simpa using some
  rw [skipFractionPart, bind_of_ok skip_cons,
    bind_of_ok (digits_append all (isExponent.ends stops)), isEmpty]
  cases isExponent with
  | none =>
      rcases stops with ⟨stop, behind, rfl, ends⟩
      rw [List.nil_append]
      simp only [Bool.false_eq_true, if_false, bind_of_ok peek?_cons, is_exponent_mark_goes_on ends]
      rfl
  | some isMark isSign some all =>
      simp only [Bool.false_eq_true, if_false, List.cons_append, List.append_assoc,
        bind_of_ok peek?_cons, isMark, if_true]
      exact skip_exponent_part_append isSign some all stops

theorem Fraction.ends {fraction exponent : List UInt8} (isFraction : Fraction fraction)
    (isExponent : Exponent exponent) (stops : Stops rest) :
    ∀ byte ∈ (fraction ++ (exponent ++ rest)).head?, isDigit byte = false := by
  cases isFraction with
  | none => exact isExponent.ends stops
  | some =>
      intro byte head
      cases head
      rfl

def skipBehindDigits : Scan Unit := do
  match ← peek? with
  | none => return ()
  | some byte =>
      if byte = point then skipFractionPart
      else if isExponentMark byte then skipExponentPart
      else return ()

theorem skip_behind_digits_append {fraction exponent : List UInt8} (isFraction : Fraction fraction)
    (isExponent : Exponent exponent) (stops : Stops rest) :
    skipBehindDigits ⟨fraction ++ (exponent ++ rest), ending⟩ = .ok ((), ⟨rest, ending⟩) := by
  cases isFraction with
  | some some all =>
      simp only [skipBehindDigits, List.cons_append, bind_of_ok peek?_cons, if_true]
      exact skip_fraction_part_append some all isExponent stops
  | none =>
      cases isExponent with
      | @some mark _ _ isMark isSign some all =>
          have notPoint : mark ≠ point := by
            rintro rfl
            cases isMark
          simp only [skipBehindDigits, List.nil_append, List.cons_append, List.append_assoc,
            bind_of_ok peek?_cons, notPoint, if_false, isMark, if_true]
          exact skip_exponent_part_append isSign some all stops
      | none =>
          rcases stops with ⟨stop, behind, rfl, ends⟩
          simp only [skipBehindDigits, List.nil_append, bind_of_ok peek?_cons,
            is_exponent_mark_goes_on ends, point_goes_on ends, Bool.false_eq_true, if_false]
          rfl

theorem digit_ne_zero {byte : UInt8} (digit : isDigit byte = true) (notZero : byte ≠ 0x30) :
    byte.toNat - 0x30 ≠ 0 := by
  simp only [isDigit, Bool.and_eq_true, decide_eq_true_eq, UInt8.le_iff_toNat_le] at digit
  have different : byte.toNat ≠ 0x30 := by
    intro same
    exact notZero (UInt8.toNat_inj.mp same)
  have least : 0x30 ≤ byte.toNat := digit.1
  omega

theorem Whole.all {whole : List UInt8} (isWhole : Whole whole) : AllDigits whole := by
  cases isWhole with
  | zero =>
      intro byte same
      cases List.mem_singleton.mp same
      rfl
  | other _ all => exact all

theorem skip_unsigned_number_append {whole fraction exponent : List UInt8} (isWhole : Whole whole)
    (isFraction : Fraction fraction) (isExponent : Exponent exponent) (stops : Stops rest) :
    skipUnsignedNumber ⟨whole ++ (fraction ++ (exponent ++ rest)), ending⟩ =
      .ok ((), ⟨rest, ending⟩) := by
  have behind := @skip_behind_digits_append _ ending _ _ isFraction isExponent stops
  rw [skipUnsignedNumber, bind_of_ok (digits_append isWhole.all (isFraction.ends isExponent stops))]
  cases isWhole with
  | zero => exact behind
  | @other first later notZero all =>
      have notZero := digit_ne_zero (all first (List.mem_cons_self ..)) notZero
      rw [List.map_cons]
      cases value : first.toNat - 0x30 with
      | zero => exact absurd value notZero
      | succ digit => exact behind

theorem skip_text_turns_spelled {inner : List UInt8} (spelled : Spelled inner) :
    ReflTransGen (Again skipTextTurn) ((), ⟨inner ++ rest, ending⟩) ((), ⟨rest, ending⟩) := by
  induction spelled with
  | nil => exact .refl
  | @plain byte inner notQuote notBackslash printable _ induction =>
      apply ReflTransGen.head _ induction
      have notControl : ¬byte < 0x20 := UInt8.not_lt.mpr printable
      simp only [Again, skipTextTurn, List.cons_append, bind_of_ok next_cons, notQuote,
        notBackslash, notControl, if_false]
      rfl
  | @escape letter inner known _ induction =>
      apply ReflTransGen.head _ induction
      have notPoint : letter ≠ 'u'.toUInt8 := by
        rintro rfl
        cases known
      have escaped : skipEscape ⟨letter :: (inner ++ rest), ending⟩ =
          .ok ((), ⟨inner ++ rest, ending⟩) := by
        simp only [skipEscape, bind_of_ok next_cons, notPoint, if_false, known, if_true]
        rfl
      have notQuote : backslash ≠ quote := by decide
      simp only [Again, skipTextTurn, List.cons_append, bind_of_ok next_cons, notQuote, if_false,
        if_true, bind_of_ok escaped]
      rfl
  | @point digit3 digit2 digit1 digit0 inner known _ induction =>
      apply ReflTransGen.head _ induction
      simp only [List.forall_mem_cons, Option.isSome_iff_exists] at known
      rcases known with ⟨⟨value3, known3⟩, ⟨value2, known2⟩, ⟨value1, known1⟩, ⟨value0, known0⟩, -⟩
      have escaped : skipEscape
          ⟨'u'.toUInt8 :: digit3 :: digit2 :: digit1 :: digit0 :: (inner ++ rest), ending⟩ =
          .ok ((), ⟨inner ++ rest, ending⟩) := by
        simp only [skipEscape, hexUnit, bind_assoc, bind_of_ok next_cons, if_true, known3, known2,
          known1, known0]
        rfl
      have notQuote : backslash ≠ quote := by decide
      simp only [Again, skipTextTurn, List.cons_append, bind_of_ok next_cons, notQuote, if_false,
        if_true, bind_of_ok escaped]
      rfl

theorem skip_text_append {text : List UInt8} (quoted : Quoted text) :
    skipText ⟨text ++ rest, ending⟩ = .ok ((), ⟨rest, ending⟩) := by
  cases quoted with
  | @intro inner spelled =>
      have turned : takeTurns skipTextTurn () ⟨inner ++ quote :: rest, ending⟩ =
          .ok ((), ⟨rest, ending⟩) := by
        rw [take_turns_eq_ok_iff fun state =>
          .of_takes (@skip_text_turn_reads .nothing state).takes]
        exact ⟨_, skip_text_turns_spelled spelled, rfl⟩
      rw [skipText, budgeted_eq_take_turns skip_text_bytes_eq_turns, List.cons_append,
        List.append_assoc, bind_of_ok skip_cons]
      exact (bind_of_ok turned).trans rfl

theorem passes_scalar {byte : UInt8} {bytes : List UInt8} {after : Source}
    (solid : isBlank byte = false) (noArray : byte ≠ openBracket) (noObject : byte ≠ openBrace)
    (skipped : skipScalar byte ⟨byte :: bytes, ending⟩ = .ok ((), after)) :
    Passes ⟨byte :: bytes, ending⟩ after := by
  intro frames
  apply ReflTransGen.single
  have seen := @token_append [] bytes byte (List.forall_mem_nil _) solid ending
  rw [List.nil_append] at seen
  simp only [Again, skipTurn, bind_of_ok seen, noArray, noObject, if_false, bind_of_ok skipped]
  rfl

theorem token_cons {byte : UInt8} (solid : isBlank byte = false) :
    token ⟨byte :: rest, ending⟩ = .ok (byte, ⟨byte :: rest, ending⟩) :=
  @token_append [] rest byte (List.forall_mem_nil _) solid ending

theorem expect_append {blanks : List UInt8} {expected : UInt8} (blank : Blank blanks)
    (solid : isBlank expected = false) :
    expect expected ⟨blanks ++ expected :: rest, ending⟩ = .ok ((), ⟨rest, ending⟩) := by
  rw [expect, bind_of_ok (token_append blank solid ending), if_pos rfl]
  rfl

/-- Blanks in front of a value that is due, or of what an open frame needs, do not
matter. -/
theorem skip_turn_blanks {blanks : List UInt8} (blank : Blank blanks) {due : Bool}
    {frames : List Frame} (open_ : due = true ∨ frames ≠ []) (bytes : List UInt8) :
    skipTurn (due, frames) ⟨blanks ++ bytes, ending⟩ = skipTurn (due, frames) ⟨bytes, ending⟩ := by
  match due, frames with
  | true, frames => exact token_bind_blanks blank bytes ending _
  | false, [] => simp at open_
  | false, .array :: frames => exact token_bind_blanks blank bytes ending _
  | false, .object :: frames => exact token_bind_blanks blank bytes ending _

theorem reaches_blanks {blanks : List UInt8} (blank : Blank blanks) (frames frames' : List Frame)
    (bytes : List UInt8) (after : Source) :
    ReflTransGen (Again skipTurn) ((true, frames), ⟨blanks ++ bytes, ending⟩)
        ((false, frames'), after) ↔
      ReflTransGen (Again skipTurn) ((true, frames), ⟨bytes, ending⟩)
        ((false, frames'), after) := by
  have same := @skip_turn_blanks ending blanks blank true frames (.inl rfl) bytes
  constructor
  · intro reaches
    rcases ReflTransGen.cases_head reaches with stays | ⟨middle, took, later⟩
    · cases stays
    · have took : Again skipTurn ((true, frames), ⟨bytes, ending⟩) middle := same.symm.trans took
      exact .head took later
  · intro reaches
    rcases ReflTransGen.cases_head reaches with stays | ⟨middle, took, later⟩
    · cases stays
    · have took : Again skipTurn ((true, frames), ⟨blanks ++ bytes, ending⟩) middle :=
        same.trans took
      exact .head took later

theorem passes_blanks {blanks : List UInt8} (blank : Blank blanks) {bytes : List UInt8}
    {after : Source} :
    Passes ⟨blanks ++ bytes, ending⟩ after ↔ Passes ⟨bytes, ending⟩ after :=
  forall_congr' fun frames => reaches_blanks blank frames frames bytes after

theorem expect_cons {expected : UInt8} (solid : isBlank expected = false) :
    expect expected ⟨expected :: rest, ending⟩ = .ok ((), ⟨rest, ending⟩) :=
  @expect_append _ _ [] expected (List.forall_mem_nil _) solid

theorem skip_scalar_digit {byte : UInt8} (digit : isDigit byte = true) :
    skipScalar byte = skipUnsignedNumber := by
  have different : ∀ other, isDigit other = false → byte ≠ other := by
    rintro other noDigit rfl
    exact absurd digit (noDigit ▸ Bool.false_ne_true)
  simp only [skipScalar, different 'n'.toUInt8 rfl, different 't'.toUInt8 rfl,
    different 'f'.toUInt8 rfl, different quote rfl, different minus rfl, if_false, digit, if_true]

theorem Numeral.passes {text : List UInt8} (numeral : Numeral text) (stops : Stops rest) :
    Passes ⟨text ++ rest, ending⟩ ⟨rest, ending⟩ := by
  cases numeral with
  | @intro sign whole fraction exponent isSign isWhole isFraction isExponent =>
      have skipped :=
        @skip_unsigned_number_append rest ending _ _ _ isWhole isFraction isExponent stops
      simp only [List.mem_cons, List.not_mem_nil, or_false] at isSign
      simp only [List.append_assoc]
      rcases isSign with rfl | rfl
      · cases whole with
        | nil => cases isWhole
        | cons first later =>
            have digit := isWhole.all first (List.mem_cons_self ..)
            have start := starts_value_of_digit digit
            simp only [startsValue, Bool.and_eq_true, Bool.not_eq_true'] at start
            have noBracket : first ≠ openBracket := by
              rintro rfl
              cases digit
            have noBrace : first ≠ openBrace := by
              rintro rfl
              cases digit
            rw [← skip_scalar_digit digit] at skipped
            exact passes_scalar start.1.1 noBracket noBrace skipped
      · exact passes_scalar rfl (by decide) (by decide) skipped

namespace Frame

def opening : Frame → UInt8
  | array => openBracket
  | object => openBrace

def closing : Frame → UInt8
  | array => closeBracket
  | object => closeBrace

def Opens : Frame → UInt8 → Prop
  | array, byte => byte ≠ closeBracket
  | object, byte => byte = quote

theorem opening_solid (frame : Frame) : isBlank frame.opening = false := by
  cases frame <;> rfl

theorem closing_solid (frame : Frame) : isBlank frame.closing = false := by
  cases frame <;> rfl

theorem comma_ne_closing (frame : Frame) : comma ≠ frame.closing := by
  cases frame <;> decide

end Frame

/-- The reader that skips values gets from where a part is due to the end of its
frame. A member's name is skipped when it is due, its value in later turns. -/
def Due : Frame → List Frame → Source → Source → Prop
  | .array, frames, source, after =>
      ReflTransGen (Again skipTurn) ((true, .array :: frames), source) ((false, frames), after)
  | .object, frames, source, after => ∃ middle, skipName source = .ok ((), middle) ∧
      ReflTransGen (Again skipTurn) ((true, .object :: frames), middle) ((false, frames), after)

def PassesPart (frame : Frame) (source middle : Source) : Prop :=
  ∀ frames after, ReflTransGen (Again skipTurn) ((false, frame :: frames), middle)
    ((false, frames), after) → Due frame frames source after

theorem passes_part_array {source middle : Source} (passes : Passes source middle) :
    PassesPart .array source middle :=
  fun frames _ later => (passes (.array :: frames)).trans later

theorem passes_part_object {source between middle : Source}
    (named : skipName source = .ok ((), between)) (passes : Passes between middle) :
    PassesPart .object source middle :=
  fun frames _ later => ⟨between, named, (passes (.object :: frames)).trans later⟩

theorem due_blanks {blanks : List UInt8} (blank : Blank blanks) (frame : Frame)
    (frames : List Frame) (after : Source) :
    Due frame frames ⟨blanks ++ rest, ending⟩ after ↔ Due frame frames ⟨rest, ending⟩ after := by
  cases frame with
  | array => exact reaches_blanks blank _ _ _ _
  | object =>
      have same : skipName ⟨blanks ++ rest, ending⟩ = skipName ⟨rest, ending⟩ :=
        token_bind_blanks blank _ _ _
      simp only [Due, same]

theorem reaches_comma {source : Source} {frame : Frame} {frames : List Frame} {after : Source}
    (seen : token source = .ok (comma, ⟨comma :: rest, ending⟩))
    (due : Due frame frames ⟨rest, ending⟩ after) :
    ReflTransGen (Again skipTurn) ((false, frame :: frames), source) ((false, frames), after) := by
  cases frame with
  | array =>
      apply ReflTransGen.head _ due
      simp only [Again, skipTurn, bind_of_ok seen, if_true]
      rfl
  | object =>
      rcases due with ⟨middle, named, reaches⟩
      apply ReflTransGen.head _ reaches
      simp only [Again, skipTurn, bind_of_ok seen, if_true, bind_of_ok skip_cons, bind_of_ok named]
      rfl

theorem reaches_close {source : Source} {frame : Frame} {frames : List Frame}
    (seen : token source = .ok (frame.closing, ⟨frame.closing :: rest, ending⟩)) :
    ReflTransGen (Again skipTurn) ((false, frame :: frames), source)
      ((false, frames), ⟨rest, ending⟩) := by
  apply ReflTransGen.single
  have noComma := frame.comma_ne_closing.symm
  cases frame with
  | array =>
      simp only [Frame.closing] at seen noComma
      simp only [Again, skipTurn, bind_of_ok seen, noComma, if_false, if_true]
      rfl
  | object =>
      simp only [Frame.closing] at seen noComma
      simp only [Again, skipTurn, bind_of_ok seen, noComma, if_false, if_true]
      rfl

theorem passes_open {frame : Frame} {byte : UInt8} {middle after : Source}
    (seen : token ⟨rest, ending⟩ = .ok (byte, middle)) (opens : frame.Opens byte)
    (due : ∀ frames, Due frame frames middle after) :
    Passes ⟨frame.opening :: rest, ending⟩ after := by
  intro frames
  have opened := @token_cons rest ending frame.opening frame.opening_solid
  cases frame with
  | array =>
      apply ReflTransGen.head _ (due frames)
      have opens : byte ≠ closeBracket := opens
      simp only [Frame.opening] at opened
      simp only [Again, skipTurn, Frame.opening, bind_of_ok opened, if_true, bind_of_ok skip_cons,
        bind_of_ok seen, opens, if_false]
      rfl
  | object =>
      rcases due frames with ⟨between, named, reaches⟩
      apply ReflTransGen.head _ reaches
      have opens : byte ≠ closeBrace := by
        have isQuote : byte = quote := opens
        rw [isQuote]
        decide
      have noBracket : openBrace ≠ openBracket := by decide
      simp only [Frame.opening] at opened
      simp only [Again, skipTurn, Frame.opening, bind_of_ok opened, noBracket, if_false, if_true,
        bind_of_ok skip_cons, bind_of_ok seen, opens, bind_of_ok named]
      rfl

theorem passes_empty {frame : Frame} {after : Source}
    (seen : token ⟨rest, ending⟩ =
      .ok (frame.closing, ⟨frame.closing :: after.rest, after.ending⟩)) :
    Passes ⟨frame.opening :: rest, ending⟩ after := by
  intro frames
  apply ReflTransGen.single
  have opened := @token_cons rest ending frame.opening frame.opening_solid
  cases frame with
  | array =>
      simp only [Frame.opening, Frame.closing] at opened seen
      simp only [Again, skipTurn, Frame.opening, bind_of_ok opened, if_true, bind_of_ok skip_cons,
        bind_of_ok seen]
      rfl
  | object =>
      have noBracket : openBrace ≠ openBracket := by decide
      simp only [Frame.opening, Frame.closing] at opened seen
      simp only [Again, skipTurn, Frame.opening, bind_of_ok opened, noBracket, if_false, if_true,
        bind_of_ok skip_cons, bind_of_ok seen]
      rfl

/-- What is left of a frame, from its opening byte on or from behind one of its
parts, and what stands behind the frame. -/
inductive Remains (frame : Frame) (rest : List UInt8) : Bool → List (List UInt8) → List UInt8 → Prop
  | closes {first : Bool} {blanks : List UInt8} : Blank blanks →
      Remains frame rest first [] (blanks ++ frame.closing :: rest)
  | starts {before part behind : List UInt8} {parts : List (List UInt8)} : Blank before →
      Remains frame rest false parts behind →
      Remains frame rest true (part :: parts) (before ++ (part ++ behind))
  | continues {blanks before part behind : List UInt8} {parts : List (List UInt8)} :
      Blank blanks → Blank before → Remains frame rest false parts behind →
      Remains frame rest false (part :: parts) (blanks ++ comma :: (before ++ (part ++ behind)))

theorem Remains.stops {frame : Frame} {parts : List (List UInt8)} {bytes : List UInt8}
    (remains : Remains frame rest false parts bytes) : Stops bytes := by
  cases remains with
  | closes blank => exact blank_stops blank (stops_of_not_goes_on (by cases frame <;> rfl))
  | continues blank _ _ => exact blank_stops blank (stops_of_not_goes_on rfl)

theorem Remains.later {frame : Frame} {parts : List (List UInt8)} {bytes blanks : List UInt8}
    (remains : Remains frame rest true parts bytes) (some : parts ≠ []) (blank : Blank blanks) :
    Remains frame rest false parts (blanks ++ comma :: bytes) := by
  cases remains with
  | closes _ => exact absurd rfl some
  | starts blankBefore behind => exact .continues blank blankBefore behind

theorem remains_of_led {frame : Frame} {parts : List (List UInt8)}
    {lead before last behind : List UInt8}
    (led : Led parts lead) (blank : Blank before) (blank' : Blank behind) :
    Remains frame rest true (parts ++ [last])
      (lead ++ (before ++ (last ++ (behind ++ frame.closing :: rest)))) := by
  induction led with
  | nil => exact .starts blank (.closes blank')
  | cons blankBefore blankBehind _ induction =>
      simp only [List.append_assoc, List.cons_append]
      exact .starts blankBefore (induction.later (by simp) blankBehind)

theorem remains_of_enclosed {frame : Frame} {parts : List (List UInt8)} {text : List UInt8}
    (enclosed : Enclosed frame.opening frame.closing parts text) :
    ∃ inside, text ++ rest = frame.opening :: inside ∧ Remains frame rest true parts inside := by
  cases enclosed with
  | none blank =>
      refine ⟨_, List.cons_append, ?_⟩
      rw [List.append_assoc]
      exact .closes blank
  | some led blank blank' =>
      refine ⟨_, List.cons_append, ?_⟩
      simp only [List.append_assoc]
      exact remains_of_led led blank blank'

def StartsPart (frame : Frame) (text : List UInt8) : Prop :=
  ∃ byte behind, text = byte :: behind ∧ isBlank byte = false ∧ frame.Opens byte

theorem starts_part_array {item : List UInt8} (json : Json item) : StartsPart .array item := by
  rcases json.starts with ⟨byte, behind, same, start⟩
  simp only [startsValue, Bool.and_eq_true, Bool.not_eq_true', bne_iff_ne] at start
  exact ⟨byte, behind, same, start.1.1, start.1.2⟩

theorem starts_part_object {member : Member} {part : List UInt8} (written : MemberText member part)
    (quoted : Quoted member.key) : StartsPart .object part := by
  rcases member with ⟨key, value⟩
  cases written with
  | intro =>
      cases quoted with
      | intro => exact ⟨quote, _, rfl, rfl, rfl⟩

/-- What may be a part of a frame: it starts like one, and it is passed whatever stops it. -/
def PartText (frame : Frame) (ending : Ending) (part : List UInt8) : Prop :=
  StartsPart frame part ∧
    ∀ {more : List UInt8}, Stops more → PassesPart frame ⟨part ++ more, ending⟩ ⟨more, ending⟩

theorem Remains.reaches {frame : Frame} {frames : List Frame} {parts : List (List UInt8)}
    {bytes : List UInt8} (remains : Remains frame rest false parts bytes)
    (each : ∀ part ∈ parts, PartText frame ending part) :
    ReflTransGen (Again skipTurn) ((false, frame :: frames), ⟨bytes, ending⟩)
      ((false, frames), ⟨rest, ending⟩) := by
  generalize later : false = first at remains
  induction remains with
  | closes blank =>
      cases later
      exact reaches_close (token_append blank frame.closing_solid ending)
  | starts => cases later
  | continues blank blankBefore behind induction =>
      rcases List.forall_mem_cons.mp each with ⟨⟨-, passes⟩, others⟩
      apply reaches_comma (token_append blank rfl ending)
      rw [due_blanks blankBefore]
      exact passes behind.stops _ _ (induction others rfl)

theorem enclosed_passes {frame : Frame} {parts : List (List UInt8)} {text : List UInt8}
    (enclosed : Enclosed frame.opening frame.closing parts text)
    (each : ∀ part ∈ parts, PartText frame ending part) :
    Passes ⟨text ++ rest, ending⟩ ⟨rest, ending⟩ := by
  rcases @remains_of_enclosed rest frame parts text enclosed with ⟨inside, same, remains⟩
  rw [same]
  cases remains with
  | closes blank => exact passes_empty (token_append blank frame.closing_solid ending)
  | starts blank behind =>
      rcases List.forall_mem_cons.mp each with ⟨⟨⟨byte, inner, rfl, solid, opens⟩, passes⟩, others⟩
      apply passes_open (token_append blank solid ending) opens
      intro frames
      exact passes behind.stops _ _ (behind.reaches others)

theorem part_text_array {item : List UInt8} (json : Json item)
    (passes : ∀ {more : List UInt8}, Stops more → Passes ⟨item ++ more, ending⟩ ⟨more, ending⟩) :
    PartText .array ending item :=
  ⟨starts_part_array json, fun stops => passes_part_array (passes stops)⟩

theorem skip_name_append {blanks key : List UInt8} (quoted : Quoted key) (blank : Blank blanks) :
    skipName ⟨key ++ (blanks ++ colon :: rest), ending⟩ = .ok ((), ⟨rest, ending⟩) := by
  have skipped := @skip_text_append (blanks ++ colon :: rest) ending key quoted
  cases quoted with
  | @intro inner =>
      have seen := @token_cons (inner ++ [quote] ++ (blanks ++ colon :: rest)) ending quote rfl
      rw [List.cons_append] at skipped ⊢
      rw [skipName, bind_of_ok seen, if_pos rfl, bind_of_ok skipped]
      exact expect_append blank rfl

theorem part_text_object {member : Member} {part : List UInt8} (isMember : MemberText member part)
    (quoted : Quoted member.key)
    (passes : ∀ {more : List UInt8}, Stops more →
      Passes ⟨member.value ++ more, ending⟩ ⟨more, ending⟩) :
    PartText .object ending part := by
  refine ⟨starts_part_object isMember quoted, ?_⟩
  intro more stops
  cases isMember with
  | intro blank blank' =>
      simp only [List.append_assoc, List.cons_append]
      exact passes_part_object (skip_name_append quoted blank)
        ((passes_blanks blank').mpr (passes stops))

/-- A well-formed value is passed, whatever stops it. -/
theorem Json.passes {text : List UInt8} (json : Json text) (stops : Stops rest) :
    Passes ⟨text ++ rest, ending⟩ ⟨rest, ending⟩ := by
  induction json generalizing rest with
  | word known =>
      simp only [List.mem_cons, List.not_mem_nil, or_false] at known
      rcases known with rfl | rfl | rfl <;> exact passes_scalar rfl (by decide) (by decide) rfl
  | text quoted =>
      have skipped := @skip_text_append rest ending _ quoted
      cases quoted with
      | intro => exact passes_scalar rfl (by decide) (by decide) skipped
  | number numeral => exact numeral.passes stops
  | @array items text isArray json induction =>
      apply @enclosed_passes _ _ .array items text isArray
      intro item isItem
      exact part_text_array (json item isItem) (induction item isItem)
  | @object members text isObject quoted _ induction =>
      rcases isObject with ⟨parts, areMembers, enclosed⟩
      apply @enclosed_passes _ _ .object parts text enclosed
      intro part isPart
      rcases member_of_part areMembers isPart with ⟨member, isMember, written⟩
      exact part_text_object written (quoted member isMember) (induction member isMember)

end

end SymmetricTrees.Description
