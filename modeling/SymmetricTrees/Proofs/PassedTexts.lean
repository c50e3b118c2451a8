import SymmetricTrees.Proofs.TextMeanings

/-!
Only well-formed values are passed: what the reader that skips values takes is a
value of the grammar with blanks in front. So the grammar is neither wider nor
narrower than what is skipped, and whatever is read is well-formed.
-/

set_option autoImplicit false

namespace SymmetricTrees.Description

open Scan
open Relation (ReflTransGen)

theorem literal_taken {expected : List UInt8} {source after : Source}
    (read : literal expected source = .ok ((), after)) :
    source.rest = expected ++ after.rest := by
  induction expected generalizing source with
  | nil =>
      rw [(pure_eq_ok_iff.mp read).2]
      rfl
  | cons first expected induction =>
      rcases next_bind_eq_ok_iff.mp read with ⟨byte, rest, same, behind⟩
      by_cases isFirst : byte = first
      · rw [if_pos isFirst] at behind
        rw [same, isFirst, List.cons_append, ← induction behind]
      · rw [if_neg isFirst] at behind
        cases behind

theorem hex_unit_taken {source after : Source} {unit : Nat}
    (read : hexUnit source = .ok (unit, after)) :
    ∃ digit3 digit2 digit1 digit0,
      source.rest = digit3 :: digit2 :: digit1 :: digit0 :: after.rest ∧
        ∀ digit ∈ [digit3, digit2, digit1, digit0], (hexDigit? digit).isSome := by
  rcases next_bind_eq_ok_iff.mp read with ⟨digit3, rest3, same3, read3⟩
  rcases next_bind_eq_ok_iff.mp read3 with ⟨digit2, rest2, same2, read2⟩
  rcases next_bind_eq_ok_iff.mp read2 with ⟨digit1, rest1, same1, read1⟩
  rcases next_bind_eq_ok_iff.mp read1 with ⟨digit0, rest0, same0, judged⟩
  simp only at same2 same1 same0
  subst same2 same1 same0
  refine ⟨digit3, digit2, digit1, digit0, ?_⟩
  cases known3 : hexDigit? digit3 with
  | none =>
      rw [known3] at judged
      cases judged
  | some value3 =>
  cases known2 : hexDigit? digit2 with
  | none =>
      rw [known3, known2] at judged
      cases judged
  | some value2 =>
  cases known1 : hexDigit? digit1 with
  | none =>
      rw [known3, known2, known1] at judged
      cases judged
  | some value1 =>
  cases known0 : hexDigit? digit0 with
  | none =>
      rw [known3, known2, known1, known0] at judged
      cases judged
  | some value0 =>
      rw [known3, known2, known1, known0] at judged
      rcases pure_eq_ok_iff.mp judged with ⟨-, rfl⟩
      exact ⟨same3, by simp [known3, known2, known1, known0]⟩

theorem skip_escape_taken {source after : Source} (read : skipEscape source = .ok ((), after)) :
    ∃ taken, source.rest = taken ++ after.rest ∧
      ∀ {rest : List UInt8}, Spelled rest → Spelled (backslash :: (taken ++ rest)) := by
  rcases next_bind_eq_ok_iff.mp read with ⟨letter, bytes, same, read⟩
  by_cases isPoint : letter = 'u'.toUInt8
  · rw [if_pos isPoint] at read
    subst isPoint
    rcases bind_eq_ok_iff.mp read with ⟨unit, last, unitRead, done⟩
    rcases pure_eq_ok_iff.mp done with ⟨-, rfl⟩
    rcases hex_unit_taken unitRead with ⟨digit3, digit2, digit1, digit0, digits, known⟩
    have digits : bytes = _ := digits
    refine ⟨['u'.toUInt8, digit3, digit2, digit1, digit0], ?_, fun spelled => .point known spelled⟩
    rw [same, digits]
    rfl
  · rw [if_neg isPoint] at read
    by_cases known : (plainEscape? letter).isSome = true
    · rw [if_pos known] at read
      rcases pure_eq_ok_iff.mp read with ⟨-, rfl⟩
      exact ⟨[letter], same, fun spelled => .escape known spelled⟩
    · rw [if_neg known] at read
      cases read

theorem skip_text_turn_cases {source after : Source} {later : Option Unit}
    (took : skipTextTurn () source = .ok (later, after)) :
    ∃ byte rest, source.rest = byte :: rest ∧
      (byte = quote ∧ later = none ∧ after.rest = rest ∨
        byte = backslash ∧ later.isSome ∧ skipEscape ⟨rest, source.ending⟩ = .ok ((), after) ∨
        (byte ≠ quote ∧ byte ≠ backslash ∧ 0x20 ≤ byte) ∧ later.isSome ∧ after.rest = rest) := by
  rcases next_bind_eq_ok_iff.mp took with ⟨byte, rest, same, read⟩
  refine ⟨byte, rest, same, ?_⟩
  split at read
  · rename_i isQuote
    rcases pure_eq_ok_iff.mp read with ⟨rfl, rfl⟩
    exact .inl ⟨isQuote, rfl, rfl⟩
  split at read
  · rename_i mark
    rcases bind_eq_ok_iff.mp read with ⟨⟨⟩, _, escaped, done⟩
    rcases pure_eq_ok_iff.mp done with ⟨rfl, rfl⟩
    exact .inr (.inl ⟨mark, rfl, escaped⟩)
  split at read
  · cases read
  · rename_i notQuote notMark notControl
    rcases pure_eq_ok_iff.mp read with ⟨rfl, rfl⟩
    exact .inr (.inr ⟨⟨notQuote, notMark, UInt8.not_lt.mp notControl⟩, rfl, rfl⟩)

theorem skip_text_turn_taken {source after : Source}
    (took : Again skipTextTurn ((), source) ((), after)) :
    ∃ taken, source.rest = taken ++ after.rest ∧
      ∀ {rest : List UInt8}, Spelled rest → Spelled (taken ++ rest) := by
  rcases skip_text_turn_cases took with ⟨byte, rest, same, ⟨-, ended, -⟩ | ⟨rfl, -, escaped⟩ |
    ⟨⟨notQuote, notMark, printable⟩, -, rfl⟩⟩
  · cases ended
  · rcases skip_escape_taken escaped with ⟨behind, restSame, spells⟩
    have restSame : rest = behind ++ after.rest := restSame
    refine ⟨backslash :: behind, ?_, spells⟩
    rw [same, restSame, List.cons_append]
  · exact ⟨[byte], same, .plain notQuote notMark printable⟩

theorem skip_text_turns_taken {source last : Source}
    (run : ReflTransGen (Again skipTextTurn) ((), source) ((), last)) :
    ∃ inner, source.rest = inner ++ last.rest ∧ Spelled inner := by
  generalize start : ((), source) = first at run
  induction run using ReflTransGen.head_induction_on generalizing source with
  | refl =>
      cases start
      exact ⟨[], rfl, .nil⟩
  | @head _ middle took _ induction =>
      subst start
      rcases middle with ⟨⟨⟩, middle⟩
      rcases skip_text_turn_taken took with ⟨taken, same, spells⟩
      rcases induction rfl with ⟨inner, middleSame, spelled⟩
      exact ⟨taken ++ inner, by rw [same, middleSame, List.append_assoc], spells spelled⟩

theorem skip_text_turn_last {source after : Source}
    (ended : skipTextTurn () source = .ok (none, after)) : source.rest = quote :: after.rest := by
  rcases skip_text_turn_cases ended with ⟨byte, rest, same, ⟨isQuote, -, closed⟩ | ⟨-, goesOn, -⟩ |
    ⟨-, goesOn, -⟩⟩
  · rw [same, isQuote, closed]
  · cases goesOn
  · cases goesOn

theorem skip_text_taken {bytes : List UInt8} {ending : Ending} {after : Source}
    (read : skipText ⟨quote :: bytes, ending⟩ = .ok ((), after)) :
    ∃ text, quote :: bytes = text ++ after.rest ∧ Quoted text := by
  rw [skipText, budgeted_eq_take_turns skip_text_bytes_eq_turns, bind_of_ok skip_cons] at read
  rcases bind_eq_ok_iff.mp read with ⟨⟨⟩, closed, turned, done⟩
  rcases pure_eq_ok_iff.mp done with ⟨-, rfl⟩
  rcases again_of_turns turned with ⟨last, run, ended⟩
  rcases skip_text_turns_taken run with ⟨inner, same, spelled⟩
  have same : bytes = inner ++ last.rest := same
  refine ⟨quote :: (inner ++ [quote]), ?_, .intro spelled⟩
  rw [same, skip_text_turn_last ended]
  simp

theorem digits_taken {source after : Source} {values : List Nat}
    (read : digits source = .ok (values, after)) :
    ∃ taken, source.rest = taken ++ after.rest ∧ AllDigits taken ∧
      values = taken.map fun byte => byte.toNat - 0x30 := by
  rcases bind_eq_ok_iff.mp read with ⟨taken, middle, run, done⟩
  rcases pure_eq_ok_iff.mp done with ⟨rfl, rfl⟩
  rcases take_run_eq_ok run with ⟨same, -, all, -⟩
  exact ⟨taken, same, all, rfl⟩

theorem exponent_sign_taken {source after : Source} {upward : Bool}
    (read : exponentSign source = .ok (upward, after)) :
    ∃ sign, source.rest = sign ++ after.rest ∧ sign ∈ [[], ['+'.toUInt8], [minus]] := by
  rcases source with ⟨bytes, ending⟩
  rcases bind_eq_ok_iff.mp read with ⟨seen, middle, looked, read⟩
  rcases peek?_eq_ok_iff.mp looked with ⟨rfl, rfl, -⟩
  cases bytes with
  | nil =>
      rcases pure_eq_ok_iff.mp read with ⟨-, rfl⟩
      exact ⟨[], rfl, by simp⟩
  | cons byte bytes =>
      simp only [List.head?_cons] at read
      by_cases isPlus : byte = '+'.toUInt8
      · rw [if_pos isPlus] at read
        cases read
        exact ⟨[byte], rfl, by simp [isPlus]⟩
      rw [if_neg isPlus] at read
      by_cases isMinus : byte = minus
      · rw [if_pos isMinus] at read
        cases read
        exact ⟨[byte], rfl, by simp [isMinus]⟩
      · rw [if_neg isMinus] at read
        rcases pure_eq_ok_iff.mp read with ⟨-, rfl⟩
        exact ⟨[], rfl, by simp⟩

theorem skip_exponent_part_taken {mark : UInt8} {bytes : List UInt8} {ending : Ending}
    {after : Source} (isMark : isExponentMark mark = true)
    (read : skipExponentPart ⟨mark :: bytes, ending⟩ = .ok ((), after)) :
    ∃ exponent, mark :: bytes = exponent ++ after.rest ∧ Exponent exponent := by
  rw [skipExponentPart, bind_of_ok skip_cons] at read
  rcases bind_eq_ok_iff.mp read with ⟨upward, signed, signRead, read⟩
  rcases bind_eq_ok_iff.mp read with ⟨values, last, digitsRead, read⟩
  rcases exponent_sign_taken signRead with ⟨sign, same, isSign⟩
  rcases digits_taken digitsRead with ⟨taken, signedSame, all, rfl⟩
  have same : bytes = sign ++ signed.rest := same
  by_cases isEmpty : taken = []
  · subst isEmpty
    exact absurd read cut_number_ne_ok
  · have notEmpty : (taken.map fun byte => byte.toNat - 0x30).isEmpty = false := by
      simpa using isEmpty
    simp only [notEmpty, Bool.false_eq_true, if_false] at read
    rcases bind_eq_ok_iff.mp read with ⟨seen, _, looked, done⟩
    rcases peek?_eq_ok_iff.mp looked with ⟨-, rfl, -⟩
    rcases pure_eq_ok_iff.mp done with ⟨-, rfl⟩
    refine ⟨mark :: (sign ++ taken), ?_, .some isMark isSign isEmpty all⟩
    rw [same, signedSame]
    simp

theorem skip_fraction_part_taken {bytes : List UInt8} {ending : Ending} {after : Source}
    (read : skipFractionPart ⟨point :: bytes, ending⟩ = .ok ((), after)) :
    ∃ fraction exponent, point :: bytes = fraction ++ (exponent ++ after.rest) ∧
      Fraction fraction ∧ Exponent exponent := by
  rw [skipFractionPart, bind_of_ok skip_cons] at read
  rcases bind_eq_ok_iff.mp read with ⟨values, ⟨lastBytes, lastEnding⟩, digitsRead, judged⟩
  rcases digits_taken digitsRead with ⟨taken, same, all, rfl⟩
  have same : bytes = taken ++ lastBytes := same
  subst same
  by_cases isEmpty : taken = []
  · subst isEmpty
    exact absurd judged cut_number_ne_ok
  · have notEmpty : (taken.map fun byte => byte.toNat - 0x30).isEmpty = false := by
      simpa using isEmpty
    simp only [notEmpty, Bool.false_eq_true, if_false] at judged
    rcases bind_eq_ok_iff.mp judged with ⟨seen, _, looked, judged⟩
    rcases peek?_eq_ok_iff.mp looked with ⟨rfl, rfl, -⟩
    cases lastBytes with
    | nil =>
        rcases pure_eq_ok_iff.mp judged with ⟨-, rfl⟩
        exact ⟨point :: taken, [], by simp, .some isEmpty all, .none⟩
    | cons mark behind =>
        simp only [List.head?_cons] at judged
        by_cases isMark : isExponentMark mark = true
        · rw [if_pos isMark] at judged
          rcases skip_exponent_part_taken isMark judged with ⟨exponent, behindSame, isExponent⟩
          exact ⟨point :: taken, exponent, by rw [behindSame]; rfl, .some isEmpty all, isExponent⟩
        · rw [if_neg isMark] at judged
          rcases pure_eq_ok_iff.mp judged with ⟨-, rfl⟩
          exact ⟨point :: taken, [], by simp, .some isEmpty all, .none⟩

theorem skip_behind_digits_taken {source after : Source}
    (read : skipBehindDigits source = .ok ((), after)) :
    ∃ fraction exponent, source.rest = fraction ++ (exponent ++ after.rest) ∧
      Fraction fraction ∧ Exponent exponent := by
  rcases source with ⟨bytes, ending⟩
  rcases bind_eq_ok_iff.mp read with ⟨seen, _, looked, read⟩
  rcases peek?_eq_ok_iff.mp looked with ⟨rfl, rfl, -⟩
  cases bytes with
  | nil =>
      rcases pure_eq_ok_iff.mp read with ⟨-, rfl⟩
      exact ⟨[], [], rfl, .none, .none⟩
  | cons byte behind =>
      simp only [List.head?_cons] at read
      by_cases isPoint : byte = point
      · rw [if_pos isPoint] at read
        subst isPoint
        exact skip_fraction_part_taken read
      rw [if_neg isPoint] at read
      by_cases isMark : isExponentMark byte = true
      · rw [if_pos isMark] at read
        rcases skip_exponent_part_taken isMark read with ⟨exponent, same, isExponent⟩
        exact ⟨[], exponent, same, .none, isExponent⟩
      · rw [if_neg isMark] at read
        rcases pure_eq_ok_iff.mp read with ⟨-, rfl⟩
        exact ⟨[], [], rfl, .none, .none⟩

theorem skip_unsigned_number_taken {source after : Source}
    (read : skipUnsignedNumber source = .ok ((), after)) :
    ∃ whole fraction exponent, source.rest = whole ++ (fraction ++ (exponent ++ after.rest)) ∧
      Whole whole ∧ Fraction fraction ∧ Exponent exponent := by
  rcases bind_eq_ok_iff.mp read with ⟨values, last, digitsRead, read⟩
  rcases digits_taken digitsRead with ⟨taken, same, all, rfl⟩
  have behind : Whole taken → skipBehindDigits last = .ok ((), after) →
      ∃ whole fraction exponent, source.rest = whole ++ (fraction ++ (exponent ++ after.rest)) ∧
        Whole whole ∧ Fraction fraction ∧ Exponent exponent := by
    intro isWhole behindRead
    rcases skip_behind_digits_taken behindRead with ⟨fraction, exponent, lastSame, others⟩
    exact ⟨taken, fraction, exponent, by rw [same, lastSame], isWhole, others⟩
  cases taken with
  | nil => exact absurd read cut_number_ne_ok
  | cons first others =>
      rw [List.map_cons] at read
      by_cases isZero : first = 0x30
      · subst isZero
        cases others with
        | nil => exact behind .zero read
        | cons second others => cases read
      · have notZero := digit_ne_zero (all first (List.mem_cons_self ..)) isZero
        apply behind (.other isZero all)
        cases value : first.toNat - 0x30 with
        | zero => exact absurd value notZero
        | succ digit =>
            rw [value] at read
            exact read

theorem skip_scalar_taken {byte : UInt8} {bytes : List UInt8} {ending : Ending} {after : Source}
    (read : skipScalar byte ⟨byte :: bytes, ending⟩ = .ok ((), after)) :
    ∃ text, byte :: bytes = text ++ after.rest ∧ Json text := by
  have word_taken : ∀ letters, letters ∈ [['n', 'u', 'l', 'l'], ['t', 'r', 'u', 'e'],
      ['f', 'a', 'l', 's', 'e']] → word letters ⟨byte :: bytes, ending⟩ = .ok ((), after) →
      ∃ text, byte :: bytes = text ++ after.rest ∧ Json text := by
    intro letters known read
    exact ⟨_, literal_taken read, .word known⟩
  rw [skipScalar] at read
  split at read
  · exact word_taken _ (by simp) read
  split at read
  · exact word_taken _ (by simp) read
  split at read
  · exact word_taken _ (by simp) read
  split at read
  · rename_i isQuote
    subst isQuote
    rcases skip_text_taken read with ⟨text, same, quoted⟩
    exact ⟨text, same, .text quoted⟩
  split at read
  · rename_i isMinus
    subst isMinus
    rw [bind_of_ok skip_cons] at read
    rcases skip_unsigned_number_taken read with ⟨whole, fraction, exponent, same, isWhole, others⟩
    have same : bytes = _ := same
    refine ⟨[minus] ++ (whole ++ (fraction ++ exponent)), ?_,
      .number (.intro (by simp) isWhole others.1 others.2)⟩
    rw [same]
    simp
  split at read
  · rcases skip_unsigned_number_taken read with ⟨whole, fraction, exponent, same, isWhole, others⟩
    have same : byte :: bytes = _ := same
    refine ⟨[] ++ (whole ++ (fraction ++ exponent)), ?_,
      .number (.intro (by simp) isWhole others.1 others.2)⟩
    rw [same]
    simp
  · cases read

/-- Where a part of a frame begins, and where its value is due. -/
def Begins : Frame → Source → Source → Prop
  | .array, source, later => later = source
  | .object, source, later => skipName source = .ok ((), later)

/-- What a turn does from where a value is due: it passes a value that is neither
array nor object, or an empty array or object, or it opens one. -/
theorem skip_turn_due_cases {frames : List Frame} {source later : Source}
    {state : Bool × List Frame}
    (took : Again skipTurn ((true, frames), source) (state, later)) :
    ∃ blanks byte bytes, source.rest = blanks ++ byte :: bytes ∧ Blank blanks ∧
      (state = (false, frames) ∧
          skipScalar byte ⟨byte :: bytes, source.ending⟩ = .ok ((), later) ∨
        ∃ frame : Frame, byte = frame.opening ∧ ∃ inner head start,
          bytes = inner ++ head :: start ∧ Blank inner ∧
            (state = (false, frames) ∧ later = ⟨start, source.ending⟩ ∧ head = frame.closing ∨
              state = (true, frame :: frames) ∧
                Begins frame ⟨head :: start, source.ending⟩ later)) := by
  rcases token_bind_eq_ok_iff.mp took with ⟨blanks, byte, bytes, same, blank, -, read⟩
  refine ⟨blanks, byte, bytes, same, blank, ?_⟩
  split at read
  · rename_i isBracket
    rw [bind_of_ok skip_cons] at read
    rcases token_bind_eq_ok_iff.mp read with ⟨inner, head, start, innerSame, innerBlank, -, read⟩
    refine .inr ⟨.array, isBracket, inner, head, start, innerSame, innerBlank, ?_⟩
    split at read
    · rename_i closes
      cases read
      exact .inl ⟨rfl, rfl, closes⟩
    · cases read
      exact .inr ⟨rfl, rfl⟩
  split at read
  · rename_i isBrace
    rw [bind_of_ok skip_cons] at read
    rcases token_bind_eq_ok_iff.mp read with ⟨inner, head, start, innerSame, innerBlank, -, read⟩
    refine .inr ⟨.object, isBrace, inner, head, start, innerSame, innerBlank, ?_⟩
    split at read
    · rename_i closes
      cases read
      exact .inl ⟨rfl, rfl, closes⟩
    · rcases bind_eq_ok_iff.mp read with ⟨⟨⟩, _, named, done⟩
      cases done
      exact .inr ⟨rfl, named⟩
  · rcases bind_eq_ok_iff.mp read with ⟨⟨⟩, _, skipped, done⟩
    cases done
    exact .inl ⟨rfl, skipped⟩

theorem skip_turn_passed_cases {frame : Frame} {frames : List Frame} {source later : Source}
    {state : Bool × List Frame}
    (took : Again skipTurn ((false, frame :: frames), source) (state, later)) :
    ∃ blanks byte bytes, source.rest = blanks ++ byte :: bytes ∧ Blank blanks ∧
      (byte = comma ∧ state = (true, frame :: frames) ∧
          Begins frame ⟨bytes, source.ending⟩ later ∨
        byte = frame.closing ∧ state = (false, frames) ∧ later = ⟨bytes, source.ending⟩) := by
  cases frame with
  | array =>
      rcases token_bind_eq_ok_iff.mp took with ⟨blanks, byte, bytes, same, blank, -, read⟩
      refine ⟨blanks, byte, bytes, same, blank, ?_⟩
      split at read
      · rename_i isComma
        cases read
        exact .inl ⟨isComma, rfl, rfl⟩
      split at read
      · rename_i closes
        cases read
        exact .inr ⟨closes, rfl, rfl⟩
      · cases read
  | object =>
      rcases token_bind_eq_ok_iff.mp took with ⟨blanks, byte, bytes, same, blank, -, read⟩
      refine ⟨blanks, byte, bytes, same, blank, ?_⟩
      split at read
      · rename_i isComma
        rw [bind_of_ok skip_cons] at read
        rcases bind_eq_ok_iff.mp read with ⟨⟨⟩, _, named, done⟩
        cases done
        exact .inl ⟨isComma, rfl, named⟩
      split at read
      · rename_i closes
        cases read
        exact .inr ⟨closes, rfl, rfl⟩
      · cases read

inductive IsPart : Frame → List UInt8 → Prop
  | item {item : List UInt8} : Json item → IsPart .array item
  | member {member : Member} {part : List UInt8} : MemberText member part → Quoted member.key →
      Json member.value → IsPart .object part

theorem skip_name_taken {source after : Source} (read : skipName source = .ok ((), after)) :
    ∃ blanks key between, source.rest = blanks ++ (key ++ (between ++ colon :: after.rest)) ∧
      Blank blanks ∧ Quoted key ∧ Blank between := by
  rcases token_bind_eq_ok_iff.mp read with ⟨blanks, byte, bytes, same, blank, -, read⟩
  split at read
  · rename_i isQuote
    subst isQuote
    rcases bind_eq_ok_iff.mp read with ⟨⟨⟩, last, skipped, colonRead⟩
    rcases skip_text_taken skipped with ⟨key, keySame, quoted⟩
    rcases expect_eq_ok_iff.mp colonRead with ⟨rest, found, rfl⟩
    rcases token_eq_ok_iff.mp found with ⟨between, _, lastSame, blankBetween, -, restSame⟩
    cases restSame
    exact ⟨blanks, key, between, by rw [same, keySame, lastSame], blank, quoted, blankBetween⟩
  · cases read

theorem part_of_begins {frame : Frame} {source later : Source} (begins : Begins frame source later)
    {blanks value more : List UInt8} (same : later.rest = blanks ++ (value ++ more))
    (blank : Blank blanks) (json : Json value) :
    ∃ before part, source.rest = before ++ (part ++ more) ∧ Blank before ∧ IsPart frame part := by
  cases frame with
  | array =>
      have begins : later = source := begins
      subst begins
      exact ⟨blanks, value, same, blank, .item json⟩
  | object =>
      rcases skip_name_taken begins with ⟨before, key, between, sourceSame, blankBefore, quoted,
        blankBetween⟩
      refine ⟨before, _, ?_, blankBefore,
        .member (@MemberText.intro ⟨key, value⟩ _ _ blankBetween blank) quoted json⟩
      rw [sourceSame, same]
      simp

/-- A part and what remains of the frame behind it are an array or an object. -/
theorem Remains.enclosed {frame : Frame} {rest : List UInt8} {parts : List (List UInt8)}
    {bytes before part : List UInt8} (remains : Remains frame rest false parts bytes)
    (blank : Blank before) :
    ∃ inside, before ++ (part ++ bytes) = inside ++ rest ∧
      Enclosed frame.opening frame.closing (part :: parts) (frame.opening :: inside) := by
  generalize later : false = first at remains
  induction remains generalizing before part with
  | @closes _ blanks blankBehind =>
      refine ⟨before ++ (part ++ (blanks ++ [frame.closing])), by simp, ?_⟩
      exact @Enclosed.some _ _ [] before part blanks [] .nil blank blankBehind
  | starts => cases later
  | @continues blanks middle second behind parts blankBehind blankMiddle _ induction =>
      rcases @induction middle second blankMiddle rfl with ⟨inside, same, enclosed⟩
      refine ⟨before ++ (part ++ (blanks ++ comma :: inside)), by rw [same]; simp, ?_⟩
      exact enclosed_cons (by simp) enclosed blank blankBehind

theorem members_of_parts {parts : List (List UInt8)}
    (each : ∀ part ∈ parts, IsPart .object part) :
    ∃ members, List.Forall₂ MemberText members parts ∧
      ∀ member ∈ members, Quoted member.key ∧ Json member.value := by
  induction parts with
  | nil => exact ⟨[], .nil, List.forall_mem_nil _⟩
  | cons part parts induction =>
      rcases List.forall_mem_cons.mp each with ⟨isPart, others⟩
      rcases induction others with ⟨members, written, known⟩
      cases isPart with
      | @member member _ memberWritten quoted json =>
          exact ⟨member :: members, .cons memberWritten written,
            List.forall_mem_cons.mpr ⟨⟨quoted, json⟩, known⟩⟩

theorem json_of_enclosed {frame : Frame} {parts : List (List UInt8)} {text : List UInt8}
    (enclosed : Enclosed frame.opening frame.closing parts text)
    (each : ∀ part ∈ parts, IsPart frame part) : Json text := by
  cases frame with
  | array =>
      apply Json.array enclosed
      intro item isItem
      cases each item isItem with
      | item json => exact json
  | object =>
      rcases members_of_parts each with ⟨members, written, known⟩
      exact .object ⟨parts, written, enclosed⟩ (fun member isMember => (known member isMember).1)
        fun member isMember => (known member isMember).2

/-- The reader that skips values gets from one place to its end. -/
def Ends (frames : List Frame) (due : Bool) (source final : Source) : Prop :=
  ReflTransGen (Again skipTurn) ((due, frames), source) ((false, []), final)

def PassesValue (final source : Source) : Prop :=
  ∀ frames, Ends frames true source final →
    ∃ blanks text middle, source.rest = blanks ++ (text ++ middle.rest) ∧ Blank blanks ∧
      Json text ∧ Ends frames false middle final

def PassesFrame (final source : Source) : Prop :=
  ∀ frame frames, Ends (frame :: frames) false source final →
    ∃ parts middle, Remains frame middle.rest false parts source.rest ∧
      (∀ part ∈ parts, IsPart frame part) ∧ Ends frames false middle final

theorem passes_frame_of_begins {final source later : Source} {frame : Frame} {frames : List Frame}
    (begins : Begins frame source later) (values : PassesValue final later)
    (behind : ∀ middle : Source, middle.rest.length < later.rest.length → PassesFrame final middle)
    (ends : Ends (frame :: frames) true later final) :
    ∃ before part bytes parts middle, source.rest = before ++ (part ++ bytes) ∧ Blank before ∧
      Remains frame middle.rest false parts bytes ∧ (∀ other ∈ part :: parts, IsPart frame other) ∧
      Ends frames false middle final := by
  rcases values _ ends with ⟨blanks, value, middle, same, blank, json, ends⟩
  have shorter : middle.rest.length < later.rest.length := by
    rcases json.starts with ⟨byte, bytes, rfl, -⟩
    rw [same]
    simp only [List.length_append, List.length_cons]
    omega
  rcases part_of_begins begins same blank json with ⟨before, part, sourceSame, blankBefore, isPart⟩
  rcases behind middle shorter frame frames ends with ⟨parts, last, remains, each, ends⟩
  exact ⟨before, part, _, parts, last, sourceSame, blankBefore, remains,
    List.forall_mem_cons.mpr ⟨isPart, each⟩, ends⟩

theorem passes_frame_step {final source : Source}
    (values : ∀ later : Source, later.rest.length < source.rest.length → PassesValue final later)
    (behind : ∀ later : Source, later.rest.length < source.rest.length → PassesFrame final later) :
    PassesFrame final source := by
  intro frame frames ends
  rcases ReflTransGen.cases_head ends with same | ⟨⟨state, later⟩, took, ends⟩
  · cases same
  have shorter : later.rest.length < source.rest.length :=
    (skip_turn_progresses _).shorter took rfl
  rcases skip_turn_passed_cases took with ⟨blanks, byte, bytes, same, blank, next⟩
  rcases next with ⟨rfl, rfl, begins⟩ | ⟨rfl, rfl, rfl⟩
  · rcases passes_frame_of_begins begins (values later shorter)
      (fun middle less => behind middle (Nat.lt_trans less shorter)) ends with
      ⟨before, part, rest, parts, last, bytesSame, blankBefore, remains, each, ends⟩
    have bytesSame : bytes = before ++ (part ++ rest) := bytesSame
    refine ⟨part :: parts, last, ?_, each, ends⟩
    rw [same, bytesSame]
    exact .continues blank blankBefore remains
  · refine ⟨[], _, ?_, List.forall_mem_nil _, ends⟩
    rw [same]
    exact .closes blank

theorem passes_value_step {final source : Source}
    (values : ∀ later : Source, later.rest.length < source.rest.length → PassesValue final later)
    (behind : ∀ later : Source, later.rest.length < source.rest.length → PassesFrame final later) :
    PassesValue final source := by
  intro frames ends
  rcases ReflTransGen.cases_head ends with same | ⟨⟨state, later⟩, took, ends⟩
  · cases same
  have shorter : later.rest.length < source.rest.length :=
    (skip_turn_progresses _).shorter took rfl
  rcases skip_turn_due_cases took with ⟨blanks, byte, bytes, same, blank, next⟩
  rcases next with ⟨rfl, skipped⟩ | ⟨frame, rfl, inner, head, start, bytesSame, innerBlank, next⟩
  · rcases skip_scalar_taken skipped with ⟨text, textSame, json⟩
    exact ⟨blanks, text, later, by rw [same, textSame], blank, json, ends⟩
  rcases next with ⟨rfl, rfl, rfl⟩ | ⟨rfl, begins⟩
  · have enclosed : Enclosed frame.opening frame.closing []
        (frame.opening :: (inner ++ [frame.closing])) := .none innerBlank
    refine ⟨blanks, _, _, ?_, blank, json_of_enclosed enclosed (List.forall_mem_nil _), ends⟩
    rw [same, bytesSame]
    simp
  · rcases passes_frame_of_begins begins (values later shorter)
      (fun middle less => behind middle (Nat.lt_trans less shorter)) ends with
      ⟨before, part, rest, parts, last, startSame, blankBefore, remains, each, ends⟩
    have startSame : head :: start = before ++ (part ++ rest) := startSame
    have blankBoth : Blank (inner ++ before) := List.forall_mem_append.mpr ⟨innerBlank, blankBefore⟩
    rcases @Remains.enclosed _ _ _ _ (inner ++ before) part remains blankBoth with
      ⟨inside, insideSame, enclosed⟩
    refine ⟨blanks, _, last, ?_, blank, json_of_enclosed enclosed each, ends⟩
    rw [same, bytesSame, startSame, ← List.append_assoc inner, insideSame]
    simp

theorem passes_both (final source : Source) :
    PassesValue final source ∧ PassesFrame final source := by
  have each : ∀ length, ∀ source : Source, source.rest.length = length →
      PassesValue final source ∧ PassesFrame final source := by
    intro length
    induction length using Nat.strongRecOn with
    | ind length induction =>
        rintro source rfl
        have values := fun (later : Source) less => (induction _ less later rfl).1
        have behind := fun (later : Source) less => (induction _ less later rfl).2
        exact ⟨passes_value_step values behind, passes_frame_step values behind⟩
  exact each _ source rfl

/-- What is passed is a well-formed value with blanks in front. -/
theorem Passes.json {source after : Source} (passes : Passes source after) :
    ∃ blanks text, source.rest = blanks ++ (text ++ after.rest) ∧ Blank blanks ∧ Json text := by
  rcases (passes_both after source).1 [] (passes []) with
    ⟨blanks, text, middle, same, blank, json, ends⟩
  rcases ReflTransGen.cases_head ends with done | ⟨_, took, _⟩
  · cases done
    exact ⟨blanks, text, same, blank, json⟩
  · cases took

/-- In front of what stops a value, the well-formed values are those that are skipped. -/
theorem skip_value_eq_ok_iff {bytes rest : List UInt8} {ending : Ending} (stops : Stops rest) :
    skipValue ⟨bytes ++ rest, ending⟩ = .ok ((), ⟨rest, ending⟩) ↔
      ∃ blanks text, bytes = blanks ++ text ∧ Blank blanks ∧ Json text := by
  rw [← passes_iff_skip_value]
  constructor
  · intro passes
    rcases passes.json with ⟨blanks, text, same, blank, json⟩
    rw [← List.append_assoc] at same
    exact ⟨blanks, text, List.append_cancel_right same, blank, json⟩
  · rintro ⟨blanks, text, rfl, blank, json⟩
    rw [List.append_assoc, passes_blanks blank]
    exact json.passes stops

/-- Whether a text is a well-formed value is found out by skipping it. -/
def isValue (text : List UInt8) : Bool :=
  match skipValue ⟨text ++ [comma], .complete⟩ with
  | .ok (_, after) => after.rest == [comma] && text.head?.all fun first => !isBlank first
  | .error _ => false

theorem is_value_iff {text : List UInt8} : isValue text = true ↔ Json text := by
  constructor
  · intro value
    cases skipped : skipValue ⟨text ++ [comma], .complete⟩ with
    | error fault =>
        rw [isValue, skipped] at value
        cases value
    | ok result =>
        rcases result with ⟨⟨⟩, rest, ending⟩
        have complete : ending = .complete := skip_value_reads.near.ending_eq skipped
        simp only [isValue, skipped, Bool.and_eq_true, beq_iff_eq] at value
        rcases value with ⟨rfl, solid⟩
        rw [complete] at skipped
        rcases (skip_value_eq_ok_iff comma_stops).mp skipped with ⟨blanks, value, rfl, blank, json⟩
        cases blanks with
        | nil => exact json
        | cons byte blanks =>
            have isBlank := blank byte (List.mem_cons_self ..)
            simp [isBlank] at solid
  · intro json
    have skipped := (@skip_value_eq_ok_iff text [comma] .complete comma_stops).mpr
      ⟨[], text, rfl, List.forall_mem_nil _, json⟩
    rcases json.starts with ⟨first, behind, rfl, start⟩
    simp only [startsValue, Bool.and_eq_true, Bool.not_eq_true'] at start
    rw [isValue, skipped]
    simp [start.1.1]

instance (text : List UInt8) : Decidable (Json text) := decidable_of_iff _ is_value_iff

theorem quoted_iff {text : List UInt8} : Quoted text ↔ Json text ∧ text.head? = some quote := by
  constructor
  · intro quoted
    refine ⟨.text quoted, ?_⟩
    cases quoted with
    | intro => rfl
  · rintro ⟨json, opens⟩
    cases json with
    | word known =>
        simp only [List.mem_cons, List.not_mem_nil, or_false] at known
        rcases known with rfl | rfl | rfl <;> cases opens
    | text quoted => exact quoted
    | number numeral =>
        rcases numeral.starts with ⟨byte, behind, rfl, rfl | digit⟩
        · cases opens
        · cases opens
          cases digit
    | array isArray _ => cases isArray <;> cases opens
    | object isObject _ _ =>
        rcases isObject with ⟨parts, -, enclosed⟩
        cases enclosed <;> cases opens

instance (text : List UInt8) : Decidable (Quoted text) := decidable_of_iff _ quoted_iff.symm

-- A number out of range and half a surrogate pair are well-formed.
example : Json "[1e999,\x7b\"a\":\"\\ud800\"\x7d]".toUTF8.toList := by decide +kernel

end SymmetricTrees.Description
