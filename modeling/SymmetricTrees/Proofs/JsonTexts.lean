import Mathlib.Data.List.Forall2
import SymmetricTrees.Proofs.ReadingSteps
import SymmetricTrees.Description.Skipped

/-!
Well-formed values as a grammar of their own, without a reader: words, numbers
of any size, quoted texts of any bytes, and arrays and objects of any nesting.
-/

set_option autoImplicit false

namespace SymmetricTrees.Description

open Scan

/-- What may stand between the quotes of a text. A number of an escaped code point
is any four hexadecimal digits. -/
inductive Spelled : List UInt8 → Prop
  | nil : Spelled []
  | plain {byte : UInt8} {rest : List UInt8} : byte ≠ quote → byte ≠ backslash → 0x20 ≤ byte →
      Spelled rest → Spelled (byte :: rest)
  | escape {letter : UInt8} {rest : List UInt8} : (plainEscape? letter).isSome → Spelled rest →
      Spelled (backslash :: letter :: rest)
  | point {digit3 digit2 digit1 digit0 : UInt8} {rest : List UInt8} :
      (∀ digit ∈ [digit3, digit2, digit1, digit0], (hexDigit? digit).isSome) → Spelled rest →
      Spelled (backslash :: 'u'.toUInt8 :: digit3 :: digit2 :: digit1 :: digit0 :: rest)

inductive Quoted : List UInt8 → Prop
  | intro {inner : List UInt8} : Spelled inner → Quoted (quote :: (inner ++ [quote]))

def AllDigits (bytes : List UInt8) : Prop := ∀ byte ∈ bytes, isDigit byte = true

/-- Digits without a leading zero. -/
inductive Whole : List UInt8 → Prop
  | zero : Whole [0x30]
  | other {first : UInt8} {rest : List UInt8} : first ≠ 0x30 → AllDigits (first :: rest) →
      Whole (first :: rest)

inductive Fraction : List UInt8 → Prop
  | none : Fraction []
  | some {digits : List UInt8} : digits ≠ [] → AllDigits digits → Fraction (point :: digits)

inductive Exponent : List UInt8 → Prop
  | none : Exponent []
  | some {mark : UInt8} {sign digits : List UInt8} : isExponentMark mark = true →
      sign ∈ [[], ['+'.toUInt8], [minus]] → digits ≠ [] → AllDigits digits →
      Exponent (mark :: (sign ++ digits))

inductive Numeral : List UInt8 → Prop
  | intro {sign whole fraction exponent : List UInt8} : sign ∈ [[], [minus]] → Whole whole →
      Fraction fraction → Exponent exponent → Numeral (sign ++ (whole ++ (fraction ++ exponent)))

/-- Parts with blanks around them, a comma behind each. -/
inductive Led : List (List UInt8) → List UInt8 → Prop
  | nil : Led [] []
  | cons {before part behind rest : List UInt8} {parts : List (List UInt8)} : Blank before →
      Blank behind → Led parts rest →
      Led (part :: parts) (before ++ (part ++ (behind ++ comma :: rest)))

/-- Parts separated by commas between an opening and a closing byte. -/
inductive Enclosed (opening closing : UInt8) : List (List UInt8) → List UInt8 → Prop
  | none {blanks : List UInt8} : Blank blanks →
      Enclosed opening closing [] (opening :: (blanks ++ [closing]))
  | some {lead before last behind : List UInt8} {parts : List (List UInt8)} : Led parts lead →
      Blank before → Blank behind →
      Enclosed opening closing (parts ++ [last])
        (opening :: (lead ++ (before ++ (last ++ (behind ++ [closing])))))

def ArrayText (items : List (List UInt8)) (text : List UInt8) : Prop :=
  Enclosed openBracket closeBracket items text

structure Member where
  key : List UInt8
  value : List UInt8

inductive MemberText (member : Member) : List UInt8 → Prop
  | intro {before behind : List UInt8} : Blank before → Blank behind →
      MemberText member (member.key ++ (before ++ colon :: (behind ++ member.value)))

def ObjectText (members : List Member) (text : List UInt8) : Prop :=
  ∃ parts, List.Forall₂ MemberText members parts ∧ Enclosed openBrace closeBrace parts text

inductive Json : List UInt8 → Prop
  | word {letters : List Char} :
      letters ∈ [['n', 'u', 'l', 'l'], ['t', 'r', 'u', 'e'], ['f', 'a', 'l', 's', 'e']] →
      Json (letters.map Char.toUInt8)
  | text {text : List UInt8} : Quoted text → Json text
  | number {text : List UInt8} : Numeral text → Json text
  | array {items : List (List UInt8)} {text : List UInt8} : ArrayText items text →
      (∀ item ∈ items, Json item) → Json text
  | object {members : List Member} {text : List UInt8} : ObjectText members text →
      (∀ member ∈ members, Quoted member.key) → (∀ member ∈ members, Json member.value) →
      Json text

structure IsArray (items : List (List UInt8)) (text : List UInt8) : Prop where
  written : ArrayText items text
  json : ∀ item ∈ items, Json item

structure IsObject (members : List Member) (text : List UInt8) : Prop where
  written : ObjectText members text
  quoted : ∀ member ∈ members, Quoted member.key
  json : ∀ member ∈ members, Json member.value

theorem IsArray.to_json {items : List (List UInt8)} {text : List UInt8}
    (isArray : IsArray items text) : Json text := .array isArray.written isArray.json

theorem IsObject.to_json {members : List Member} {text : List UInt8}
    (isObject : IsObject members text) : Json text :=
  .object isObject.written isObject.quoted isObject.json

def startsValue (byte : UInt8) : Bool :=
  !isBlank byte && byte != closeBracket && byte != closeBrace

theorem starts_value_of_digit {byte : UInt8} (digit : isDigit byte = true) :
    startsValue byte = true := by
  have blank : isBlank byte = false := by
    cases blank : isBlank byte with
    | false => rfl
    | true =>
        simp only [isBlank, Bool.or_eq_true, beq_iff_eq] at blank
        rcases blank with ((rfl | rfl) | rfl) | rfl <;> cases digit
  have noBracket : byte ≠ closeBracket := by
    rintro rfl
    cases digit
  have noBrace : byte ≠ closeBrace := by
    rintro rfl
    cases digit
  simp [startsValue, blank, noBracket, noBrace]

theorem Numeral.starts {text : List UInt8} (numeral : Numeral text) :
    ∃ byte behind, text = byte :: behind ∧ (byte = minus ∨ isDigit byte = true) := by
  cases numeral with
  | intro isSign isWhole _ _ =>
      simp only [List.mem_cons, List.not_mem_nil, or_false] at isSign
      rcases isSign with rfl | rfl
      · cases isWhole with
        | zero => exact ⟨_, _, rfl, .inr rfl⟩
        | other _ all => exact ⟨_, _, rfl, .inr (all _ (List.mem_cons_self ..))⟩
      · exact ⟨_, _, rfl, .inl rfl⟩

theorem Json.starts {text : List UInt8} (json : Json text) :
    ∃ byte behind, text = byte :: behind ∧ startsValue byte = true := by
  cases json with
  | word known =>
      simp only [List.mem_cons, List.not_mem_nil, or_false] at known
      rcases known with rfl | rfl | rfl <;> exact ⟨_, _, rfl, rfl⟩
  | text quoted =>
      cases quoted with
      | intro => exact ⟨_, _, rfl, rfl⟩
  | number numeral =>
      rcases numeral.starts with ⟨byte, behind, rfl, rfl | digit⟩
      · exact ⟨_, _, rfl, rfl⟩
      · exact ⟨_, _, rfl, starts_value_of_digit digit⟩
  | array isArray =>
      cases isArray with
      | none => exact ⟨_, _, rfl, rfl⟩
      | some => exact ⟨_, _, rfl, rfl⟩
  | object isObject =>
      rcases isObject with ⟨parts, -, enclosed⟩
      cases enclosed with
      | none => exact ⟨_, _, rfl, rfl⟩
      | some => exact ⟨_, _, rfl, rfl⟩

theorem Json.of_opening {text : List UInt8} (json : Json text)
    (opens : text.head? = some openBrace ∨ text.head? = some openBracket) :
    (∃ members, IsObject members text) ∨ ∃ items, IsArray items text := by
  cases json with
  | word known =>
      simp only [List.mem_cons, List.not_mem_nil, or_false] at known
      rcases known with rfl | rfl | rfl <;> rcases opens with same | same <;> cases same
  | text quoted =>
      cases quoted with
      | intro => rcases opens with same | same <;> cases same
  | number numeral =>
      rcases numeral.starts with ⟨byte, behind, rfl, isMinus | digit⟩
      · subst isMinus
        rcases opens with same | same <;> cases same
      · rcases opens with same | same <;> cases same <;> cases digit
  | array isArray json => exact .inr ⟨_, isArray, json⟩
  | object isObject quoted json => exact .inl ⟨_, isObject, quoted, json⟩

theorem member_of_part {members : List Member} {parts : List (List UInt8)} {part : List UInt8}
    (areMembers : List.Forall₂ MemberText members parts) (isPart : part ∈ parts) :
    ∃ member ∈ members, MemberText member part := by
  induction areMembers with
  | nil => cases isPart
  | @cons member _ _ _ written _ induction =>
      rcases List.mem_cons.mp isPart with rfl | isPart
      · exact ⟨member, List.mem_cons_self .., written⟩
      · rcases induction isPart with ⟨other, isMember, written⟩
        exact ⟨other, List.mem_cons_of_mem _ isMember, written⟩

theorem enclosed_cons {opening closing : UInt8} {blanks before part text : List UInt8}
    {parts : List (List UInt8)} (some : parts ≠ [])
    (enclosed : Enclosed opening closing parts (opening :: text)) (blank : Blank before)
    (blank' : Blank blanks) :
    Enclosed opening closing (part :: parts)
      (opening :: (before ++ (part ++ (blanks ++ comma :: text)))) := by
  cases enclosed with
  | none _ => exact absurd rfl some
  | @some lead front last behind parts led blankFront blankBehind =>
      have longer := @Enclosed.some opening closing _ front last behind _
        (@Led.cons _ part _ _ _ blank blank' led) blankFront blankBehind
      simpa using longer

/-- Parts with commas between them and the closing byte behind. -/
def joined (closing : UInt8) : List (List UInt8) → List UInt8
  | [] => [closing]
  | [part] => part ++ [closing]
  | part :: parts => part ++ comma :: joined closing parts

theorem enclosed_joined (opening closing : UInt8) (parts : List (List UInt8)) :
    Enclosed opening closing parts (opening :: joined closing parts) := by
  match parts with
  | [] => exact .none (List.forall_mem_nil _)
  | [part] =>
      exact @Enclosed.some _ _ [] [] part [] [] .nil (List.forall_mem_nil _) (List.forall_mem_nil _)
  | part :: second :: parts =>
      exact enclosed_cons (List.cons_ne_nil _ _) (enclosed_joined opening closing (second :: parts))
        (@List.forall_mem_nil _ _) (@List.forall_mem_nil _ _)

def objectOf (members : List Member) : List UInt8 :=
  openBrace :: joined closeBrace (members.map fun member => member.key ++ colon :: member.value)

theorem is_object_object_of {members : List Member} (quoted : ∀ member ∈ members, Quoted member.key)
    (json : ∀ member ∈ members, Json member.value) : IsObject members (objectOf members) where
  written := by
    refine ⟨_, ?_, enclosed_joined openBrace closeBrace _⟩
    rw [List.forall₂_map_right_iff, List.forall₂_same]
    intro member _
    exact @MemberText.intro member [] [] (List.forall_mem_nil _) (List.forall_mem_nil _)
  quoted := quoted
  json := json

def arrayOf (items : List (List UInt8)) : List UInt8 := openBracket :: joined closeBracket items

theorem is_array_array_of {items : List (List UInt8)} (json : ∀ item ∈ items, Json item) :
    IsArray items (arrayOf items) where
  written := enclosed_joined openBracket closeBracket items
  json := json

end SymmetricTrees.Description
