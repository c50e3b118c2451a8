import Mathlib.Data.List.Pairwise
import SymmetricTrees.Proofs.RecordMeanings

/-!
The members of a record, whatever their order. The fields of a record are kept
apart in its draft, so members may change places; a member with an unknown name
changes nothing, a null for an absent field changes nothing that the record
shows, and a field that comes twice leaves no record.
-/

set_option autoImplicit false

namespace SymmetricTrees.Description

open Scan

variable {Value Draft State Label : Type}

section

variable {step : State → Label → Option State}

theorem foldl_m_perm
    (exchange : ∀ state one other, ((step state one).bind fun later => step later other) =
      (step state other).bind fun later => step later one)
    {labels permuted : List Label} (perm : labels.Perm permuted) (state : State) :
    labels.foldlM step state = permuted.foldlM step state := by
  induction perm generalizing state with
  | nil => rfl
  | cons label _ induction =>
      simp only [List.foldlM_cons, Option.bind_eq_bind]
      congr 1
      funext later
      exact induction later
  | swap one other labels =>
      have swapped := exchange state other one
      simp only [List.foldlM_cons, Option.bind_eq_bind, ← Option.bind_assoc, swapped]
  | trans _ _ first second => exact (first state).trans (second state)

theorem foldl_m_eq_none_of_mem {label : Label} (refuses : ∀ state, step state label = none)
    {labels : List Label} (isLabel : label ∈ labels) (state : State) :
    labels.foldlM step state = none := by
  induction labels generalizing state with
  | nil => cases isLabel
  | cons first labels induction =>
      rw [List.foldlM_cons, Option.bind_eq_bind]
      rcases List.mem_cons.mp isLabel with rfl | isLabel
      · rw [refuses, Option.bind_none]
      · rw [Option.bind_eq_none_iff]
        intro later _
        exact induction isLabel later

end

def nullText : List UInt8 := ['n', 'u', 'l', 'l'].map Char.toUInt8

namespace Field

/-- Two fields that are kept apart in a draft: reading one does not change whether
the other is present, and they may be read in either order. -/
structure Apart (field other : Field Draft) : Prop where
  keeps : ∀ {draft larger : Draft} {text : List UInt8},
    meaning (field.read draft) text = some larger → other.isPresent larger = other.isPresent draft
  kept : ∀ {draft larger : Draft} {text : List UInt8},
    meaning (other.read draft) text = some larger → field.isPresent larger = field.isPresent draft
  exchange : ∀ (draft : Draft) (text otherText : List UInt8),
    ((meaning (field.read draft) text).bind fun larger => meaning (other.read larger) otherText) =
      (meaning (other.read draft) otherText).bind fun larger => meaning (field.read larger) text

instance : Std.Symm (@Apart Draft) where
  symm _ _ apart := ⟨apart.kept, apart.keeps, fun draft text otherText =>
    (apart.exchange draft otherText text).symm⟩

def Fills (field : Field Draft) : Prop :=
  ∀ ⦃draft larger : Draft⦄ ⦃text : List UInt8⦄,
    meaning (field.read draft) text = some larger → field.isPresent larger = true

end Field

namespace Shape

/-- A shape whose fields are kept apart, are present when they have been read, and
are absent from the start. -/
structure Orderly (shape : Shape Draft Value) : Prop where
  blank : ∀ field ∈ shape.fields, field.isPresent shape.blank = false
  fills : ∀ field ∈ shape.fields, field.Fills
  apart : shape.fields.Pairwise Field.Apart

/-- Null for a field that is absent changes nothing that the record shows. -/
def Neutral (shape : Shape Draft Value) (field : Field Draft) : Prop :=
  ∀ ⦃draft : Draft⦄, field.isPresent draft = false →
    ∃ larger, meaning (field.read draft) nullText = some larger ∧
      shape.missing? larger = shape.missing? draft ∧ shape.build? larger = shape.build? draft

variable {shape : Shape Draft Value}

theorem mem_of_find? {name : String} {field : Field Draft} (found : shape.find? name = some field) :
    field ∈ shape.fields := List.mem_of_find?_eq_some found

theorem name_of_find? {name : String} {field : Field Draft}
    (found : shape.find? name = some field) : field.name = name := by
  have named := List.find?_some found
  exact eq_of_beq named

theorem Orderly.apart_of_name (orderly : shape.Orderly) {name other : String}
    {field second : Field Draft} (found : shape.find? name = some field)
    (otherFound : shape.find? other = some second) (different : name ≠ other) :
    field.Apart second := by
  apply orderly.apart.forall (mem_of_find? found) (mem_of_find? otherFound)
  intro same
  apply different
  rw [← name_of_find? found, ← name_of_find? otherFound, same]

theorem absorb_as_unknown {name : String} (unknown : shape.find? name = none) (draft : Draft)
    (value : List UInt8) : shape.absorbAs draft name value = some draft := by
  rw [absorbAs, unknown]

theorem absorb_as_known {name : String} {field : Field Draft}
    (found : shape.find? name = some field) {draft : Draft} (absent : field.isPresent draft = false)
    (value : List UInt8) : shape.absorbAs draft name value = meaning (field.read draft) value := by
  rw [absorbAs, found]
  simp [absent]

theorem absorb_as_present {name : String} {field : Field Draft}
    (found : shape.find? name = some field) {draft : Draft} (present : field.isPresent draft = true)
    (value : List UInt8) : shape.absorbAs draft name value = none := by
  rw [absorbAs, found]
  simp [present]

theorem Orderly.absorb_as_keeps (orderly : shape.Orderly) {name other : String}
    {field : Field Draft} (found : shape.find? name = some field) (different : name ≠ other)
    {draft larger : Draft} {value : List UInt8} (absorbed : shape.absorbAs draft other value = some larger) :
    field.isPresent larger = field.isPresent draft := by
  cases otherFound : shape.find? other with
  | none =>
      rw [absorb_as_unknown otherFound] at absorbed
      cases absorbed
      rfl
  | some second =>
      cases present : second.isPresent draft with
      | true =>
          rw [absorb_as_present otherFound present] at absorbed
          cases absorbed
      | false =>
          rw [absorb_as_known otherFound present] at absorbed
          exact (orderly.apart_of_name found otherFound different).kept absorbed

theorem Orderly.absorb_as_twice (orderly : shape.Orderly) {name : String} {field : Field Draft}
    (found : shape.find? name = some field) (draft : Draft) (value second : List UInt8) :
    ((shape.absorbAs draft name value).bind fun larger => shape.absorbAs larger name second) =
      none := by
  rw [Option.bind_eq_none_iff]
  intro larger absorbed
  cases present : field.isPresent draft with
  | true =>
      rw [absorb_as_present found present] at absorbed
      cases absorbed
  | false =>
      rw [absorb_as_known found present] at absorbed
      exact absorb_as_present found (orderly.fills field (mem_of_find? found) absorbed) second

theorem Orderly.absorb_as_before_present (orderly : shape.Orderly) {one other : String}
    {field : Field Draft} (found : shape.find? other = some field) (different : other ≠ one)
    {draft : Draft} (present : field.isPresent draft = true) (value second : List UInt8) :
    ((shape.absorbAs draft one value).bind fun larger => shape.absorbAs larger other second) =
      none := by
  rw [Option.bind_eq_none_iff]
  intro larger absorbed
  have kept := orderly.absorb_as_keeps found different absorbed
  exact absorb_as_present found (kept.trans present) second

theorem Orderly.absorb_as_both_absent (orderly : shape.Orderly) {one other : String}
    {field second : Field Draft} (found : shape.find? one = some field)
    (otherFound : shape.find? other = some second) (different : other ≠ one) {draft : Draft}
    (absent : field.isPresent draft = false) (otherAbsent : second.isPresent draft = false)
    (value otherValue : List UInt8) :
    ((shape.absorbAs draft one value).bind fun larger => shape.absorbAs larger other otherValue) =
      (meaning (field.read draft) value).bind fun larger =>
        meaning (second.read larger) otherValue := by
  rw [absorb_as_known found absent]
  apply Option.bind_congr
  intro larger read
  have kept := (orderly.apart_of_name found otherFound different.symm).keeps read
  exact absorb_as_known otherFound (kept.trans otherAbsent) otherValue

theorem Orderly.absorb_as_exchange (orderly : shape.Orderly) (draft : Draft) (one other : String)
    (value otherValue : List UInt8) :
    ((shape.absorbAs draft one value).bind fun larger => shape.absorbAs larger other otherValue) =
      (shape.absorbAs draft other otherValue).bind fun larger =>
        shape.absorbAs larger one value := by
  cases found : shape.find? one with
  | none => simp [absorb_as_unknown found]
  | some field =>
  cases otherFound : shape.find? other with
  | none => simp [absorb_as_unknown otherFound]
  | some second =>
  by_cases same : one = other
  · subst same
    rw [orderly.absorb_as_twice found, orderly.absorb_as_twice found]
  cases present : field.isPresent draft with
  | true =>
      rw [orderly.absorb_as_before_present found same present, absorb_as_present found present,
        Option.bind_none]
  | false =>
  cases otherPresent : second.isPresent draft with
  | true =>
      rw [orderly.absorb_as_before_present otherFound (Ne.symm same) otherPresent,
        absorb_as_present otherFound otherPresent, Option.bind_none]
  | false =>
      rw [orderly.absorb_as_both_absent found otherFound (Ne.symm same) present otherPresent,
        orderly.absorb_as_both_absent otherFound found same otherPresent present]
      exact (orderly.apart_of_name found otherFound same).exchange draft value otherValue

theorem Orderly.absorb_exchange (orderly : shape.Orderly) (draft : Draft) (one other : Member) :
    ((shape.absorb draft one).bind fun larger => shape.absorb larger other) =
      (shape.absorb draft other).bind fun larger => shape.absorb larger one := by
  simp only [absorb, Option.bind_eq_bind]
  cases spelled one.key with
  | none => simp
  | some name =>
  cases spelled other.key with
  | none => simp
  | some otherName => exact orderly.absorb_as_exchange draft name otherName one.value other.value

theorem Orderly.of_members_perm (orderly : shape.Orderly) {members permuted : List Member}
    (perm : members.Perm permuted) : shape.ofMembers members = shape.ofMembers permuted := by
  rw [ofMembers, foldl_m_perm orderly.absorb_exchange perm, ofMembers]

/-- A member anywhere in an object may as well be the first. -/
theorem Orderly.of_members_middle (orderly : shape.Orderly) (front back : List Member)
    (member : Member) :
    shape.ofMembers (front ++ member :: back) =
      (shape.absorb shape.blank member).bind fun draft =>
        ((front ++ back).foldlM shape.absorb draft).bind shape.result := by
  rw [orderly.of_members_perm List.perm_middle, ofMembers, List.foldlM_cons, Option.bind_eq_bind,
    Option.bind_assoc]

theorem Orderly.of_members_unknown (orderly : shape.Orderly) {member : Member} {name : String}
    (named : spelled member.key = some name) (unknown : shape.find? name = none)
    (front back : List Member) :
    shape.ofMembers (front ++ member :: back) = shape.ofMembers (front ++ back) := by
  rw [orderly.of_members_middle, absorb, named, Option.bind_eq_bind, Option.bind_some,
    absorb_as_unknown unknown, Option.bind_some, ofMembers]

theorem of_members_congr {key value other : List UInt8} {name : String} {field : Field Draft}
    (named : spelled key = some name) (found : shape.find? name = some field)
    (same : ∀ draft, meaning (field.read draft) value = meaning (field.read draft) other)
    (front back : List Member) :
    shape.ofMembers (front ++ ⟨key, value⟩ :: back) =
      shape.ofMembers (front ++ ⟨key, other⟩ :: back) := by
  have absorbed : ∀ draft, shape.absorb draft ⟨key, value⟩ = shape.absorb draft ⟨key, other⟩ := by
    intro draft
    simp only [absorb, named, Option.bind_eq_bind, Option.bind_some, absorbAs, found, same]
  simp only [ofMembers, List.foldlM_append, List.foldlM_cons, absorbed]

theorem of_members_eq_none {members : List Member} {member : Member} (isMember : member ∈ members)
    {name : String} {field : Field Draft} (named : spelled member.key = some name)
    (found : shape.find? name = some field)
    (refused : ∀ draft, meaning (field.read draft) member.value = none) :
    shape.ofMembers members = none := by
  have absorbed : ∀ draft, shape.absorb draft member = none := by
    intro draft
    simp [absorb, named, absorbAs, found, refused]
  rw [ofMembers, foldl_m_eq_none_of_mem absorbed isMember, Option.bind_none]

/-- A known field that comes twice leaves no record. -/
theorem Orderly.of_members_repeats (orderly : shape.Orderly) {front middle back : List Member}
    {first second : Member} {name : String} {field : Field Draft}
    (named : spelled first.key = some name) (again : spelled second.key = some name)
    (found : shape.find? name = some field) :
    shape.ofMembers (front ++ first :: (middle ++ second :: back)) = none := by
  have perm : (front ++ first :: (middle ++ second :: back)).Perm
      (first :: second :: (front ++ (middle ++ back))) := by
    apply List.perm_middle.trans
    apply List.Perm.cons
    rw [← List.append_assoc, ← List.append_assoc]
    exact List.perm_middle
  have twice := orderly.absorb_as_twice found shape.blank first.value second.value
  rw [orderly.of_members_perm perm, ofMembers]
  simp only [List.foldlM_cons, absorb, named, again, Option.bind_eq_bind, Option.bind_some,
    ← Option.bind_assoc, twice, Option.bind_none]

theorem Orderly.members_keep (orderly : shape.Orderly) {name : String} {field : Field Draft}
    (found : shape.find? name = some field) {members : List Member}
    (others : ∀ member ∈ members, spelled member.key ≠ some name) {draft larger : Draft}
    (absorbed : members.foldlM shape.absorb draft = some larger) :
    field.isPresent larger = field.isPresent draft := by
  induction members generalizing draft with
  | nil =>
      cases absorbed
      rfl
  | cons member members induction =>
      rcases List.forall_mem_cons.mp others with ⟨different, others⟩
      rw [List.foldlM_cons, Option.bind_eq_bind, Option.bind_eq_some_iff] at absorbed
      rcases absorbed with ⟨middle, first, later⟩
      rw [absorb, Option.bind_eq_bind, Option.bind_eq_some_iff] at first
      rcases first with ⟨other, named, first⟩
      have notSame : name ≠ other := by
        rintro rfl
        exact different named
      exact (induction others later).trans (orderly.absorb_as_keeps found notSame first)

/-- A member under a name that no other member has may as well be the last; its
field is absent until then. -/
theorem Orderly.of_members_last (orderly : shape.Orderly) {key : List UInt8} {name : String}
    {field : Field Draft} (named : spelled key = some name) (found : shape.find? name = some field)
    {front back : List Member}
    (others : ∀ member ∈ front ++ back, spelled member.key ≠ some name) (value : List UInt8) :
    shape.ofMembers (front ++ ⟨key, value⟩ :: back) =
      ((front ++ back).foldlM shape.absorb shape.blank).bind fun draft =>
        (meaning (field.read draft) value).bind shape.result := by
  have perm : (front ++ ⟨key, value⟩ :: back).Perm ((front ++ back) ++ [⟨key, value⟩]) :=
    List.perm_middle.trans (List.perm_append_singleton _ _).symm
  rw [orderly.of_members_perm perm, ofMembers, List.foldlM_append, Option.bind_eq_bind,
    Option.bind_assoc]
  apply Option.bind_congr
  intro draft absorbed
  have kept := orderly.members_keep found others absorbed
  have absent := kept.trans (orderly.blank field (mem_of_find? found))
  have taken : shape.absorb draft ⟨key, value⟩ = meaning (field.read draft) value := by
    rw [absorb, named, Option.bind_eq_bind, Option.bind_some, absorb_as_known found absent]
  simp only [List.foldlM_cons, List.foldlM_nil, taken, Option.bind_eq_bind, Option.pure_def,
    Option.bind_fun_some]

theorem Orderly.of_members_null (orderly : shape.Orderly) {key : List UInt8} {name : String}
    {field : Field Draft} (named : spelled key = some name) (found : shape.find? name = some field)
    (neutral : shape.Neutral field) {front back : List Member}
    (others : ∀ member ∈ front ++ back, spelled member.key ≠ some name) :
    shape.ofMembers (front ++ ⟨key, nullText⟩ :: back) = shape.ofMembers (front ++ back) := by
  rw [orderly.of_members_last named found others, ofMembers]
  apply Option.bind_congr
  intro draft absorbed
  have kept := orderly.members_keep found others absorbed
  have absent := kept.trans (orderly.blank field (mem_of_find? found))
  rcases neutral absent with ⟨larger, read, sameMissing, sameBuild⟩
  rw [read, Option.bind_some, result, result, sameMissing, sameBuild]

variable {fields : List (Field Draft)} {field : Field Draft} {front back : List (List UInt8)}

theorem fill_congr (isField : fields[front.length]? = some field) {item other : List UInt8}
    (same : ∀ draft, meaning (field.read draft) item = meaning (field.read draft) other)
    (draft : Draft) :
    fill fields draft (front ++ item :: back) = fill fields draft (front ++ other :: back) := by
  induction front generalizing fields draft with
  | nil =>
      cases fields with
      | nil => cases isField
      | cons first fields =>
          cases isField
          simp only [List.nil_append, fill, same]
  | cons before front induction =>
      cases fields with
      | nil => rfl
      | cons first fields =>
          have later := fun draft => induction isField draft
          simp only [List.cons_append, fill, later]

theorem fill_eq_none (isField : fields[front.length]? = some field) {item : List UInt8}
    (refused : ∀ draft, meaning (field.read draft) item = none) (draft : Draft) :
    fill fields draft (front ++ item :: back) = none := by
  induction front generalizing fields draft with
  | nil =>
      cases fields with
      | nil => cases isField
      | cons first fields =>
          cases isField
          simp [fill, refused]
  | cons before front induction =>
      cases fields with
      | nil => rfl
      | cons first fields =>
          have later := fun draft => induction isField draft
          simp [fill, later]

theorem fill_null (neutral : shape.Neutral field) (apart : fields.Pairwise Field.Apart)
    {items : List (List UInt8)} (isField : fields[items.length]? = some field) {draft : Draft}
    (absent : field.isPresent draft = false) :
    (fill fields draft (items ++ [nullText])).bind shape.build? =
      (fill fields draft items).bind shape.build? := by
  induction items generalizing fields draft with
  | nil =>
      cases fields with
      | nil => cases isField
      | cons first fields =>
          cases isField
          rcases neutral absent with ⟨larger, read, -, sameBuild⟩
          simp only [List.nil_append, fill, read, Option.bind_eq_bind, Option.bind_some, sameBuild]
  | cons item items induction =>
      cases fields with
      | nil => rfl
      | cons first fields =>
          rcases List.pairwise_cons.mp apart with ⟨firstApart, apart⟩
          have isField : fields[items.length]? = some field := isField
          simp only [List.cons_append, fill, Option.bind_eq_bind, Option.bind_assoc]
          apply Option.bind_congr
          intro larger read
          have kept := (firstApart field (List.mem_of_getElem? isField)).keeps read
          exact induction apart isField (kept.trans absent)

end Shape

end SymmetricTrees.Description
