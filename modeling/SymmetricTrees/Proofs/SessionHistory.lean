import Mathlib.Data.List.Induction
import SymmetricTrees.Proofs.SessionCalls

/-!
Histories of a session. Callers load models, score rows and give handles back, in
any order and as often as wanted. Main statement: the last error is the message of
the last call that failed since the last time it was cleared, and nothing but a
failure or clearing touches it.
-/

set_option autoImplicit false

namespace SymmetricTrees.Session

namespace Store

def after (history : List Call) : Store :=
  history.foldl (fun store call => (store.perform call).2) {}

theorem after_append (history : List Call) (call : Call) :
    after (history ++ [call]) = ((after history).perform call).2 := by
  unfold after
  rw [List.foldl_append]
  rfl

theorem after_loaded (history : List Call) : (after history).Loaded := by
  induction history using List.reverseRecOn with
  | nil =>
      intro place handle live
      cases live
  | append_singleton history call induction =>
      rw [after_append]
      exact perform_loaded induction call

end Store

open Store

variable {event : Store → Call → Prop} {history : List Call} {call : Call} {place : Nat}
  {message : String}

/-- At a place of a history something happens with the call and the store before it. -/
def Occurs (event : Store → Call → Prop) (history : List Call) (place : Nat) : Prop :=
  ∃ call, history[place]? = some call ∧ event (after (history.take place)) call

def Permitted (history : List Call) : Prop :=
  ∀ (place : Nat) (call : Call), history[place]? = some call →
    (after (history.take place)).Allows call

/-- A call fails with a message. Callers read a space for each zero character of it. -/
def FailsAt (message : String) : List Call → Nat → Prop :=
  Occurs fun store call => ∃ error, store.Fails call error ∧
    message.toList = (call.describe error).toList.map fun character =>
      if character = '\x00' then ' ' else character

def ClearsAt : List Call → Nat → Prop := Occurs fun _ call => call = .clear

/-- Behind a place of a history no call fails, and none clears the last error. -/
def QuietBehind (history : List Call) (place : Nat) : Prop :=
  ∀ later, place < later → ¬ClearsAt history later ∧ ∀ message, ¬FailsAt message history later

def Cleared (history : List Call) : Prop :=
  ∀ place message, FailsAt message history place → ∃ later, place < later ∧ ClearsAt history later

theorem Occurs.lt (occurs : Occurs event history place) : place < history.length := by
  obtain ⟨call, found, -⟩ := occurs
  exact (List.getElem?_eq_some_iff.mp found).1

theorem occurs_append :
    Occurs event (history ++ [call]) place ↔
      Occurs event history place ∨ place = history.length ∧ event (after history) call := by
  by_cases early : place < history.length
  · have found := @List.getElem?_append_left _ history [call] place early
    have before : (history ++ [call]).take place = history.take place :=
      List.take_append_of_le_length (Nat.le_of_lt early)
    unfold Occurs
    rw [found, before]
    constructor
    · exact .inl
    · intro either
      cases either with
      | inl occurs => exact occurs
      | inr last => exact absurd last.1 (Nat.ne_of_lt early)
  · constructor
    · intro occurs
      have bound := occurs.lt
      rw [List.length_append, List.length_singleton] at bound
      have last : place = history.length := by omega
      subst last
      obtain ⟨found, same, happens⟩ := occurs
      rw [List.getElem?_concat_length] at same
      cases same
      rw [List.take_left] at happens
      exact .inr ⟨rfl, happens⟩
    · intro either
      cases either with
      | inl occurs => exact absurd occurs.lt early
      | inr last =>
          obtain ⟨same, happens⟩ := last
          subst same
          refine ⟨call, List.getElem?_concat_length, ?_⟩
          rw [List.take_left]
          exact happens

theorem permitted_append (permitted : Permitted (history ++ [call])) :
    Permitted history ∧ (after history).Allows call := by
  constructor
  · intro place earlier found
    have bound := (List.getElem?_eq_some_iff.mp found).1
    have allowed := permitted place earlier (by rw [List.getElem?_append_left bound, found])
    rw [List.take_append_of_le_length (Nat.le_of_lt bound)] at allowed
    exact allowed
  · have allowed := permitted history.length call List.getElem?_concat_length
    rw [List.take_left] at allowed
    exact allowed

theorem Occurs.not_behind (occurs : Occurs event (history ++ [call]) place) :
    ¬history.length < place := by
  have bound := occurs.lt
  rw [List.length_append, List.length_singleton] at bound
  omega

theorem quiet_behind_last : QuietBehind (history ++ [call]) history.length := by
  intro later behind
  constructor
  · intro clears
    exact clears.not_behind behind
  · intro message fails
    exact fails.not_behind behind

section Succeeds

variable (succeeds : ∀ error, ¬(after history).Fails call error)
include succeeds

theorem fails_at_of_append (fails : FailsAt message (history ++ [call]) place) :
    FailsAt message history place := by
  cases occurs_append.mp fails with
  | inl before => exact before
  | inr last =>
      obtain ⟨-, error, now, -⟩ := last
      exact absurd now (succeeds error)

theorem QuietBehind.append (quiet : QuietBehind history place) (other : call ≠ .clear) :
    QuietBehind (history ++ [call]) place := by
  intro later behind
  constructor
  · intro clears
    cases occurs_append.mp clears with
    | inl before => exact (quiet later behind).1 before
    | inr last => exact other last.2
  · intro message fails
    exact (quiet later behind).2 message (fails_at_of_append succeeds fails)

theorem Cleared.append (cleared : Cleared history) : Cleared (history ++ [call]) := by
  intro place message fails
  obtain ⟨later, behind, clears⟩ := cleared place message (fails_at_of_append succeeds fails)
  exact ⟨later, behind, occurs_append.mpr (.inl clears)⟩

end Succeeds

theorem cleared_clear : Cleared (history ++ [.clear]) := by
  have succeeds : ∀ error, ¬(after history).Fails .clear error := by
    intro error fails
    cases fails
  intro place message fails
  have before := fails_at_of_append succeeds fails
  exact ⟨history.length, before.lt, occurs_append.mpr (.inr ⟨rfl, rfl⟩)⟩

theorem FailsAt.ne_empty (fails : FailsAt message history place) : message ≠ "" := by
  intro silent
  obtain ⟨call, -, error, -, told⟩ := fails
  rw [silent] at told
  have described := List.map_eq_nil_iff.mp told.symm
  exact call.describe_ne_empty error (String.toList_eq_nil_iff.mp described)

/-- After a history the last error is the message of the last failure, unless it was
cleared. -/
theorem last_error_after (permitted : Permitted history) :
    (∃ place message, FailsAt message history place ∧ QuietBehind history place ∧
        (after history).lastError.text = message) ∨
      Cleared history ∧ (after history).lastError.text = "" := by
  -- The last call of a history fails, clears, or keeps what the calls before it left.
  induction history using List.reverseRecOn with
  | nil =>
      refine .inr ⟨?_, rfl⟩
      intro place message fails
      exact absurd fails.lt (Nat.not_lt_zero place)
  | append_singleton history call induction =>
      obtain ⟨earlier, allowed⟩ := permitted_append permitted
      rw [after_append]
      by_cases fails : ∃ error, (after history).Fails call error
      · obtain ⟨error, fails⟩ := fails
        refine .inl ⟨history.length, readable (call.describe error),
          occurs_append.mpr (.inr ⟨rfl, error, fails, to_list_readable _⟩), quiet_behind_last, ?_⟩
        rw [perform_of_fails (after_loaded history) allowed fails]
        rfl
      · have succeeds := not_exists.mp fails
        by_cases clears : call = .clear
        · subst clears
          exact .inr ⟨cleared_clear, rfl⟩
        · rw [perform_keeps (after_loaded history) allowed succeeds clears]
          cases induction earlier with
          | inl failed =>
              obtain ⟨place, message, failed, quiet, text⟩ := failed
              exact .inl ⟨place, message, occurs_append.mpr (.inl failed),
                quiet.append succeeds clears, text⟩
          | inr cleared => exact .inr ⟨cleared.1.append succeeds, cleared.2⟩

/-- A load is answered with a handle exactly if it does not fail. -/
theorem load_answer (store : Store) (name : String) (source : Option Description.Source)
    (wording : Description.Fault → String) :
    (store.perform (.load name source wording)).1 = .handle none ↔
      ∃ error, store.Fails (.load name source wording) error := by
  cases source with
  | none =>
      rw [perform_load_none run_load_with_absent]
      exact iff_of_true rfl ⟨_, .source⟩
  | some source =>
      cases outcome : CompiledModel.ofSource {} source with
      | error error =>
          rw [perform_load_none (run_load_with_refused outcome)]
          exact iff_of_true rfl ⟨error, .description outcome⟩
      | ok model =>
          rw [perform_load_some (run_load_with_accepted outcome)]
          refine iff_of_false (fun equal => nomatch equal) ?_
          intro failing
          obtain ⟨error, fails⟩ := failing
          cases fails with
          | description refused =>
              rw [outcome] at refused
              cases refused

/-- A batch of some rows fails where something lacks, and leaves its output alone. Else
each place of the output holds what its row scores alone. -/
structure BatchAnswered (store : Store) (number : Option Nat) (size : Nat) (rows : Option RowList)
    (output : Option (Array Float)) (answer : Answer) : Prop where
  refused : answer = .status (-1) output ↔ store.Lacks number size rows output
  filled : ¬store.Lacks number size rows output →
    ∃ given buffer filled, rows = some given ∧ output = some buffer ∧
      answer = .status 0 (some filled) ∧ filled.size = buffer.size ∧
      (∀ index < size, ∃ row score, given.rows[index]? = some (some row) ∧
        (store.perform (.score number (some row) given.count)).1 = .score score ∧
        filled[index]? = some score) ∧
      ∀ index, size ≤ index → filled[index]? = buffer[index]?

theorem batch_answer {store : Store} (loaded : store.Loaded) {number : Option Nat} {size : Nat}
    {rows : Option RowList} {output : Option (Array Float)} (sized : size ≠ 0)
    (allowed : store.Allows (.scoreMany number size rows output)) :
    BatchAnswered store number size rows output
      (store.perform (.scoreMany number size rows output)).1 := by
  cases batch_cases allowed.1 sized with
  | inl lacking =>
      obtain ⟨lacks, error, fails⟩ := lacking
      rw [perform_of_fails loaded allowed fails]
      exact ⟨iff_of_true rfl lacks, fun whole => absurd lacks whole⟩
  | inr complete =>
      obtain ⟨whole, place, handle, given, buffer, number, rows, output, live, present, enough⟩ :=
        complete
      subst number rows output
      obtain ⟨filled, performed, same, places, rest⟩ :=
        perform_batch loaded allowed sized live present enough
      rw [performed]
      constructor
      · refine iff_of_false ?_ whole
        intro failed
        cases failed
      · intro _
        refine ⟨given, buffer, filled, rfl, rfl, rfl, same, ?_, rest⟩
        intro index inside
        obtain ⟨row, score, found, alone, scored⟩ := places index inside
        refine ⟨row, score, found, ?_, scored⟩
        rw [alone]

/-- The last error of a store tracks the failures of a history: it is the message of
the last call that failed, as long as it was not cleared. Whatever comes next, a call
that fails answers with its fallback, and any other call but clearing keeps the last
error. -/
structure TracksFailures (history : List Call) (store : Store) : Prop where
  told : (∃ place message, FailsAt message history place ∧ QuietBehind history place ∧
      store.lastError.text = message ∧ message ≠ "" ∧ '\x00' ∉ message.toList) ∨
    Cleared history ∧ store.lastError.text = ""
  asked : store.perform .lastError = (.text store.lastError.text, store)
  unknown_score : Scoring.unknownScore.isNaN = true
  fallback : ∀ call, store.Allows call → ∀ error, store.Fails call error →
    (store.perform call).1 = call.fallback
  kept : ∀ call, store.Allows call → (∀ error, ¬store.Fails call error) → call ≠ .clear →
    (store.perform call).2.lastError = store.lastError
  load : ∀ name source wording, (store.perform (.load name source wording)).1 = .handle none ↔
    ∃ error, store.Fails (.load name source wording) error
  empty_batch : ∀ number handle rows output, store.handles[number]? = some (some handle) →
    store.perform (.scoreMany (some number) 0 rows output) = (.status 0 output, store)
  batch : ∀ number size rows output, size ≠ 0 →
    store.Allows (.scoreMany number size rows output) →
    BatchAnswered store number size rows output
      (store.perform (.scoreMany number size rows output)).1

theorem last_error_tracks_failures (history : List Call) (permitted : Permitted history) :
    TracksFailures history (after history) := by
  have loaded := after_loaded history
  constructor
  · cases last_error_after permitted with
    | inr cleared => exact .inr cleared
    | inl failed =>
        obtain ⟨place, message, fails, quiet, text⟩ := failed
        refine .inl ⟨place, message, fails, quiet, text, fails.ne_empty, ?_⟩
        rw [← text]
        exact (after history).lastError.unbroken
  · rfl
  · decide
  · intro call allowed error fails
    rw [perform_of_fails loaded allowed fails]
  · intro call allowed succeeds other
    exact perform_keeps loaded allowed succeeds other
  · exact load_answer (after history)
  · intro number handle rows output live
    exact perform_empty_batch loaded live rows output
  · intro number size rows output sized allowed
    exact batch_answer loaded sized allowed

/-- The shortest description of a model, which has no features and no trees. -/
def shortest : Description.Source :=
  ⟨[0x5B, 0x5B, 0x5B, 0x5D, 0x5D, 0x2C, 0x5B, 0x5D, 0x5D], .complete⟩

theorem shortest_accepted : ∃ model, CompiledModel.ofSource {} shortest = .ok model := by
  have read : Description.Model.read shortest = .ok ⟨[], [], none⟩ := by rfl
  let forest : Forest := (Forest.empty 0).withTransform 1.0 0.0
  have converted : Description.Model.toForest ⟨[], [], none⟩ = .ok forest := rfl
  have few : ∀ depth, (forest.trees.toList.countP fun tree => tree.depth == depth) < 4 :=
    fun depth => Nat.succ_pos 3
  obtain ⟨model, compiled⟩ := (@of_forest_is_ok_iff {} forest).mpr
    (Grouping.encode_is_ok (Grouping.counted_of_few (few 30) (few 31)))
  refine ⟨model, ?_⟩
  unfold CompiledModel.ofSource
  simp only [read, converted, compiled]

/-- A batch with an absent row fails, and after clearing another call fails. -/
theorem last_error_tracks_failures_after_clearing :
    let history : List Call :=
      [.load "data" (some shortest) Description.Fault.message,
        .scoreMany (some 0) 2 (some ⟨[some #[], none], 0⟩) (some #[7.0, -0.0]), .clear,
        .score (some 0) none 0]
    let store := after history
    Permitted history ∧
      ((∃ place message, FailsAt message history place ∧ QuietBehind history place ∧
          store.lastError.text = message ∧ message ≠ "" ∧ '\x00' ∉ message.toList) ∨
        Cleared history ∧ store.lastError.text = "") ∧
      store.perform (.scoreMany (some 0) 0 none none) = (.status 0 none, store) := by
  intro history store
  obtain ⟨model, accepted⟩ := shortest_accepted
  let handle : Handle := ⟨{}, some model⟩
  have first : after (history.take 1) = { handles := [some handle] } := by
    have performed := @perform_load_some {} "data" (some shortest) Description.Fault.message {}
      handle (run_load_with_accepted accepted)
    exact congrArg Prod.snd performed
  have second : (after (history.take 2)).handles = (after (history.take 1)).handles := rfl
  have third : (after (history.take 3)).handles = (after (history.take 1)).handles := rfl
  have last : store.handles = (after (history.take 1)).handles := rfl
  rw [first] at second third last
  have live : ∀ store : Store, store.handles = [some handle] → store.Live (some 0) := by
    intro store handles number same
    cases same
    exact ⟨handle, by rw [handles]; rfl⟩
  have permitted : Permitted history := by
    intro place call found
    match place with
    | 0 =>
        cases found
        trivial
    | 1 =>
        cases found
        rw [first]
        refine ⟨live _ rfl, fun _ => ⟨?_, ?_⟩⟩
        · intro given same
          cases same
          exact ⟨Nat.le_refl 2, fun values _ => Nat.zero_le _⟩
        · intro buffer same
          cases same
          exact Nat.le_refl 2
    | 2 =>
        cases found
        trivial
    | 3 =>
        cases found
        exact ⟨live _ third, fun values same => nomatch same⟩
  have tracks := last_error_tracks_failures history permitted
  have held : store.handles[0]? = some (some handle) := by
    rw [last]
    rfl
  exact ⟨permitted, tracks.told, tracks.empty_batch 0 handle none none held⟩

end SymmetricTrees.Session
