import SymmetricTrees.Proofs.EncodingLimits

/-!
Histories of a handle. Descriptions and forests are loaded, rows are scored, in
any order and as often as wanted. Main statement: whatever has happened, the
handle is the one that a fresh handle becomes by the last load that succeeded:
it holds the model that this load makes, and answers like it.
-/

set_option autoImplicit false

namespace SymmetricTrees.Handle

inductive Call where
  | load (source : Description.Source)
  | loadForest (forest : Forest)
  | score (row : Row)
  | scoreMany (rows : List Row)
  | scoreInto (rows : List Row) (output : Array Float)
  | featureCount

inductive Answer where
  | load (outcome : Except ModelError Unit)
  | score (outcome : Except ModelError Float)
  | scores (outcome : Except ModelError (List Float))
  /-- The output as the call left it. -/
  | output (outcome : Except BatchError Unit) (content : Array Float)
  | count (features : Nat)

def Answer.isLoaded : Answer → Bool
  | .load (.ok ()) => true
  | _ => false

def fresh (settings : Settings) : Handle := { settings }

def perform (handle : Handle) : Call → Answer × Handle
  | .load source => (handle.load source).map .load id
  | .loadForest forest => (handle.loadForest forest).map .load id
  | .score row => (.score (handle.score row), handle)
  | .scoreMany rows => (.scores (handle.scoreMany rows), handle)
  | .scoreInto rows output =>
      (.output (handle.scoreInto rows output).1 (handle.scoreInto rows output).2, handle)
  | .featureCount => (.count handle.featureCount, handle)

def run (handle : Handle) : List Call → List Answer × Handle
  | [] => ([], handle)
  | call :: calls =>
      let rest := (handle.perform call).2.run calls
      ((handle.perform call).1 :: rest.1, rest.2)

/-- The last call that loaded a model, told by the answers. -/
def lastLoad? : List Call → List Answer → Option Call
  | call :: calls, answer :: answers =>
      (lastLoad? calls answers).or (if answer.isLoaded then some call else none)
  | _, _ => none

/-- A fresh handle after nothing but the last successful load of a history. -/
def replayed (settings : Settings) (history : List Call) : Handle :=
  ((lastLoad? history ((fresh settings).run history).1).map fun load =>
    ((fresh settings).perform load).2).getD (fresh settings)

/-- What a load compiles. The handle's former model has no part in it. -/
def Call.compiled? (settings : Settings) : Call → Option (Except ModelError CompiledModel)
  | .load source => some (CompiledModel.ofSource settings source)
  | .loadForest forest => some (CompiledModel.ofForest settings forest)
  | _ => none

/-- The model that a load makes: its forest as it is packed under the settings, with the
transform of the forest. -/
inductive Call.Makes (settings : Settings) : Call → CompiledModel → Prop
  | forest {forest : Forest} {encoded : EncodedForest}
      (packed : forest.encode settings.grouping = .ok encoded) :
      Makes settings (.loadForest forest) ⟨encoded, forest.scale, forest.bias, settings⟩
  | description {source : Description.Source} {described : Description.Model} {forest : Forest}
      {encoded : EncodedForest} (read : Description.Model.read source = .ok described)
      (converted : described.toForest = .ok forest)
      (packed : forest.encode settings.grouping = .ok encoded) :
      Makes settings (.load source) ⟨encoded, forest.scale, forest.bias, settings⟩

variable {handle other : Handle} {call : Call}

theorem compiled?_eq_ok_iff {settings : Settings} {model : CompiledModel} :
    call.compiled? settings = some (.ok model) ↔ call.Makes settings model := by
  constructor
  · intro compiled
    cases call with
    | load source =>
        rcases of_source_eq_ok_iff.mp (Option.some.inj compiled) with
          ⟨described, forest, read, converted, built⟩
        rcases of_forest_eq_ok_iff.mp built with ⟨encoded, packed, same⟩
        subst same
        exact .description read converted packed
    | loadForest forest =>
        rcases of_forest_eq_ok_iff.mp (Option.some.inj compiled) with ⟨encoded, packed, same⟩
        subst same
        exact .forest packed
    | _ => cases compiled
  · intro makes
    cases makes with
    | forest packed =>
        have built := of_forest_eq_ok_iff.mpr ⟨_, packed, rfl⟩
        exact congrArg some built
    | description read converted packed =>
        have built := of_forest_eq_ok_iff.mpr ⟨_, packed, rfl⟩
        exact congrArg some (of_source_eq_ok_iff.mpr ⟨_, _, read, converted, built⟩)

theorem perform_load {outcome : Except ModelError CompiledModel}
    (compiled : call.compiled? handle.settings = some outcome) :
    handle.perform call = (.load (handle.install outcome).1, (handle.install outcome).2) := by
  cases call with
  | load source =>
      obtain rfl := Option.some.inj compiled
      rfl
  | loadForest forest =>
      obtain rfl := Option.some.inj compiled
      rfl
  | _ => cases compiled

theorem perform_query (query : call.compiled? handle.settings = none) :
    (handle.perform call).1.isLoaded = false ∧ (handle.perform call).2 = handle := by
  cases call with
  | load source => cases query
  | loadForest forest => cases query
  | _ => exact ⟨rfl, rfl⟩

/-- A call either loads a model or leaves the handle as it was. -/
theorem perform_cases (handle : Handle) (call : Call) :
    (∃ model, call.compiled? handle.settings = some (.ok model) ∧
        handle.perform call = (.load (.ok ()), { handle with model := some model })) ∨
      (handle.perform call).1.isLoaded = false ∧ (handle.perform call).2 = handle := by
  cases compiled : call.compiled? handle.settings with
  | none => exact .inr (perform_query compiled)
  | some outcome =>
      cases outcome with
      | ok model => exact .inl ⟨model, rfl, perform_load compiled⟩
      | error error =>
          rw [perform_load compiled]
          exact .inr ⟨rfl, rfl⟩

/-- A handle with a model, which all its answers come from. -/
structure Holds (handle : Handle) (model : CompiledModel) : Prop where
  held : handle.model = some model
  score : ∀ row, handle.score row = model.score row
  scores : ∀ rows, handle.scoreMany rows = model.scoreMany rows
  output : ∀ rows output, handle.scoreInto rows output = model.scoreInto rows output
  count : handle.featureCount = model.featureCount

structure Unloaded (handle : Handle) : Prop where
  empty : handle.model = none
  score : ∀ row, handle.score row = .error .notLoaded
  scores : ∀ rows, handle.scoreMany rows = .error .notLoaded
  output : ∀ rows output, handle.scoreInto rows output = (.error (.model .notLoaded), output)
  count : handle.featureCount = 0

theorem holds_of_model {model : CompiledModel} (held : handle.model = some model) :
    Holds handle model := by
  have loaded : handle.loaded = .ok model := by
    unfold Handle.loaded
    rw [held]
  constructor
  · exact held
  · intro row
    unfold Handle.score
    rw [loaded]
    rfl
  · intro rows
    unfold Handle.scoreMany
    rw [loaded]
    rfl
  · intro rows output
    unfold Handle.scoreInto
    rw [loaded]
  · unfold Handle.featureCount
    rw [held]

theorem fresh_unloaded (settings : Settings) : Unloaded (fresh settings) :=
  ⟨rfl, fun _ => rfl, fun _ => rfl, fun _ _ => rfl, rfl⟩

theorem perform_holds (loaded : (handle.perform call).1.isLoaded = true) :
    ∃ model, call.compiled? handle.settings = some (.ok model) ∧
      call.Makes handle.settings model ∧ Holds (handle.perform call).2 model := by
  obtain ⟨model, compiled, performed⟩ | ⟨failed, -⟩ := perform_cases handle call
  · refine ⟨model, compiled, compiled?_eq_ok_iff.mp compiled, holds_of_model ?_⟩
    rw [performed]
  · rw [failed] at loaded
    cases loaded

theorem is_loaded_iff_makes :
    (handle.perform call).1.isLoaded = true ↔ ∃ model, call.Makes handle.settings model := by
  constructor
  · intro loaded
    rcases perform_holds loaded with ⟨model, -, makes, -⟩
    exact ⟨model, makes⟩
  · intro made
    rcases made with ⟨model, makes⟩
    rw [perform_load (compiled?_eq_ok_iff.mpr makes)]
    rfl

theorem perform_of_not_loaded (failed : (handle.perform call).1.isLoaded = false) :
    (handle.perform call).2 = handle := by
  obtain ⟨model, -, performed⟩ | ⟨-, same⟩ := perform_cases handle call
  · rw [performed] at failed
    cases failed
  · exact same

/-- A load that succeeds does the same to every handle of the same settings. -/
theorem perform_of_loaded (loaded : (handle.perform call).1.isLoaded = true)
    (same : other.settings = handle.settings) : other.perform call = handle.perform call := by
  obtain ⟨model, compiled, performed⟩ | ⟨failed, -⟩ := perform_cases handle call
  · rw [← same] at compiled
    rw [perform_load compiled, performed, install, same]
  · rw [failed] at loaded
    cases loaded

theorem perform_settings (handle : Handle) (call : Call) :
    (handle.perform call).2.settings = handle.settings := by
  obtain ⟨model, -, performed⟩ | ⟨-, same⟩ := perform_cases handle call
  · rw [performed]
  · rw [same]

theorem run_settings (handle : Handle) (history : List Call) :
    (handle.run history).2.settings = handle.settings := by
  induction history generalizing handle with
  | nil => rfl
  | cons call calls induction =>
      rw [run, induction, perform_settings]

theorem run_answers_length (handle : Handle) (history : List Call) :
    (handle.run history).1.length = history.length := by
  induction history generalizing handle with
  | nil => rfl
  | cons call calls induction => rw [run, List.length_cons, induction, List.length_cons]

theorem run_append (handle : Handle) (earlier later : List Call) :
    handle.run (earlier ++ later) =
      ((handle.run earlier).1 ++ ((handle.run earlier).2.run later).1,
        ((handle.run earlier).2.run later).2) := by
  induction earlier generalizing handle with
  | nil => rfl
  | cons call calls induction => rw [List.cons_append, run, induction, run, List.cons_append]

/-- The handle after a history is what the last successful load makes of any handle
with the same settings. -/
theorem run_eq_last_load (same : other.settings = handle.settings) (history : List Call) :
    (handle.run history).2 =
      ((lastLoad? history (handle.run history).1).map fun load =>
        (other.perform load).2).getD handle := by
  induction history generalizing handle with
  | nil => rfl
  | cons call calls induction =>
      have later := induction (same.trans (perform_settings handle call).symm)
      rw [run, later, lastLoad?]
      cases lastLoad? calls ((handle.perform call).2.run calls).1 with
      | some load => rfl
      | none =>
          cases loaded : (handle.perform call).1.isLoaded with
          | false => exact perform_of_not_loaded loaded
          | true => exact congrArg Prod.snd (perform_of_loaded loaded same).symm

theorem last_load?_is_loaded {history : List Call} {load : Call}
    (found : lastLoad? history (handle.run history).1 = some load)
    (same : other.settings = handle.settings) : (other.perform load).1.isLoaded = true := by
  induction history generalizing handle with
  | nil => cases found
  | cons call calls induction =>
      rw [run, lastLoad?] at found
      cases later : lastLoad? calls ((handle.perform call).2.run calls).1 with
      | some last =>
          rw [later, Option.some_or] at found
          rw [found] at later
          exact induction later (same.trans (perform_settings handle call).symm)
      | none =>
          rw [later, Option.none_or] at found
          split at found
          case isTrue loaded =>
            obtain rfl := Option.some.inj found
            rw [perform_of_loaded loaded same]
            exact loaded
          case isFalse => cases found

/-- An answer in a run is the answer of the handle that the calls before it left. -/
theorem run_answer {history : List Call} {place : Nat} (found : history[place]? = some call) :
    (handle.run history).1[place]? =
      some ((handle.run (history.take place)).2.perform call).1 := by
  obtain ⟨inside, rfl⟩ := List.getElem?_eq_some_iff.mp found
  have answers : (handle.run (history.take place)).1.length = place := by
    rw [run_answers_length, List.length_take, Nat.min_eq_left (Nat.le_of_lt inside)]
  have cut : history = history.take place ++ history[place] :: history.drop (place + 1) := by
    rw [← List.drop_eq_getElem_cons inside, List.take_append_drop]
  calc (handle.run history).1[place]?
      = (handle.run (history.take place ++
          history[place] :: history.drop (place + 1))).1[place]? := by
        rw [← cut]
    _ = some ((handle.run (history.take place)).2.perform history[place]).1 := by
        rw [run_append, List.getElem?_append_right (Nat.le_of_eq answers), answers, Nat.sub_self]
        rfl

theorem Answer.is_loaded_iff {answer : Answer} :
    answer.isLoaded = true ↔ answer = .load (.ok ()) := by
  constructor
  · intro loaded
    cases answer with
    | load outcome =>
        cases outcome with
        | ok => rfl
        | error error => cases loaded
    | _ => cases loaded
  · rintro rfl
    rfl

/-- A handle is its last load: the model of the last load that succeeded, under the
settings it started with, or no model before the first. A call that loads no model
changes nothing, and each answer is the one of a fresh handle after nothing but the
last successful load before it. -/
structure IsLastLoad (settings : Settings) (history : List Call) (answers : List Answer)
    (handle : Handle) : Prop where
  settings_kept : handle.settings = settings
  accepts : ∀ call, (handle.perform call).1.isLoaded = true ↔ ∃ model, call.Makes settings model
  unchanged : ∀ call, (handle.perform call).1.isLoaded = false → (handle.perform call).2 = handle
  loaded : ∀ load, lastLoad? history answers = some load →
    ((fresh settings).perform load).1 = .load (.ok ()) ∧
      handle = ((fresh settings).perform load).2 ∧
      ∃ model, load.compiled? settings = some (.ok model) ∧ load.Makes settings model ∧
        Holds handle model
  unloaded : lastLoad? history answers = none → handle = fresh settings ∧ Unloaded handle
  answered : ∀ (place : Nat) (call : Call), history[place]? = some call →
    answers[place]? = some ((replayed settings (history.take place)).perform call).1

/-- Whatever has been done with a handle, it is its last successful load. -/
theorem handle_is_last_load (settings : Settings) (history : List Call) :
    let answers := ((fresh settings).run history).1
    let handle := ((fresh settings).run history).2
    IsLastLoad settings history answers handle := by
  intro answers handle
  have last : handle = replayed settings history := run_eq_last_load rfl history
  have kept : handle.settings = settings := run_settings _ _
  constructor
  · exact kept
  · intro call
    rw [← kept]
    exact is_loaded_iff_makes
  · intro call failed
    exact perform_of_not_loaded failed
  · intro load found
    have loaded : ((fresh settings).perform load).1.isLoaded = true :=
      last_load?_is_loaded found rfl
    have same : handle = ((fresh settings).perform load).2 := by
      rw [last, replayed, found]
      rfl
    refine ⟨Answer.is_loaded_iff.mp loaded, same, ?_⟩
    rw [same]
    exact @perform_holds (fresh settings) load loaded
  · intro never
    have same : handle = fresh settings := by
      rw [last, replayed, never]
      rfl
    rw [same]
    exact ⟨rfl, fresh_unloaded settings⟩
  · intro place call found
    have before : replayed settings (history.take place) =
        ((fresh settings).run (history.take place)).2 :=
      (run_eq_last_load rfl (history.take place)).symm
    rw [before]
    exact run_answer found

/-- A score too early, a text that is no description, a load, and a source that fails. -/
theorem handle_is_last_load_between_failures :
    let load : Call := .loadForest (.empty 2)
    let history : List Call :=
      [.score #[], .load ⟨[0x78], .complete⟩, load, .load ⟨[0x7B], .failing "lost"⟩]
    let handle := ((fresh {}).run history).2
    lastLoad? history ((fresh {}).run history).1 = some load ∧
      ((fresh {}).perform load).1 = .load (.ok ()) ∧ handle = ((fresh {}).perform load).2 ∧
      ∃ model, CompiledModel.ofForest {} (.empty 2) = .ok model ∧ Holds handle model := by
  intro load history handle
  have few : ∀ depth, ((Forest.empty 2).trees.toList.countP fun tree => tree.depth == depth) < 4 :=
    fun depth => Nat.succ_pos 3
  obtain ⟨model, compiled⟩ := (@of_forest_is_ok_iff {} (.empty 2)).mpr
    (Grouping.encode_is_ok (Grouping.counted_of_few (few 30) (few 31)))
  have performed : (fresh {}).perform load = (.load (.ok ()), ⟨{}, some model⟩) :=
    @perform_load (fresh {}) load (.ok model) (congrArg some compiled)
  have early : ((fresh {}).perform (.score #[])).2 = fresh {} := rfl
  have malformed : (fresh {}).perform (.load ⟨[0x78], .complete⟩) =
      (.load (.error (.parse .malformed)), fresh {}) := rfl
  have lost : ∀ handle : Handle, (handle.perform (.load ⟨[0x7B], .failing "lost"⟩)).1 =
      .load (.error (.unreadable "lost")) := fun _ => rfl
  have found : lastLoad? history ((fresh {}).run history).1 = some load := by
    simp only [history, run, early, malformed, performed, lost]
    rfl
  obtain ⟨done, same, model, compiled, -, holds⟩ :=
    (handle_is_last_load {} history).loaded load found
  exact ⟨found, done, same, model, Option.some.inj compiled, holds⟩

end SymmetricTrees.Handle
