import SymmetricTrees.Session
import SymmetricTrees.Proofs.ModelScores

/-!
Calls of a session. Callers hold handles under numbers, and any argument of a call
may be absent. A call that fails answers with its fallback and leaves its message;
a call that succeeds keeps the last error. Rows that are scored together get the
scores that they get one at a time.
-/

set_option autoImplicit false

namespace SymmetricTrees.Session

/-- The handles that were given out, under numbers that are not given twice. A
handle that was given back is missing. -/
structure Store where
  handles : List (Option Handle) := []
  lastError : LastError := .blank

inductive Call where
  | load (name : String) (source : Option Description.Source)
      (wording : Description.Fault → String)
  | score (handle : Option Nat) (row : Option Row) (count : Nat)
  | scoreMany (handle : Option Nat) (size : Nat) (rows : Option RowList)
      (output : Option (Array Float))
  | featureCount (handle : Option Nat)
  | free (handle : Option Nat)
  | lastError
  | clear

inductive Answer where
  | handle (number : Option Nat)
  | score (value : Float)
  /-- The status, and the output as the call left it. -/
  | status (status : Int) (output : Option (Array Float))
  | count (features : Nat)
  | text (text : String)
  | nothing

namespace Store

def find (store : Store) (handle : Option Nat) : Option Handle :=
  handle.bind fun number => store.handles[number]?.join

def perform (store : Store) : Call → Answer × Store
  | .load name source wording =>
      match (loadWith wording name source).run store.lastError with
      | (none, lastError) => (.handle none, { store with lastError })
      | (some handle, lastError) =>
          (.handle (some store.handles.length),
            { handles := store.handles ++ [some handle], lastError })
  | .score handle row count =>
      let answer := (Session.score (store.find handle)
        (row.map fun row => row.extract 0 count)).run store.lastError
      (.score answer.1, { store with lastError := answer.2 })
  | .scoreMany handle size rows output =>
      let answer := (Session.scoreMany (store.find handle) size rows output).run store.lastError
      (.status answer.1.1 answer.1.2, { store with lastError := answer.2 })
  | .featureCount handle => (.count (Session.featureCount (store.find handle)), store)
  | .free none => (.nothing, store)
  | .free (some number) => (.nothing, { store with handles := store.handles.set number none })
  | .lastError =>
      let answer := Session.lastError.run store.lastError
      (.text answer.1, { store with lastError := answer.2 })
  | .clear => (.nothing, { store with lastError := (Session.clear.run store.lastError).2 })

/-- A handle that may be absent, but was not given back. -/
def Live (store : Store) (handle : Option Nat) : Prop :=
  ∀ number, handle = some number → ∃ live, store.handles[number]? = some (some live)

/-- What callers have to see to: handles are live, and whatever is not absent is as
long as they say. Of a batch without rows nothing is asked. -/
def Allows (store : Store) : Call → Prop
  | .load .. => True
  | .score handle row count => store.Live handle ∧ ∀ values, row = some values → count ≤ values.size
  | .scoreMany handle size rows output => store.Live handle ∧
      (size ≠ 0 → (∀ given, rows = some given → size ≤ given.rows.length ∧
        ∀ values, some values ∈ given.rows.take size → given.count ≤ values.size) ∧
        ∀ buffer, output = some buffer → size ≤ buffer.size)
  | .featureCount handle => store.Live handle
  | .free handle => store.Live handle
  | .lastError => True
  | .clear => True

/-- The calls that fail, and why. An absent argument is told before anything is read. -/
inductive Fails (store : Store) : Call → ModelError → Prop
  | source {name : String} {wording : Description.Fault → String} :
      Fails store (.load name none wording) (.invalid (.missingArgument name))
  | description {name : String} {source : Description.Source}
      {wording : Description.Fault → String} {error : ModelError}
      (refused : CompiledModel.ofSource {} source = .error error) :
      Fails store (.load name (some source) wording) error
  | model {row : Option Row} {count : Nat} :
      Fails store (.score none row count) (.invalid (.missingArgument "model"))
  | features {number count : Nat} :
      Fails store (.score (some number) none count) (.invalid (.missingArgument "features"))
  | short {number count : Nat} {row : Row} {handle : Handle}
      (live : store.handles[number]? = some (some handle)) (few : count < handle.featureCount) :
      Fails store (.score (some number) (some row) count)
        (.insufficientFeatures handle.featureCount count)
  | batchModel {size : Nat} {rows : Option RowList} {output : Option (Array Float)} :
      Fails store (.scoreMany none size rows output) (.invalid (.missingArgument "model"))
  | batchFeatures {number size : Nat} {output : Option (Array Float)} (sized : size ≠ 0) :
      Fails store (.scoreMany (some number) size none output)
        (.invalid (.missingArgument "features"))
  | batchOutput {number size : Nat} {rows : RowList} (sized : size ≠ 0) :
      Fails store (.scoreMany (some number) size (some rows) none)
        (.invalid (.missingArgument "out"))
  | batchRow {number size : Nat} {rows : RowList} {output : Array Float} (sized : size ≠ 0)
      (absent : none ∈ rows.rows.take size) :
      Fails store (.scoreMany (some number) size (some rows) (some output))
        (.invalid (.missingArgument "feature row"))
  | batchShort {number size : Nat} {rows : RowList} {output : Array Float} {handle : Handle}
      (sized : size ≠ 0) (present : none ∉ rows.rows.take size)
      (live : store.handles[number]? = some (some handle))
      (few : rows.count < handle.featureCount) :
      Fails store (.scoreMany (some number) size (some rows) (some output))
        (.insufficientFeatures handle.featureCount rows.count)

def Lacks (store : Store) (handle : Option Nat) (size : Nat) (rows : Option RowList)
    (output : Option (Array Float)) : Prop :=
  handle = none ∨ rows = none ∨ output = none ∨ ∃ given, rows = some given ∧
    (none ∈ given.rows.take size ∨ given.count < Session.featureCount (store.find handle))

end Store

/-- The message of an error, in the words of the reader for a text that was loaded. -/
def Call.describe : Call → ModelError → String
  | .load _ _ wording => ModelError.messageWith wording
  | _ => ModelError.message

def Call.fallback : Call → Answer
  | .load .. => .handle none
  | .score .. => .score Scoring.unknownScore
  | .scoreMany _ _ _ output => .status (-1) output
  | _ => .nothing

section Messages

variable {Value : Type} {describe : ModelError → String} {fallback : Value} {error : ModelError}

theorem to_list_readable (message : String) :
    (readable message).toList =
      message.toList.map fun character => if character = '\x00' then ' ' else character :=
  String.toList_map

theorem unbroken_readable (message : String) : '\x00' ∉ (readable message).toList := by
  rw [to_list_readable]
  intro held
  obtain ⟨character, -, same⟩ := List.mem_map.mp held
  split at same
  case isTrue => exact absurd same (by decide)
  case isFalse other => exact other same

def noted (message : String) : LastError := ⟨readable message, unbroken_readable message⟩

/-- No message is lost for what is in it. -/
theorem run_note (message : String) (former : LastError) :
    (note message).run former = ((), noted message) := by
  have kept : LastError.ofText? (readable message) = some (noted message) :=
    dif_pos (unbroken_readable message)
  unfold note
  rw [kept]
  rfl

theorem run_guarded_error (former : LastError) :
    (guarded describe fallback (.error (.model error))).run former =
      (fallback, noted (describe error)) := by
  have kept := run_note (describe error) former
  unfold guarded
  rw [StateT.run_bind, kept]
  rfl

theorem append_ne_empty {front : String} (spoken : front ≠ "") (behind : String) :
    front ++ behind ≠ "" :=
  fun none => spoken (String.append_eq_empty_iff.mp none).1

theorem message_with_ne_empty (wording : Description.Fault → String) (error : ModelError) :
    error.messageWith wording ≠ "" := by
  have texts : "failed to parse model description: " ≠ "" ∧ "invalid model: " ≠ "" ∧
      "model is not loaded" ≠ "" ∧ "not enough features: expected at least " ≠ "" ∧
      "failed to read model description: " ≠ "" := by simp
  obtain ⟨parse, invalid, notLoaded, features, unreadable⟩ := texts
  cases error with
  | parse fault => exact append_ne_empty parse _
  | invalid cause => exact append_ne_empty invalid _
  | notLoaded => exact notLoaded
  | insufficientFeatures expected got =>
      exact append_ne_empty (append_ne_empty (append_ne_empty features _) _) _
  | unreadable reason => exact append_ne_empty unreadable _

theorem Call.describe_ne_empty (call : Call) (error : ModelError) : call.describe error ≠ "" := by
  cases call <;> exact message_with_ne_empty _ error

end Messages

section Batches

variable {handle : Handle} {model : CompiledModel} {size : Nat} {given : RowList}
  {buffer : Array Float}

theorem map_m_argument_absent {Value : Type} {name : String} {values : List (Option Value)}
    (absent : none ∈ values) :
    values.mapM (argument name) = .error (.model (.invalid (.missingArgument name))) := by
  induction values with
  | nil => cases absent
  | cons first rest induction =>
      rw [List.mapM_cons]
      cases first with
      | none => rfl
      | some value =>
          cases List.mem_cons.mp absent with
          | inl same => cases same
          | inr later =>
              rw [induction later]
              rfl

theorem map_m_argument_present {Value : Type} {name : String} {values : List (Option Value)}
    (present : none ∉ values) :
    ∃ items, values = items.map some ∧ values.mapM (argument name) = .ok items := by
  induction values with
  | nil => exact ⟨[], rfl, rfl⟩
  | cons first rest induction =>
      cases first with
      | none => exact absurd List.mem_cons_self present
      | some value =>
          obtain ⟨items, same, taken⟩ :=
            induction fun later => present (List.mem_cons_of_mem _ later)
          refine ⟨value :: items, ?_, ?_⟩
          · rw [same, List.map_cons]
          · rw [List.mapM_cons, taken]
            rfl

theorem batch?_empty (loaded : handle.model = some model) (rows : Option RowList)
    (output : Option (Array Float)) : batch? (some handle) 0 rows output = .ok none := by
  have scored : handle.scoreMany [] = .ok [] := by
    unfold Handle.scoreMany Handle.loaded
    rw [loaded]
    exact CompiledModel.score_many_eq_ok (List.forall_mem_nil _)
  unfold batch? argument
  simp only [bind, Except.bind, if_true]
  rw [scored]
  rfl

theorem batch?_sized (sized : size ≠ 0) :
    batch? (some handle) size (some given) (some buffer) =
      ((given.rows.take size).mapM (argument "feature row")).map fun rows : List Row =>
        some ⟨handle, rows.map fun row => row.extract 0 given.count, buffer⟩ := by
  unfold batch?
  simp only [argument, bind, Except.bind, if_neg sized]
  cases (given.rows.take size).mapM (argument "feature row") with
  | error error => rfl
  | ok rows => rfl

theorem batch?_present (sized : size ≠ 0) (present : none ∉ given.rows.take size) :
    ∃ rows : List Row, given.rows.take size = rows.map some ∧
      batch? (some handle) size (some given) (some buffer) =
        .ok (some ⟨handle, rows.map fun row => row.extract 0 given.count, buffer⟩) := by
  obtain ⟨rows, same, taken⟩ := @map_m_argument_present Row "feature row" _ present
  refine ⟨rows, same, ?_⟩
  rw [batch?_sized sized, taken]
  rfl

theorem score_into_of_loaded (loaded : handle.model = some model) (rows : List Row)
    (output : Array Float) : handle.scoreInto rows output = model.scoreInto rows output := by
  unfold Handle.scoreInto Handle.loaded
  rw [loaded]

theorem fill_eq_ok (loaded : handle.model = some model) {rows : List Row}
    (long : ∀ row ∈ rows, model.featureCount ≤ row.size) (full : rows.length = size)
    (room : size ≤ buffer.size) :
    Batch.fill ⟨handle, rows, buffer⟩ size =
      (.ok (), (rows.map model.transformedScore).toArray ++ buffer.extract size) := by
  have front : (buffer.extract 0 size).size = rows.length := by
    rw [Array.size_extract]
    omega
  unfold Batch.fill
  rw [score_into_of_loaded loaded, CompiledModel.score_into_eq_ok long front]

theorem fill_eq_error (loaded : handle.model = some model) {row : Row} {others : List Row}
    (short : row.size < model.featureCount) (full : (row :: others).length = size)
    (room : size ≤ buffer.size) :
    Batch.fill ⟨handle, row :: others, buffer⟩ size =
      (.error (.model (.insufficientFeatures model.featureCount row.size)), buffer) := by
  have front : (buffer.extract 0 size).size = ([] ++ row :: others).length := by
    rw [Array.size_extract, List.nil_append, full]
    omega
  have refused := CompiledModel.score_into_eq_error (List.forall_mem_nil _) short front
  rw [List.nil_append] at refused
  have whole : buffer.extract 0 size ++ buffer.extract size = buffer := by
    rw [Array.extract_append_extract, Nat.zero_min, Nat.max_eq_right room, Array.extract_size]
  unfold Batch.fill
  rw [score_into_of_loaded loaded, refused]
  exact Prod.ext rfl whole

/-- Rows that are all there make a batch of the announced size, cut to one length. -/
theorem batch_of_present (sized : size ≠ 0) (present : none ∉ given.rows.take size)
    (rows : size ≤ given.rows.length)
    (values : ∀ row, some row ∈ given.rows.take size → given.count ≤ row.size) :
    ∃ cut : List Row, cut.length = size ∧ (∀ row ∈ cut, row.size = given.count) ∧
      (∀ index < size, ∃ row, given.rows[index]? = some (some row) ∧
        cut[index]? = some (row.extract 0 given.count)) ∧
      batch? (some handle) size (some given) (some buffer) = .ok (some ⟨handle, cut, buffer⟩) := by
  obtain ⟨whole, same, taken⟩ := @batch?_present handle size given buffer sized present
  have count : whole.length = size := by
    have lengths := congrArg List.length same
    rw [List.length_take, List.length_map] at lengths
    omega
  refine ⟨whole.map fun row => row.extract 0 given.count, ?_, ?_, ?_, taken⟩
  · rw [List.length_map, count]
  · rw [List.forall_mem_map]
    intro row held
    have enough := values row (same ▸ List.mem_map_of_mem held)
    rw [Array.size_extract]
    omega
  · intro index inside
    have found : (given.rows.take size)[index]? = given.rows[index]? :=
      List.getElem?_take_of_lt inside
    rw [same, List.getElem?_map] at found
    have bound : index < whole.length := by
      rw [count]
      exact inside
    refine ⟨whole[index], ?_, ?_⟩
    · rw [← found, List.getElem?_eq_getElem bound]
      rfl
    · rw [List.getElem?_map, List.getElem?_eq_getElem bound]
      rfl

end Batches

section Runs

variable {handle : Handle} {model : CompiledModel} {row : Row} {source : Description.Source}
  {name : String} {wording : Description.Fault → String} {former : LastError}

theorem run_load_with_absent :
    (loadWith wording name none).run former =
      (none, noted (ModelError.messageWith wording (.invalid (.missingArgument name)))) :=
  run_guarded_error former

theorem run_load_with_refused {error : ModelError}
    (refused : CompiledModel.ofSource {} source = .error error) :
    (loadWith wording name (some source)).run former =
      (none, noted (error.messageWith wording)) := by
  have outcome : ({} : Handle).load source = (.error error, {}) := by
    unfold Handle.load Handle.install
    rw [refused]
  unfold loadWith
  simp only [argument, bind, Except.bind, outcome]
  exact run_guarded_error former

theorem run_load_with_accepted (accepted : CompiledModel.ofSource {} source = .ok model) :
    (loadWith wording name (some source)).run former = (some ⟨{}, some model⟩, former) := by
  have outcome : ({} : Handle).load source = (.ok (), ⟨{}, some model⟩) := by
    unfold Handle.load Handle.install
    rw [accepted]
  unfold loadWith
  simp only [argument, bind, Except.bind, outcome]
  rfl

theorem run_score_few (loaded : handle.model = some model)
    (few : row.size < model.featureCount) :
    (score (some handle) (some row)).run former = (Scoring.unknownScore,
      noted (ModelError.message (.insufficientFeatures model.featureCount row.size))) := by
  have refused : handle.score row =
      .error (.insufficientFeatures model.featureCount row.size) := by
    unfold Handle.score Handle.loaded
    rw [loaded]
    exact CompiledModel.score_eq_error few
  unfold score
  simp only [argument, bind, Except.bind, refused]
  exact run_guarded_error former

theorem run_score_enough (loaded : handle.model = some model)
    (enough : model.featureCount ≤ row.size) :
    (score (some handle) (some row)).run former = (model.transformedScore row, former) := by
  have scored : handle.score row = .ok (model.transformedScore row) := by
    unfold Handle.score Handle.loaded
    rw [loaded]
    exact CompiledModel.score_eq_ok enough
  unfold score
  simp only [argument, bind, Except.bind, scored]
  rfl

variable {rows : Option RowList} {size : Nat} {output left : Option (Array Float)}
  {optional : Option Handle}

theorem run_score_many_ok (done : scoreRows optional size rows output = (.ok (), left)) :
    (scoreMany optional size rows output).run former = ((0, left), former) := by
  unfold scoreMany
  rw [done]
  rfl

theorem run_score_many_error {error : ModelError}
    (failed : scoreRows optional size rows output = (.error (.model error), left)) :
    (scoreMany optional size rows output).run former = ((-1, left), noted error.message) := by
  have answered := @run_guarded_error Int ModelError.message (-1) error former
  unfold scoreMany
  rw [failed]
  simp only [Except.map, StateT.run_bind, answered]
  rfl

/-- A batch that is refused for its arguments leaves the output alone. -/
theorem run_score_many_refused {error : ModelError}
    (refused : batch? optional size rows output = .error (.model error)) :
    (scoreMany optional size rows output).run former = ((-1, output), noted error.message) := by
  apply run_score_many_error
  unfold scoreRows
  rw [refused]

end Runs

namespace Store

variable {store : Store} {call : Call} {error : ModelError}

def Loaded (store : Store) : Prop :=
  ∀ (number : Nat) (handle : Handle), store.handles[number]? = some (some handle) →
    ∃ model, handle.model = some model

theorem find_of_live {number : Nat} {handle : Handle}
    (live : store.handles[number]? = some (some handle)) :
    store.find (some number) = some handle := by
  unfold find
  rw [Option.bind_some, live]
  rfl

theorem score_rows_of_live {handle : Handle} {model : CompiledModel} {size : Nat} {given : RowList}
    {buffer : Array Float} (loaded : handle.model = some model) (sized : size ≠ 0)
    (present : none ∉ given.rows.take size) (rows : size ≤ given.rows.length)
    (values : ∀ row, some row ∈ given.rows.take size → given.count ≤ row.size)
    (room : size ≤ buffer.size) :
    (given.count < model.featureCount →
      scoreRows (some handle) size (some given) (some buffer) =
        (.error (.model (.insufficientFeatures model.featureCount given.count)), some buffer)) ∧
    (model.featureCount ≤ given.count → ∃ filled,
      scoreRows (some handle) size (some given) (some buffer) = (.ok (), some filled) ∧
        filled.size = buffer.size ∧
        (∀ index < size, ∃ row, given.rows[index]? = some (some row) ∧
          filled[index]? = some (model.transformedScore (row.extract 0 given.count))) ∧
        ∀ index, size ≤ index → filled[index]? = buffer[index]?) := by
  obtain ⟨cut, full, lengths, places, taken⟩ :=
    @batch_of_present handle size given buffer sized present rows values
  constructor
  · intro few
    cases cut with
    | nil => exact absurd full.symm sized
    | cons row others =>
        obtain ⟨first, -⟩ := List.forall_mem_cons.mp lengths
        rw [← first] at few ⊢
        unfold scoreRows
        rw [taken]
        exact congrArg (Prod.map id some) (fill_eq_error loaded few full room)
  · intro enough
    have long : ∀ row ∈ cut, model.featureCount ≤ row.size := by
      intro row held
      rw [lengths row held]
      exact enough
    have front : (cut.map model.transformedScore).toArray.size = size := by
      rw [List.size_toArray, List.length_map, full]
    refine ⟨(cut.map model.transformedScore).toArray ++ buffer.extract size, ?_, ?_, ?_, ?_⟩
    · unfold scoreRows
      rw [taken]
      exact congrArg (Prod.map id some) (fill_eq_ok loaded long full room)
    · rw [Array.size_append, front, Array.size_extract]
      omega
    · intro index inside
      obtain ⟨row, held, same⟩ := places index inside
      refine ⟨row, held, ?_⟩
      rw [Array.getElem?_append, front, if_pos inside, List.getElem?_toArray, List.getElem?_map,
        same]
      rfl
    · intro index outside
      rw [Array.getElem?_append, front, if_neg (Nat.not_lt.mpr outside), Array.getElem?_extract]
      split
      case isTrue => rw [Nat.add_sub_cancel' outside]
      case isFalse beyond => rw [Array.getElem?_eq_none (by omega)]

section Perform

variable {name : String} {source : Option Description.Source}
  {wording : Description.Fault → String} {number : Option Nat} {row : Option Row}
  {count size : Nat} {rows : Option RowList} {output left : Option (Array Float)}
  {last : LastError}

theorem perform_load_none
    (answered : (loadWith wording name source).run store.lastError = (none, last)) :
    store.perform (.load name source wording) =
      (.handle none, { store with lastError := last }) := by
  simp only [perform, answered]

theorem perform_load_some {handle : Handle}
    (answered : (loadWith wording name source).run store.lastError = (some handle, last)) :
    store.perform (.load name source wording) = (.handle (some store.handles.length),
      { handles := store.handles ++ [some handle], lastError := last }) := by
  simp only [perform, answered]

theorem perform_score {value : Float}
    (answered : (Session.score (store.find number)
      (row.map fun row => row.extract 0 count)).run store.lastError = (value, last)) :
    store.perform (.score number row count) =
      (.score value, { store with lastError := last }) := by
  simp only [perform, answered]

theorem perform_score_many {status : Int}
    (answered : (Session.scoreMany (store.find number) size rows output).run store.lastError =
      ((status, left), last)) :
    store.perform (.scoreMany number size rows output) =
      (.status status left, { store with lastError := last }) := by
  simp only [perform, answered]

end Perform

theorem size_extract_of_le {row : Row} {count : Nat} (enough : count ≤ row.size) :
    (row.extract 0 count).size = count := by
  rw [Array.size_extract]
  omega

theorem feature_count_of_loaded {handle : Handle} {model : CompiledModel}
    (loaded : handle.model = some model) : handle.featureCount = model.featureCount := by
  unfold Handle.featureCount
  rw [loaded]

/-- A call that fails answers with its fallback, and its message is kept. -/
theorem perform_of_fails (loaded : store.Loaded) (allowed : store.Allows call)
    (fails : store.Fails call error) :
    store.perform call =
      (call.fallback, { store with lastError := noted (call.describe error) }) := by
  -- One case for each way to fail; those that read the handle need it live.
  cases fails with
  | source => exact perform_load_none run_load_with_absent
  | description refused => exact perform_load_none (run_load_with_refused refused)
  | model => exact perform_score (run_guarded_error store.lastError)
  | @features number count =>
      obtain ⟨handle, live⟩ := allowed.1 number rfl
      apply perform_score
      rw [find_of_live live]
      exact run_guarded_error store.lastError
  | @short number count row handle live few =>
      obtain ⟨model, held⟩ := loaded number handle live
      have cut := size_extract_of_le (allowed.2 row rfl)
      rw [feature_count_of_loaded held] at few ⊢
      have answered := @run_score_few handle model (row.extract 0 count) store.lastError held
      rw [cut] at answered
      apply perform_score
      rw [find_of_live live]
      exact answered few
  | batchModel => exact perform_score_many (run_score_many_refused rfl)
  | @batchFeatures number size output sized =>
      obtain ⟨handle, live⟩ := allowed.1 number rfl
      apply perform_score_many
      rw [find_of_live live]
      apply run_score_many_refused
      exact if_neg sized
  | @batchOutput number size rows sized =>
      obtain ⟨handle, live⟩ := allowed.1 number rfl
      apply perform_score_many
      rw [find_of_live live]
      apply run_score_many_refused
      exact if_neg sized
  | @batchRow number size rows output sized absent =>
      obtain ⟨handle, live⟩ := allowed.1 number rfl
      apply perform_score_many
      rw [find_of_live live]
      apply run_score_many_refused
      rw [batch?_sized sized, map_m_argument_absent absent]
      rfl
  | @batchShort number size rows output handle sized present live few =>
      obtain ⟨model, held⟩ := loaded number handle live
      obtain ⟨lengths, room⟩ := allowed.2 sized
      obtain ⟨full, values⟩ := lengths rows rfl
      rw [feature_count_of_loaded held] at few ⊢
      apply perform_score_many
      rw [find_of_live live]
      apply run_score_many_error
      exact (score_rows_of_live held sized present full values (room output rfl)).1 few

theorem perform_empty_batch (loaded : store.Loaded) {number : Nat} {handle : Handle}
    (live : store.handles[number]? = some (some handle)) (rows : Option RowList)
    (output : Option (Array Float)) :
    store.perform (.scoreMany (some number) 0 rows output) = (.status 0 output, store) := by
  obtain ⟨model, held⟩ := loaded number handle live
  apply perform_score_many
  rw [find_of_live live]
  apply run_score_many_ok
  unfold scoreRows
  rw [batch?_empty held]

theorem perform_score_enough (loaded : store.Loaded) {number count : Nat} {handle : Handle}
    {row : Row} (live : store.handles[number]? = some (some handle)) (long : count ≤ row.size)
    (enough : handle.featureCount ≤ count) :
    ∃ model, handle.model = some model ∧ store.perform (.score (some number) (some row) count) =
      (.score (model.transformedScore (row.extract 0 count)), store) := by
  obtain ⟨model, held⟩ := loaded number handle live
  rw [feature_count_of_loaded held, ← size_extract_of_le long] at enough
  refine ⟨model, held, ?_⟩
  apply perform_score
  rw [find_of_live live]
  exact run_score_enough held enough

/-- Rows that are scored together get the scores that they get one at a time. -/
theorem perform_batch (loaded : store.Loaded) {number size : Nat} {given : RowList}
    {buffer : Array Float} {handle : Handle}
    (allowed : store.Allows (.scoreMany (some number) size (some given) (some buffer)))
    (sized : size ≠ 0) (live : store.handles[number]? = some (some handle))
    (present : none ∉ given.rows.take size) (enough : handle.featureCount ≤ given.count) :
    ∃ filled,
      store.perform (.scoreMany (some number) size (some given) (some buffer)) =
        (.status 0 (some filled), store) ∧ filled.size = buffer.size ∧
      (∀ index < size, ∃ row score, given.rows[index]? = some (some row) ∧
        store.perform (.score (some number) (some row) given.count) = (.score score, store) ∧
        filled[index]? = some score) ∧
      ∀ index, size ≤ index → filled[index]? = buffer[index]? := by
  obtain ⟨model, held⟩ := loaded number handle live
  obtain ⟨lengths, room⟩ := allowed.2 sized
  obtain ⟨full, values⟩ := lengths given rfl
  have counted := feature_count_of_loaded held
  obtain ⟨filled, done, same, places, rest⟩ := (score_rows_of_live held sized present full values
    (room buffer rfl)).2 (counted ▸ enough)
  refine ⟨filled, ?_, same, ?_, rest⟩
  · apply perform_score_many
    rw [find_of_live live]
    exact run_score_many_ok done
  · intro index inside
    obtain ⟨row, found, scored⟩ := places index inside
    have taken : some row ∈ given.rows.take size := by
      apply List.mem_of_getElem?
      rw [List.getElem?_take_of_lt inside]
      exact found
    obtain ⟨other, again, alone⟩ := perform_score_enough loaded live (values row taken) enough
    rw [held] at again
    cases again
    exact ⟨row, _, found, alone, scored⟩

theorem batch_cases {number : Option Nat} {size : Nat} {rows : Option RowList}
    {output : Option (Array Float)} (live : store.Live number) (sized : size ≠ 0) :
    (store.Lacks number size rows output ∧
        ∃ error, store.Fails (.scoreMany number size rows output) error) ∨
      ¬store.Lacks number size rows output ∧
        ∃ place handle given buffer, number = some place ∧ rows = some given ∧
          output = some buffer ∧ store.handles[place]? = some (some handle) ∧
          none ∉ given.rows.take size ∧ handle.featureCount ≤ given.count := by
  cases number with
  | none => exact .inl ⟨.inl rfl, _, .batchModel⟩
  | some place =>
      obtain ⟨handle, held⟩ := live place rfl
      cases rows with
      | none => exact .inl ⟨.inr (.inl rfl), _, .batchFeatures sized⟩
      | some given =>
          cases output with
          | none => exact .inl ⟨.inr (.inr (.inl rfl)), _, .batchOutput sized⟩
          | some buffer =>
              by_cases absent : none ∈ given.rows.take size
              · exact .inl ⟨.inr (.inr (.inr ⟨given, rfl, .inl absent⟩)), _,
                  .batchRow sized absent⟩
              · by_cases few : given.count < handle.featureCount
                · refine .inl ⟨.inr (.inr (.inr ⟨given, rfl, .inr ?_⟩)), _,
                    .batchShort sized absent held few⟩
                  rw [find_of_live held]
                  exact few
                · refine .inr ⟨?_, place, handle, given, buffer, rfl, rfl, rfl, held, absent,
                    Nat.not_lt.mp few⟩
                  intro lacks
                  have counted : Session.featureCount (store.find (some place)) =
                      handle.featureCount := by
                    rw [find_of_live held]
                    rfl
                  simp only [Lacks, reduceCtorEq, false_or, Option.some.injEq, exists_eq_left',
                    counted] at lacks
                  exact lacks.elim absent few

/-- A call that neither fails nor clears the last error leaves it alone. -/
theorem perform_keeps (loaded : store.Loaded) (allowed : store.Allows call)
    (succeeds : ∀ error, ¬store.Fails call error) (other : call ≠ .clear) :
    (store.perform call).2.lastError = store.lastError := by
  cases call with
  | load name source wording =>
      cases source with
      | none => exact absurd .source (succeeds _)
      | some source =>
          cases outcome : CompiledModel.ofSource {} source with
          | error error => exact absurd (.description outcome) (succeeds error)
          | ok model => rw [perform_load_some (run_load_with_accepted outcome)]
  | score number row count =>
      cases number with
      | none => exact absurd .model (succeeds _)
      | some number =>
          obtain ⟨handle, live⟩ := allowed.1 number rfl
          cases row with
          | none => exact absurd .features (succeeds _)
          | some row =>
              have enough : handle.featureCount ≤ count := by
                by_contra few
                exact succeeds _ (.short live (Nat.not_le.mp few))
              obtain ⟨model, -, performed⟩ :=
                perform_score_enough loaded live (allowed.2 row rfl) enough
              rw [performed]
  | scoreMany number size rows output =>
      by_cases sized : size = 0
      · cases number with
        | none => exact absurd .batchModel (succeeds _)
        | some number =>
            obtain ⟨handle, live⟩ := allowed.1 number rfl
            rw [sized, perform_empty_batch loaded live]
      · cases batch_cases allowed.1 sized with
        | inl lacking =>
            obtain ⟨-, error, fails⟩ := lacking
            exact absurd fails (succeeds error)
        | inr complete =>
            obtain ⟨-, place, handle, given, buffer, number, rows, output, live, present, enough⟩ :=
              complete
            subst number rows output
            obtain ⟨filled, performed, -⟩ :=
              perform_batch loaded allowed sized live present enough
            rw [performed]
  | featureCount number => rfl
  | free number => cases number <;> rfl
  | lastError => rfl
  | clear => exact absurd rfl other

/-- Handles come from loads that succeed, and nothing takes a model out of one. -/
theorem perform_loaded (loaded : store.Loaded) (call : Call) : (store.perform call).2.Loaded := by
  intro place handle live
  cases call with
  | load name source wording =>
      cases source with
      | none =>
          rw [perform_load_none run_load_with_absent] at live
          exact loaded place handle live
      | some source =>
          cases outcome : CompiledModel.ofSource {} source with
          | error error =>
              rw [perform_load_none (run_load_with_refused outcome)] at live
              exact loaded place handle live
          | ok model =>
              rw [perform_load_some (run_load_with_accepted outcome)] at live
              rw [List.getElem?_append] at live
              split at live
              case isTrue => exact loaded place handle live
              case isFalse =>
                have last := List.mem_of_getElem? live
                cases List.mem_singleton.mp last
                exact ⟨model, rfl⟩
  | free number =>
      cases number with
      | none => exact loaded place handle live
      | some number =>
          have former : (store.handles.set number none)[place]? = some (some handle) := live
          rw [List.getElem?_set] at former
          split at former
          case isTrue =>
            split at former
            case isTrue => cases former
            case isFalse => cases former
          case isFalse => exact loaded place handle former
  | score number row count => exact loaded place handle live
  | scoreMany number size rows output => exact loaded place handle live
  | featureCount number => exact loaded place handle live
  | lastError => exact loaded place handle live
  | clear => exact loaded place handle live

end Store

end SymmetricTrees.Session
