/-
# Courier.Proofs.Scheduler.Records -- every record makes sense

Two fields of a record say more about its status: the time of an end is there exactly if there is an end, and
the error text exactly if the end is a failure. They are written together with the status by one statement
whose arguments depend on it, while a task goes from pending to running and back any number of times. The
other fields are never written again after the record was put.

`Store.Sensible` is that, together with a log of the records put so far; every write of a scheduler and every
command of an operator keeps it, whatever the disk refuses (`State.sensible_step`). The store outlives the
scheduler, so `records_make_sense` is about any number of schedulers, one after the other, each cut off
anywhere.
-/
import Courier.Console.Run
import Courier.Proofs.Scheduler.Moves

namespace Courier

/-! ## Records -/

/-- There is a time of an end if there is an end, and an error text if the end is a failure. -/
structure Record.Sensible (r : Record) : Prop where
  completed : r.completedAt.isSome = true ↔ r.status = .completed ∨ r.status = .failed ∨ r.status = .cancelled
  error : r.error ≠ "" ↔ r.status = .failed

/-- The record is a later state of another one. -/
structure Record.Continues (r put : Record) : Prop where
  id : r.id = put.id
  title : r.title = put.title
  kind : r.kind = put.kind
  payload : r.payload = put.payload
  createdAt : r.createdAt = put.createdAt

namespace Record

theorem Continues.refl (r : Record) : r.Continues r := ⟨rfl, rfl, rfl, rfl, rfl⟩

theorem sensible_new (id kind : String) (payload : Bytes) (title : String) (now : Int) :
    (new id kind payload title now).Sensible where
  completed := by simp [new]
  error := by simp [new]

/-- A status write leaves a record that makes sense, if a failure comes with a text. -/
theorem sensible_moved (r : Record) {status : Status} {error : String} (text : status = .failed → error ≠ "")
    (now : Int) : (r.moved status error now).Sensible where
  completed := by cases status <;> simp [moved, Status.isTerminal]
  error := by
    show (if status = .failed then error else "") ≠ "" ↔ status = .failed
    by_cases failed : status = .failed
    · rw [if_pos failed]
      exact iff_of_true (text failed) failed
    · rw [if_neg failed]
      exact iff_of_false (fun none => none rfl) failed

theorem Continues.moved {r put : Record} (h : r.Continues put) (status : Status) (error : String) (now : Int) :
    (r.moved status error now).Continues put := ⟨h.id, h.title, h.kind, h.payload, h.createdAt⟩

end Record

/-- A failure always has a text. -/
theorem Failure.text_ne_empty (f : Failure) : f.text ≠ "" := by
  intro none
  have length := congrArg String.length none
  rw [Failure.text, String.length_append, String.length_append] at length
  have separator : ": ".length = 2 := rfl
  have empty : "".length = 0 := rfl
  omega

/-! ## Stores -/

/-- The latest record that was put under an id. -/
def lastPut? (log : List Record) (id : String) : Option Record := log.reverse.find? fun r => r.id = id

theorem lastPut?_append (log : List Record) (put? : Option Record) (id : String) :
    lastPut? (log ++ put?.toList) id = (put?.filter fun r => r.id = id).or (lastPut? log id) := by
  cases put? with
  | none => simp [lastPut?]
  | some r => by_cases h : r.id = id <;> simp [lastPut?, h, Option.filter]

namespace Store

/-- Every record of the store makes sense and continues the one that was put under its id last. -/
structure Sensible (log : List Record) (s : Store) : Prop where
  keyed : s.Keyed
  rows : ∀ id row, s.row? id = some row →
    ∃ r put : Record, row = r.row ∧ r.Sensible ∧ lastPut? log id = some put ∧ r.Continues put

variable {log : List Record} {s t : Store}

theorem sensible_empty : Store.empty.Sensible [] where
  keyed := List.nodup_nil
  rows id row here := by cases here

theorem Sensible.put (h : s.Sensible log) {r : Record} (sensible : r.Sensible) (put : s.put r = .ok t) :
    t.Sensible (log ++ [r]) where
  keyed := h.keyed.put put
  rows := by
    intro id row here
    have last := lastPut?_append log (some r) id
    rw [row?_put put] at here
    by_cases same : id = r.id
    · subst same
      rw [if_pos rfl] at here
      cases here
      exact ⟨r, r, rfl, sensible, by simpa [Option.filter] using last, .refl r⟩
    · rw [if_neg same] at here
      obtain ⟨r', put', hrow, makes, hput, continues⟩ := h.rows id row here
      refine ⟨r', put', hrow, makes, ?_, continues⟩
      rw [← hput]
      simpa [Option.filter, Ne.symm same] using last

theorem Sensible.delete (h : s.Sensible log) (id : String) : (s.delete id).2.Sensible log where
  keyed := h.keyed.delete id
  rows := by
    intro x row here
    by_cases same : x = id
    · subst same
      rw [delete_of_mem_ids (mem_ids_of_row? here)] at here
      exact h.rows x row here
    · rw [row?_delete_of_ne same] at here
      exact h.rows x row here

theorem Sensible.updateStatus (h : s.Sensible log) {id : String} {status : Status} {error : String} {now : Int}
    (text : status = .failed → error ≠ "") (writes : s.updateStatus id status error now = .ok t) :
    t.Sensible log where
  keyed := h.keyed.updateStatus writes
  rows := by
    intro x row here
    rw [row?_updateStatus writes, Option.map_eq_some_iff] at here
    obtain ⟨before, hbefore, rfl⟩ := here
    obtain ⟨r, put, rfl, sensible, hput, continues⟩ := h.rows x before hbefore
    by_cases same : x = id
    · rw [if_pos same, ← Record.row_moved]
      exact ⟨_, put, rfl, r.sensible_moved text now, hput, continues.moved status error now⟩
    · rw [if_neg same]
      exact ⟨r, put, rfl, sensible, hput, continues⟩

end Store

namespace Scheduler

variable {c : Setup}

/-! ## Moves -/

/-- A status that an act writes comes with a text if it is a failure. -/
theorem Act.text_of_failed {E : Edits} {l l' : Ledger} (act : Act c E l l') {hs : List Happening}
    (history : l'.history = hs ++ l.history) {id : String} {status : Status} {error : String}
    (wrote : .wrote id status error ∈ hs) (failed : status = .failed) : error ≠ "" := by
  obtain ⟨hs', history', noted⟩ := act.noted
  obtain rfl : hs' = hs := List.append_cancel_right (history'.symm.trans history)
  cases noted _ wrote with
  | outward _ outward => cases outward
  | stored _ _ status_cases => subst failed; simp at status_cases
  | ended w e =>
    cases e with
    | failed failure => exact failure.text_ne_empty
    | completed | cancelled | retry | lateCancel => cases failed

theorem Act.sensible {log : List Record} {l l' : Ledger} (act : Act c .none l l') (h : l.store.Sensible log) :
    l'.store.Sensible log := by
  rcases act.store_cases with same | allowed | ⟨id, status, error, ⟨now, writes⟩, hs, history, wrote⟩
  · rwa [same]
  · exact allowed.elim
  · exact h.updateStatus (act.text_of_failed history wrote) writes

/-- Records that somebody else writes are new tasks. -/
def Move.Files : Move → Prop
  | .putRecord r => ∃ id kind payload title now, r = .new id kind payload title now
  | _ => True

namespace State

/-- The record that a move puts into the store. -/
def put? (c : Setup) (s : State) : Move → Option Record
  | .submit id kind payload title =>
    match (s.submit c id kind payload title).1 with
    | .ok _ => some (.new id kind payload title s.now)
    | .error _ => none
  | .putRecord r =>
    match s.disk.store.put r with
    | .ok _ => some r
    | .error _ => none
  | _ => none

/-- The records that were put in a run, the first one first. -/
def puts (c : Setup) : State → List Move → List Record
  | _, [] => []
  | s, m :: ms => (s.put? c m).toList ++ (s.step c m).puts c ms

theorem sensible_submit {log : List Record} (s : State) (h : s.disk.store.Sensible log) (id kind : String)
    (payload : Bytes) (title : String) :
    (s.submit c id kind payload title).2.disk.store.Sensible
      (log ++ (s.put? c (.submit id kind payload title)).toList) := by
  rcases s.submit_cases (c := c) id kind payload title with ⟨e, disk, same, refused⟩ | ⟨disk, put, accepted⟩
  · simp only [put?, refused, same, Option.toList_none, List.append_nil]
    exact h
  · simp only [put?, accepted, Option.toList_some]
    exact h.put (Record.sensible_new ..) put

theorem sensible_putRecord {log : List Record} (s : State) (h : s.disk.store.Sensible log) {r : Record}
    (sensible : r.Sensible) :
    (s.step c (.putRecord r)).disk.store.Sensible (log ++ (s.put? c (.putRecord r)).toList) := by
  cases put : s.disk.store.put r with
  | ok store =>
    simp only [step, put?, put, Option.toList_some]
    exact h.put sensible put
  | error e =>
    simp only [step, put?, put, Option.toList_none, List.append_nil]
    exact h

theorem sensible_step {log : List Record} (s : State) {m : Move} (files : m.Files)
    (h : s.disk.store.Sensible log) :
    (s.step c m).disk.store.Sensible (log ++ (s.put? c m).toList) := by
  have inner (inner : m.inner = true) (none : s.put? c m = none) :
      (s.step c m).disk.store.Sensible (log ++ (s.put? c m).toList) := by
    rw [none, Option.toList_none, List.append_nil]
    exact (acts_of_inner inner).preserves (P := fun l => l.store.Sensible log) (fun _ _ h act => act.sensible h) h
  cases m with
  | submit id kind payload title => exact s.sensible_submit h id kind payload title
  | putRecord r =>
    obtain ⟨id, kind, payload, title, now, rfl⟩ := files
    exact s.sensible_putRecord h (Record.sensible_new ..)
  | deleteRecord id =>
    show (s.disk.store.delete id).2.Sensible (log ++ [])
    rw [List.append_nil]
    exact h.delete id
  | _ => exact inner rfl rfl

theorem sensible_run {log : List Record} (s : State) {ms : List Move} (files : ∀ m ∈ ms, m.Files)
    (h : s.disk.store.Sensible log) : (s.run c ms).disk.store.Sensible (log ++ s.puts c ms) := by
  induction ms generalizing s log with
  | nil => rwa [puts, List.append_nil]
  | cons m ms ih =>
    have first := s.sensible_step (c := c) (files m List.mem_cons_self) h
    have rest := ih (s.step c m) (fun x hx => files x (List.mem_cons_of_mem m hx)) first
    rwa [List.append_assoc] at rest

/-- What an operator's command does to the store: nothing, or what a move does that files a new task or
deletes one. -/
theorem console_run (s : State) (command : Console.Command) (freshId : String) (now : Int) :
    (command.run freshId now s.disk.store).2 = s.disk.store ∨
      ∃ m : Move, m.Files ∧ (s.step c m).disk.store = (command.run freshId now s.disk.store).2 := by
  cases command with
  | list status limit =>
    left
    simp only [Console.Command.run]
    split <;> rfl
  | «show» id =>
    left
    simp only [Console.Command.run]
    split <;> rfl
  | events id limit =>
    left
    simp only [Console.Command.run]
    split
    · rfl
    · split <;> rfl
  | delete id =>
    simp only [Console.Command.run]
    split
    · exact Or.inl rfl
    · refine Or.inr ⟨.deleteRecord id, trivial, ?_⟩
      show (s.disk.store.delete id).2 = _
      rcases s.disk.store.delete id with ⟨e | u, t⟩ <;> rfl
  | enqueue kind source destination title =>
    let r := Record.new freshId kind (Transfer.encode ⟨source, destination⟩) (title.getD destination) now
    refine Or.inr ⟨.putRecord r, ⟨_, _, _, _, _, rfl⟩, ?_⟩
    simp only [Console.Command.run, step]
    cases s.disk.store.put r <;> rfl

end State

/-! ## Lives -/

/-- A scheduler from its beginning on, for as long as it lives. -/
structure Life where
  setup : Setup
  moves : List Move

namespace Life

/-- What is left on a disk after some lives, one after the other. -/
def disk (d : Disk) : List Life → Disk
  | [] => d
  | life :: lives => disk ((State.init life.setup d).run life.setup life.moves).disk lives

/-- The records that were put in these lives, the first one first. -/
def puts (d : Disk) : List Life → List Record
  | [] => []
  | life :: lives =>
    (State.init life.setup d).puts life.setup life.moves ++
      puts ((State.init life.setup d).run life.setup life.moves).disk lives

theorem sensible_lives {log : List Record} (d : Disk) {lives : List Life}
    (files : ∀ life ∈ lives, ∀ m ∈ life.moves, m.Files) (h : d.store.Sensible log) :
    (disk d lives).store.Sensible (log ++ puts d lives) := by
  induction lives generalizing d log with
  | nil => rwa [puts, List.append_nil]
  | cons life lives ih =>
    have first := (State.init life.setup d).sensible_run (c := life.setup) (files life List.mem_cons_self) h
    have rest := ih _ (fun x hx => files x (List.mem_cons_of_mem life hx)) first
    rwa [List.append_assoc] at rest

/-- After any lives of schedulers on a store that was empty at first, with new tasks filed and tasks deleted
by an operator at any time and whatever the disk has refused: every record can be read, has a time of its end
exactly if it is completed, failed or cancelled, has an error text exactly if it failed, and is apart from that
the record that was put last under its id. -/
theorem records_make_sense (outages : List (Operation × Outage)) (lives : List Life)
    (files : ∀ life ∈ lives, ∀ m ∈ life.moves, m.Files) :
    let d : Disk := { store := Store.empty, outages }
    ∀ row ∈ (disk d lives).store.taskRows, ∃ r, row.record = .ok r ∧
      (r.completedAt.isSome = true ↔ r.status = .completed ∨ r.status = .failed ∨ r.status = .cancelled) ∧
      (r.error ≠ "" ↔ r.status = .failed) ∧
      ∃ put, lastPut? (puts d lives) r.id = some put ∧
        r.id = put.id ∧ r.title = put.title ∧ r.kind = put.kind ∧ r.payload = put.payload ∧
          r.createdAt = put.createdAt := by
  intro d row here
  have sensible := sensible_lives d files Store.sensible_empty
  rw [List.nil_append] at sensible
  obtain ⟨r, put, rfl, makes, hput, continues⟩ := sensible.rows row.id row (Store.lookup_of_mem sensible.keyed here)
  exact ⟨r, Record.record_row r, makes.completed, makes.error, put, hput, continues.id, continues.title,
    continues.kind, continues.payload, continues.createdAt⟩

/-- A task fails, and its scheduler is cut off before it has reported so. In the next life a task is filed. -/
def cutOffAndFiled : List Life :=
  [⟨Setup.small 0, [.submit "a" "mem" [] "film", .start, .loop .go, .loop .permit, .loop .go, .loop .go,
      .worker 0 .go, .clock 3, .worker 0 .go, .worker 0 .go]⟩,
    ⟨Setup.small 0, [.clock 7, .putRecord (.new "b" "mem" [] "song" 7)]⟩]

/-- The first record has a text and a time of its end, the second one has neither. -/
theorem records_make_sense_cut_off :
    let store := (disk { store := Store.empty, outages := [] } cutOffAndFiled).store
    store.taskRows.map Row.status = [.known .failed, .known .pending] ∧
      ∀ row ∈ store.taskRows, ∃ r, row.record = .ok r ∧ (r.error ≠ "" ↔ r.status = .failed) ∧
        ∃ put, lastPut? [.new "a" "mem" [] "film" 0, .new "b" "mem" [] "song" 7] r.id = some put ∧
          r.title = put.title := by
  have files : ∀ life ∈ cutOffAndFiled, ∀ m ∈ life.moves, m.Files := by
    simp [cutOffAndFiled, Move.Files, Record.new]
  have log : puts { store := Store.empty, outages := [] } cutOffAndFiled =
      [.new "a" "mem" [] "film" 0, .new "b" "mem" [] "song" 7] := by decide +kernel
  refine ⟨by decide +kernel, fun row here => ?_⟩
  obtain ⟨r, read, -, text, put, hput, -, title, -⟩ := records_make_sense [] cutOffAndFiled files row here
  exact ⟨r, read, text, put, log ▸ hput, title⟩

end Life

end Scheduler

end Courier
