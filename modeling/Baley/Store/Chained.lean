import Baley.Store.Written

/-!
# The chain of a project

What a project's rows record is one chain that the verifier accepts from sequence 1, and every turn
of a command extends it.  What a turn holds in memory follows what the rows record.
-/

namespace Baley

open Json Attempt

/-- The head after the events. -/
def headOf (events : List Event) : Option Head :=
  events.getLast?.map fun event => ⟨event.seq, event.hash⟩

/-- The versions the events give a stream, in sequence order. -/
def versionsOf (events : List Event) (stream : StreamName) : List Nat :=
  (events.filter fun event => event.stream = stream).map Event.streamVersion

/-- The events form one chain of a project that the verifier accepts, each stream numbered from
1. -/
structure IsChain (sha256 : List UInt8 → Hash) (project : ProjectId) (events : List Event) :
    Prop where
  accepted : ChainVerifier.Accepted sha256 none events ((ChainVerifier.new none).walk sha256 events)
  projectId_eq : ∀ event ∈ events, event.projectId = project
  versions_eq : ∀ stream,
    versionsOf events stream = List.range' 1 (versionsOf events stream).length

namespace IsChain

variable {sha256 : List UInt8 → Hash} {project : ProjectId} {events : List Event}

theorem nil : IsChain sha256 project [] where
  accepted := ChainVerifier.accepted_new none
  projectId_eq := by simp
  versions_eq := fun stream => rfl

/-- An event that follows the head extends the chain. -/
theorem append (chain : IsChain sha256 project events) {event : Event}
    (projectId_eq : event.projectId = project) (seq_eq : event.seq = events.length + 1)
    (prevHash_eq : event.prevHash = (headOf events).map Head.hash)
    (computed : event.computeHash sha256 = .ok event.hash)
    (version_eq : event.streamVersion = (versionsOf events event.stream).length + 1) :
    IsChain sha256 project (events ++ [event]) where
  accepted := by
    refine chain.accepted.walk_append (ChainVerifier.check_eq_ok_iff.mpr ⟨?_, ?_, ?_, computed, rfl⟩)
    · rw [seq_eq, chain.accepted.expectedSeq_eq]
    · rw [chain.accepted.project_eq]
      cases events with
      | nil => rfl
      | cons first tail => simp [chain.projectId_eq first (by simp), projectId_eq]
    · rw [prevHash_eq, headOf, chain.accepted.head_eq]
  projectId_eq := by
    intro other other_mem
    rcases List.mem_append.mp other_mem with other_mem | other_mem
    · exact chain.projectId_eq other other_mem
    · rw [List.mem_singleton.mp other_mem, projectId_eq]
  versions_eq := by
    intro stream
    unfold versionsOf at version_eq ⊢
    rw [List.filter_append, List.map_append]
    by_cases same : event.stream = stream
    · subst same
      have front_eq := chain.versions_eq event.stream
      unfold versionsOf at front_eq
      simp only [decide_true, List.filter_cons_of_pos, List.filter_nil, List.map_cons, List.map_nil,
        List.length_append, List.length_cons, List.length_nil, Nat.zero_add]
      rw [List.range'_concat, ← front_eq, version_eq, Nat.one_mul, Nat.add_comm 1]
    · have front_eq := chain.versions_eq stream
      unfold versionsOf at front_eq
      simpa [same] using front_eq

theorem seq_getElem (chain : IsChain sha256 project events) {i : Nat} (inside : i < events.length) :
    events[i].seq = i + 1 :=
  chain.accepted.numbered i inside

/-- The head's sequence is the number of events. -/
theorem headOf_seq (chain : IsChain sha256 project events) :
    (headOf events).elim 0 Head.seq = events.length := by
  rcases List.eq_nil_or_concat' events with rfl | ⟨front, last, rfl⟩
  · rfl
  · have last_seq := chain.seq_getElem (i := front.length) (by simp)
    simpa [headOf] using last_seq

theorem headOf_eq_none (events : List Event) : headOf events = none ↔ events = [] := by
  simp [headOf]

end IsChain

theorem foldr_max_range' (n base : Nat) : (List.range' 1 n).foldr max base = max n base := by
  induction n generalizing base with
  | zero => simp
  | succ n ih =>
      rw [List.range'_concat, List.foldr_append, List.foldr_cons, List.foldr_nil, ih]
      omega

/-! ## Rows of a project -/

namespace ProjectRows

/-- What the rows of a project record is one chain, and the stored head is its last event. -/
structure Chained (sha256 : List UInt8 → Hash) (depth : Depth) (project : ProjectId)
    (rows : ProjectRows) : Prop where
  sound : ∀ row ∈ rows.events, row.Sound depth.fits project
  chain : IsChain sha256 project (rows.history project)
  headSeq_eq : rows.headSeq = (rows.history project).length
  headHash_eq : rows.headHash = (headOf (rows.history project)).map Head.hash

theorem chained_empty (sha256 : List UInt8 → Hash) (depth : Depth) (project : ProjectId) :
    ProjectRows.empty.Chained sha256 depth project where
  sound := by simp [ProjectRows.empty]
  chain := IsChain.nil
  headSeq_eq := rfl
  headHash_eq := rfl

theorem Chained.recorded {sha256 : List UInt8 → Hash} {depth : Depth} {project : ProjectId}
    {rows : ProjectRows} (chained : rows.Chained sha256 depth project) :
    ∀ row ∈ rows.events, (row.recorded project).isSome = true := by
  intro row row_mem
  obtain ⟨event, recorded, -⟩ := (chained.sound row row_mem).recorded
  rw [recorded]
  rfl

/-- A row that records an event has its stream and version. -/
theorem fields_of_recorded {row : EventRow} {project : ProjectId} {event : Event}
    (recorded : row.recorded project = some event) :
    row.seq = event.seq ∧ row.stream = event.stream ∧ row.streamVersion = event.streamVersion ∧
      row.typeName = event.typeName ∧ row.typeVersion = event.typeVersion := by
  simp only [EventRow.recorded, EventRow.read, Option.bind_eq_bind, Option.bind_eq_some_iff,
    Option.some.injEq] at recorded
  obtain ⟨_, -, _, -, _, -, _, -, rfl⟩ := recorded
  exact ⟨rfl, rfl, rfl, rfl, rfl⟩

theorem versions_of_recorded {project : ProjectId} {stored : List EventRow}
    (recorded : ∀ row ∈ stored, (row.recorded project).isSome = true) (stream : StreamName) :
    (stored.filter fun row => row.stream = stream).map EventRow.streamVersion =
      versionsOf (stored.filterMap (EventRow.recorded project)) stream := by
  unfold versionsOf
  induction stored with
  | nil => rfl
  | cons row tail ih =>
      obtain ⟨event, event_eq⟩ := Option.isSome_iff_exists.mp (recorded row (by simp))
      obtain ⟨-, stream_eq, version_eq, -⟩ := fields_of_recorded event_eq
      have tail_eq := ih fun row row_mem => recorded row (List.mem_cons_of_mem _ row_mem)
      rw [List.filterMap_cons_some event_eq]
      by_cases same : row.stream = stream
      · rw [List.filter_cons_of_pos (by simpa using same),
          List.filter_cons_of_pos (by simpa [← stream_eq] using same), List.map_cons, List.map_cons,
          tail_eq, version_eq]
      · rw [List.filter_cons_of_neg (by simpa using same),
          List.filter_cons_of_neg (by simpa [← stream_eq] using same), tail_eq]

/-- The highest version of a stream is the number of its events. -/
theorem streamVersion_eq {project : ProjectId} {rows : ProjectRows}
    (recorded : ∀ row ∈ rows.events, (row.recorded project).isSome = true)
    {sha256 : List UInt8 → Hash} (chain : IsChain sha256 project (rows.history project))
    (stream : StreamName) :
    rows.streamVersion stream = (versionsOf (rows.history project) stream).length := by
  unfold streamVersion
  rw [versions_of_recorded recorded, ← history, chain.versions_eq stream, foldr_max_range',
    List.length_range', Nat.max_zero]

end ProjectRows

/-! ## The work of a turn -/

namespace Work

/-- The events recorded and those the turn has appended, as they will be read back. -/
def history (work : Work) : List Event :=
  work.rows.history work.command.project ++ work.events.map fun event => event.1.canonical

/-- What the turn of a command holds follows what is recorded: its events extend the chain from the
events stored before it. -/
structure Chained (store : Store) (depth : Depth) (command : Command) (events : List EventRow)
    (work : Work) : Prop where
  command_eq : work.command = command
  events_eq : work.rows.events = events
  sound : ∀ row ∈ events, row.Sound depth.fits command.project
  chain : IsChain store.sha256 command.project work.history
  head_eq : work.head = headOf work.history
  streams_eq : ∀ stream, work.streamVersion stream = (versionsOf work.history stream).length
  admitted : ∀ event ∈ work.events, event.1.payload.WellFormed ∧ depth.fits event.1.payload.nesting
  inDomain : ∀ event ∈ work.events, InDomain event.1.payload
  stamped : ∀ event ∈ work.events, event.1.projectId = command.project ∧
    event.1.requestId = command.requestId ∧ event.1.recordedAt = command.recordedAt ∧
    event.1.actor = command.actor ∧ event.1.caller = command.caller ∧
    event.1.policyVersion = command.policyVersion

namespace Chained

variable {store : Store} {depth : Depth} {command : Command} {events : List EventRow}
  {work after : Work}

/-- Only the stored events and what the turn appended to them matter. -/
theorem congr (chained : Chained store depth command events work)
    (command_eq : after.command = work.command)
    (stored_eq : after.rows.events = work.rows.events) (head_eq : after.head = work.head)
    (streams_eq : after.streams = work.streams) (appended_eq : after.events = work.events) :
    Chained store depth command events after := by
  have history_eq : after.history = work.history := by
    rw [history, history, ProjectRows.history, ProjectRows.history, stored_eq, command_eq,
      appended_eq]
  have versions_eq (stream : StreamName) : after.streamVersion stream = work.streamVersion stream := by
    rw [streamVersion, streamVersion, ProjectRows.streamVersion, ProjectRows.streamVersion,
      stored_eq, streams_eq]
  constructor
  · rw [command_eq, chained.command_eq]
  · rw [stored_eq, chained.events_eq]
  · exact chained.sound
  · rw [history_eq]
    exact chained.chain
  · rw [head_eq, history_eq, chained.head_eq]
  · intro stream
    rw [versions_eq, history_eq, chained.streams_eq]
  · rw [appended_eq]
    exact chained.admitted
  · rw [appended_eq]
    exact chained.inDomain
  · rw [appended_eq]
    exact chained.stamped

theorem nextSeq_eq (chained : Chained store depth command events work) :
    work.nextSeq = work.history.length + 1 := by
  have head_seq := chained.chain.headOf_seq
  rw [← chained.head_eq] at head_seq
  unfold nextSeq
  cases head_eq : work.head with
  | none =>
      rw [head_eq, Option.elim_none] at head_seq
      rw [Option.elim_none, ← head_seq]
  | some head =>
      rw [head_eq, Option.elim_some] at head_seq
      rw [Option.elim_some, head_seq]

/-- A push extends the chain by the event it records. -/
theorem pushed {event : NewEvent} {recorded copy : Event}
    (chained : Chained store depth command events work) (admits : depth.Admits event)
    (pushed : Pushed store event work after recorded copy) :
    Chained store depth command events after ∧ after.history = work.history ++ [recorded.canonical] := by
  obtain ⟨records, computed, -, -, -, -, after_eq⟩ := pushed
  have inDomain := (Event.inDomain_of_computeHash computed).2
  have history_eq : after.history = work.history ++ [recorded.canonical] := by
    rw [after_eq, history, history]
    simp [rows]
  have version_eq : recorded.streamVersion =
      (versionsOf work.history recorded.stream).length + 1 := by
    rw [records.streamVersion_eq, records.stream_eq, chained.streams_eq]
  have stored_eq : after.rows.events = events := by
    rw [after_eq]
    exact chained.events_eq
  refine ⟨?_, history_eq⟩
  constructor
  · rw [after_eq]
    exact chained.command_eq
  · exact stored_eq
  · exact chained.sound
  · rw [history_eq]
    refine chained.chain.append ?_ ?_ ?_ ?_ version_eq
    · exact records.projectId_eq.trans (congrArg Command.project chained.command_eq)
    · exact records.seq_eq.trans chained.nextSeq_eq
    · rw [← chained.head_eq]
      exact records.prevHash_eq
    · rw [Event.computeHash_canonical inDomain]
      exact computed
  · rw [history_eq, after_eq]
    simp [headOf, Event.canonical]
  · intro stream
    rw [history_eq, versionsOf, List.filter_append, List.map_append, List.length_append]
    have before_eq := chained.streams_eq stream
    rw [versionsOf] at before_eq
    rw [← before_eq, after_eq, streamVersion, Table.lookup_put]
    by_cases same : stream = event.stream
    · simp [same, Event.canonical, records.stream_eq, records.streamVersion_eq]
    · have differs : recorded.stream ≠ stream := by
        rw [records.stream_eq]
        exact Ne.symm same
      simp [same, Event.canonical, differs, streamVersion, rows]
  · rw [after_eq]
    intro other other_mem
    rcases List.mem_append.mp other_mem with other_mem | other_mem
    · exact chained.admitted other other_mem
    · rw [List.mem_singleton.mp other_mem, records.payload_eq]
      exact admits
  · rw [after_eq]
    intro other other_mem
    rcases List.mem_append.mp other_mem with other_mem | other_mem
    · exact chained.inDomain other other_mem
    · rw [List.mem_singleton.mp other_mem]
      exact inDomain
  · rw [after_eq]
    intro other other_mem
    rcases List.mem_append.mp other_mem with other_mem | other_mem
    · exact chained.stamped other other_mem
    · rw [List.mem_singleton.mp other_mem, ← chained.command_eq]
      exact ⟨records.projectId_eq, records.requestId_eq, records.recordedAt_eq, records.actor_eq,
        records.caller_eq, records.policyVersion_eq⟩

/-- Every operation of a turn keeps the chain. -/
theorem invariant (store : Store) (depth : Depth) (command : Command) (events : List EventRow) :
    Invariant store depth.Admits (Chained store depth command events) where
  failed := fun work error chained => chained.congr rfl rfl rfl rfl rfl
  anchored := fun work anchors chained => chained.congr rfl rfl rfl rfl rfl
  put := fun work put chained => chained.congr rfl rfl rfl rfl rfl
  stored := by
    intro work db bytes retention reference chained put_eq
    obtain ⟨-, ⟨_, -, -, rfl⟩ | ⟨-, rfl⟩⟩ := putPayload_eq_ok put_eq
    · exact chained
    · exact chained.congr rfl rfl rfl rfl rfl
  leased := fun work leases chained => chained.congr rfl (by simp) rfl rfl rfl
  pushed := fun event work after recorded copy admits chained pushed =>
    (chained.pushed admits pushed).1

theorem retentionInvariant (store : Store) (depth : Depth) (command : Command)
    (events : List EventRow) :
    RetentionInvariant store depth (Chained store depth command events) where
  toInvariant := invariant store depth command events
  released := fun work refs chained => chained.congr rfl (by simp) rfl rfl rfl
  bodies := fun work payloads scrubPending chained => chained.congr rfl rfl rfl rfl rfl

theorem storedHead_eq {db : Db} {project : ProjectId} {before : Option Head}
    {sha256 : List UInt8 → Hash} {depth : Depth}
    (chained : (db.rows project).Chained sha256 depth project)
    (started : storedHead db project = .ok before) :
    before = headOf ((db.rows project).history project) := by
  have head_seq := chained.chain.headOf_seq
  rw [← chained.headSeq_eq] at head_seq
  unfold storedHead at started
  cases found : db.projects.lookup project with
  | none => simp [found] at started
  | some rows =>
      have rows_eq : db.rows project = rows := by rw [Db.rows, found]; rfl
      have hash_eq := chained.headHash_eq
      rw [rows_eq] at hash_eq head_seq ⊢
      simp only [found] at started
      cases head_eq : headOf (rows.history project) with
      | none =>
          rw [head_eq, Option.map_none] at hash_eq
          simp only [hash_eq] at started
          split_ifs at started
          exact (Except.ok.inj started).symm
      | some head =>
          rw [head_eq, Option.map_some] at hash_eq
          rw [head_eq, Option.elim_some] at head_seq
          simp only [hash_eq] at started
          split_ifs at started
          obtain rfl := Except.ok.inj started
          rw [← head_seq]

/-- A turn starts from the chain its project's rows record. -/
theorem start {store : Store} {depth : Depth} {command : Command} {db : Db} {before : Option Head}
    (chained : (db.rows command.project).Chained store.sha256 depth command.project)
    (started : storedHead db command.project = .ok before) (generation : Nat) :
    Chained store depth command (db.rows command.project).events
      (Work.new command db before generation) := by
  have history_eq : (Work.new command db before generation).history =
      (db.rows command.project).history command.project := by
    simp [history, Work.new, rows]
  constructor
  · rfl
  · rfl
  · exact chained.sound
  · rw [history_eq]
    exact chained.chain
  · rw [history_eq]
    exact storedHead_eq chained started
  · intro stream
    rw [history_eq]
    exact ProjectRows.streamVersion_eq chained.recorded chained.chain stream
  · simp [Work.new]
  · simp [Work.new]
  · simp [Work.new]

theorem filterMap_recorded {fits : Nat → Prop} {project : ProjectId} {stored : List EventRow}
    {events : List Event} (hold : List.Forall₂ EventRow.Holds stored events)
    (admitted : ∀ event ∈ events, event.payload.WellFormed ∧ event.projectId = project ∧
      fits event.payload.nesting) :
    (∀ row ∈ stored, row.Sound fits project) ∧
      stored.filterMap (EventRow.recorded project) = events.map Event.canonical := by
  induction hold with
  | nil => simp
  | @cons row event stored events holds _ ih =>
      obtain ⟨wellFormed, rfl, event_fits⟩ := admitted event (by simp)
      obtain ⟨rest_sound, rest_eq⟩ := ih fun other other_mem =>
        admitted other (List.mem_cons_of_mem _ other_mem)
      refine ⟨?_, ?_⟩
      · intro other other_mem
        rcases List.mem_cons.mp other_mem with rfl | other_mem
        · exact ⟨event, holds, wellFormed, rfl, event_fits⟩
        · exact rest_sound other other_mem
      · rw [List.filterMap_cons_some (holds.recorded_eq wellFormed), rest_eq, List.map_cons]

/-- The write makes the rows record what the turn held. -/
theorem written {store : Store} {depth : Depth} {command : Command} {events : List EventRow}
    {work : Work} (chained : Chained store depth command events work) {head : Head} {db : Db} {rows : ProjectRows}
    (written : work.Written store head db rows) :
    rows.Chained store.sha256 depth command.project ∧
      rows.history command.project = work.history := by
  obtain ⟨stored, events_eq, hold⟩ := written.inserted.events_eq
  simp only at events_eq
  have appended : ∀ event ∈ work.events.map Prod.fst,
      event.payload.WellFormed ∧ event.projectId = command.project ∧
        depth.fits event.payload.nesting := by
    intro event event_mem
    obtain ⟨pair, pair_mem, rfl⟩ := List.mem_map.mp event_mem
    obtain ⟨wellFormed, event_fits⟩ := chained.admitted pair pair_mem
    exact ⟨wellFormed, (chained.stamped pair pair_mem).1, event_fits⟩
  obtain ⟨stored_sound, stored_eq⟩ := filterMap_recorded hold appended
  have history_eq : rows.history command.project = work.history := by
    rw [ProjectRows.history, events_eq, List.filterMap_append, stored_eq, history,
      chained.command_eq, List.map_map]
    rfl
  have head_eq : headOf work.history = some head := by
    rw [← chained.head_eq, written.head_eq]
  have head_seq := chained.chain.headOf_seq
  rw [head_eq, Option.elim_some] at head_seq
  refine ⟨?_, history_eq⟩
  constructor
  · intro row row_mem
    rw [events_eq, chained.events_eq] at row_mem
    rcases List.mem_append.mp row_mem with row_mem | row_mem
    · exact chained.sound row row_mem
    · exact stored_sound row row_mem
  · rw [history_eq]
    exact chained.chain
  · rw [history_eq, written.headSeq_eq, head_seq]
  · rw [history_eq, head_eq, written.headHash_eq]
    rfl

end Chained

end Work

/-! ## Runs -/

/-- Every project's rows record a chain. -/
def Db.Chained (sha256 : List UInt8 → Hash) (depth : Depth) (db : Db) : Prop :=
  ∀ project, (db.rows project).Chained sha256 depth project

namespace Store

variable {store : Store} {depth : Depth} {command : Command} {db written : Db}
  {before : Option Head} {work : Work} {head : Head}

/-- What a committed command did to the record: it appended its own events to its project's. -/
structure Appended (command : Command) (db written : Db) (work : Work) : Prop where
  history_eq : (written.rows command.project).history command.project =
    (db.rows command.project).history command.project ++
      work.events.map fun event => event.1.canonical
  stamped : ∀ event ∈ work.events, event.1.projectId = command.project ∧
    event.1.requestId = command.requestId ∧ event.1.recordedAt = command.recordedAt ∧
    event.1.actor = command.actor ∧ event.1.caller = command.caller ∧
    event.1.policyVersion = command.policyVersion
  others_eq : ∀ project, project ≠ command.project → written.rows project = db.rows project

theorem Commits.chained (commits : store.Commits depth command db before work head written)
    (chained : db.Chained store.sha256 depth) :
    written.Chained store.sha256 depth ∧ Appended command db written work := by
  have work_chained := commits.kept _ (Work.Chained.retentionInvariant store depth command _)
    (Work.Chained.start (chained command.project) commits.started _)
  have within := commits.kept _ (Work.Within.invariant store depth command db)
    (Work.Within.start command db before)
  obtain ⟨rows, work_written⟩ := Work.write_eq_ok commits.wrote
  obtain ⟨rows_chained, history_eq⟩ := work_chained.written work_written
  have db_eq := work_written.db_eq
  have others_eq : ∀ project, project ≠ command.project →
      written.rows project = db.rows project := by
    intro project differs
    rw [db_eq, within.command_eq, Db.rows_setRows, if_neg differs, within.others_eq project differs]
  have own_eq : written.rows command.project = rows := by
    rw [db_eq, within.command_eq, Db.rows_setRows, if_pos rfl]
  have stored_eq : work.rows.history command.project =
      (db.rows command.project).history command.project := by
    rw [ProjectRows.history, ProjectRows.history, work_chained.events_eq]
  refine ⟨?_, ⟨?_, work_chained.stamped, others_eq⟩⟩
  · intro project
    by_cases same : project = command.project
    · subst same
      rw [own_eq]
      exact rows_chained
    · rw [others_eq project same]
      exact chained project
  · rw [own_eq, history_eq, Work.history, work_chained.command_eq, stored_eq]

theorem perform_chained (call : Call) (fits : call.Fits depth) (db : Db)
    (chained : db.Chained store.sha256 depth) :
    (store.perform call db).2.Chained store.sha256 depth := by
  have moves := store.perform_moves call fits db
  generalize (store.perform call db).2 = after at moves ⊢
  cases moves with
  | stays => exact chained
  | renews project leases =>
      intro other
      rw [Db.rows_setRows]
      split_ifs with same
      · subst same
        obtain ⟨sound, chain, headSeq_eq, headHash_eq⟩ := chained other
        exact ⟨sound, chain, headSeq_eq, headHash_eq⟩
      · exact chained other
  | commits _ commits _ => exact (commits.chained chained).1

/-- After any run every project's rows record a chain. -/
theorem run_chained (depth : Depth) (calls : List Call) (fits : ∀ call ∈ calls, call.Fits depth)
    (projects : List ProjectId) :
    (store.run calls (Db.create projects)).Chained store.sha256 depth := by
  refine store.run_holds perform_chained calls fits ?_
  intro project
  rw [Db.rows_create]
  exact ProjectRows.chained_empty store.sha256 depth project

end Store

end Baley
