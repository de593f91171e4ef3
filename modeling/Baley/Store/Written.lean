import Baley.Store.Turns

/-!
# What a commit writes

A turn touches the leases and references of its own project and the shared bodies.  The write at
its end adds one row for each event and each attachment, writes the staged documents and the anchor
rows, and moves the head.  Every other row stays as it was.
-/

namespace Baley

open Json

/-- The reference row of an attachment, before any release. -/
def attachedRow (reference : PayloadRef) : RefRow where
  retention := reference.retention
  releasedSeq := none

/-- What inserting events with their attachments did to a project's rows. -/
structure Inserted (rows : ProjectRows) (events : List (Event × List PayloadRef))
    (after : ProjectRows) : Prop where
  events_eq : ∃ stored, after.events = rows.events ++ stored ∧
    List.Forall₂ EventRow.Holds stored (events.map Prod.fst)
  refs_iff : ∀ key row, after.refs.lookup key = some row ↔ rows.refs.lookup key = some row ∨
    ∃ event ∈ events, ∃ reference ∈ event.2, key = (event.1.seq, reference.hash) ∧
      row = attachedRow reference
  rest_eq : after = { rows with events := after.events, refs := after.refs }

theorem insertEvent_eq_ok {rows after : ProjectRows} {event : Event}
    (succeeded : insertEvent rows event = .ok after) :
    ∃ row, EventRow.ofEvent event = .ok row ∧ after = { rows with events := rows.events ++ [row] } := by
  simp only [insertEvent, Except.bind_eq_ok, Except.ok.injEq] at succeeded
  obtain ⟨row, row_eq, -, -, rfl⟩ := succeeded
  exact ⟨row, row_eq, rfl⟩

theorem putReference_eq_ok {seq : Nat} {rows after : ProjectRows} {reference : PayloadRef}
    (succeeded : putReference seq rows reference = .ok after) :
    rows.refs.lookup (seq, reference.hash) = none ∧
      after = { rows with refs := rows.refs.insert (seq, reference.hash) (attachedRow reference) } := by
  simp only [putReference, Except.bind_eq_ok, Except.ofOption_eq_ok, Table.create_eq_some,
    Except.ok.injEq] at succeeded
  obtain ⟨refs, ⟨missing, rfl⟩, rfl⟩ := succeeded
  exact ⟨missing, rfl⟩

theorem putReferences_eq_ok {seq : Nat} {references : List PayloadRef} {rows after : ProjectRows}
    (succeeded : references.foldlM (putReference seq) rows = .ok after) :
    (∀ key row, after.refs.lookup key = some row ↔ rows.refs.lookup key = some row ∨
      ∃ reference ∈ references, key = (seq, reference.hash) ∧ row = attachedRow reference) ∧
    after = { rows with refs := after.refs } := by
  induction references generalizing rows with
  | nil =>
      obtain rfl := Except.ok.inj succeeded
      simp
  | cons reference references ih =>
      rw [List.foldlM_cons, Except.bind_eq_ok] at succeeded
      obtain ⟨middle, put_eq, rest_eq⟩ := succeeded
      obtain ⟨missing, rfl⟩ := putReference_eq_ok put_eq
      obtain ⟨refs_iff, after_eq⟩ := ih rest_eq
      refine ⟨fun key row => ?_, after_eq⟩
      rw [refs_iff, Table.lookup_put]
      by_cases same : key = (seq, reference.hash)
      · subst same
        simp [missing, eq_comm]
      · simp [same]

theorem insertWithReferences_eq_ok {events : List (Event × List PayloadRef)}
    {rows after : ProjectRows} (succeeded : events.foldlM insertWithReferences rows = .ok after) :
    Inserted rows events after := by
  induction events generalizing rows with
  | nil =>
      obtain rfl := Except.ok.inj succeeded
      exact ⟨⟨[], by simp, .nil⟩, by simp, rfl⟩
  | cons event events ih =>
      rw [List.foldlM_cons, Except.bind_eq_ok] at succeeded
      obtain ⟨middle, insert_eq, rest_eq⟩ := succeeded
      rw [insertWithReferences, Except.bind_eq_ok] at insert_eq
      obtain ⟨placed, placed_eq, references_eq⟩ := insert_eq
      obtain ⟨row, row_eq, rfl⟩ := insertEvent_eq_ok placed_eq
      obtain ⟨middle_iff, middle_eq⟩ := putReferences_eq_ok references_eq
      obtain ⟨⟨stored, events_eq, stored_hold⟩, refs_iff, after_eq⟩ := ih rest_eq
      refine ⟨⟨row :: stored, ?_, .cons (EventRow.holds_ofEvent row_eq) stored_hold⟩, ?_, ?_⟩
      · rw [events_eq, middle_eq]
        simp
      · intro key reference
        rw [refs_iff, middle_iff]
        simp [or_assoc]
      · rw [after_eq, middle_eq]

/-- The anchor rows after some were inserted. -/
theorem insertAnchors_eq_ok {anchors : List (Nat × AnchorRow)} {rows after : ProjectRows}
    (succeeded : anchors.foldlM insertAnchor rows = .ok after) :
    (∀ seq row, after.anchors.lookup seq = some row ↔
      rows.anchors.lookup seq = some row ∨ (seq, row) ∈ anchors) ∧
    after = { rows with anchors := after.anchors } := by
  induction anchors generalizing rows with
  | nil =>
      obtain rfl := Except.ok.inj succeeded
      simp
  | cons anchor anchors ih =>
      rw [List.foldlM_cons, Except.bind_eq_ok] at succeeded
      obtain ⟨middle, insert_eq, rest_eq⟩ := succeeded
      simp only [insertAnchor, Except.bind_eq_ok, Except.ofOption_eq_ok, Table.create_eq_some,
        Except.ok.injEq] at insert_eq
      obtain ⟨_, ⟨missing, rfl⟩, rfl⟩ := insert_eq
      obtain ⟨anchors_iff, after_eq⟩ := ih rest_eq
      refine ⟨fun seq row => ?_, after_eq⟩
      rw [anchors_iff, Table.lookup_put]
      obtain ⟨anchor_seq, anchor_row⟩ := anchor
      by_cases same : seq = anchor_seq
      · subst same
        simp [missing, eq_comm]
      · simp [same]

/-- What the write of a command did. -/
structure Work.Written (store : Store) (work : Work) (head : Head) (db : Db)
    (rows : ProjectRows) : Prop where
  head_eq : work.head = some head
  inserted : Inserted work.rows work.events
    { rows with
      documents := work.rows.documents, anchors := work.rows.anchors
      headSeq := work.rows.headSeq, headHash := work.rows.headHash }
  documents_eq : store.writeStaged work.generation work.staged work.rows.documents =
    .ok rows.documents
  anchors_iff : ∀ seq row, rows.anchors.lookup seq = some row ↔
    work.rows.anchors.lookup seq = some row ∨ (seq, row) ∈ work.anchors
  headSeq_eq : rows.headSeq = head.seq
  headHash_eq : rows.headHash = some head.hash
  db_eq : db = work.db.setRows work.command.project rows

theorem Work.write_eq_ok {store : Store} {work : Work} {head : Head} {db : Db}
    (succeeded : work.write store = .ok (head, db)) : ∃ rows, work.Written store head db rows := by
  simp only [Work.write, Except.bind_eq_ok, Except.ofOption_eq_ok, sqlInt_eq_ok, Except.ok.injEq,
    Prod.mk.injEq] at succeeded
  obtain ⟨found, head_eq, placed, placed_eq, documents, documents_eq, anchored, anchored_eq, _,
    ⟨-, rfl⟩, rfl, rfl⟩ := succeeded
  have inserted := insertWithReferences_eq_ok placed_eq
  obtain ⟨anchors_iff, anchored_rest⟩ := insertAnchors_eq_ok anchored_eq
  have placed_rest := inserted.rest_eq
  refine ⟨_, head_eq, ?_, ?_, ?_, rfl, rfl, rfl⟩
  · rw [anchored_rest]
    have back_eq : { placed with
        documents := work.rows.documents, anchors := work.rows.anchors
        headSeq := work.rows.headSeq, headHash := work.rows.headHash } = placed := by
      rw [placed_rest]
    exact back_eq ▸ inserted
  · have before_eq : placed.documents = work.rows.documents := by rw [placed_rest]
    rw [← before_eq, documents_eq]
    rw [anchored_rest]
  · intro seq row
    have before_eq : placed.anchors = work.rows.anchors := by rw [placed_rest]
    rw [← before_eq]
    exact anchors_iff seq row

/-! ## What a turn leaves alone -/

/-- A turn stays within its project: of its rows it changes leases and references only. -/
structure Work.Within (command : Command) (db : Db) (work : Work) : Prop where
  command_eq : work.command = command
  generation_eq : work.generation = (db.rows command.project).liveGen
  others_eq : ∀ project, project ≠ command.project → work.db.rows project = db.rows project
  rows_eq : work.rows = { db.rows command.project with
    leases := work.rows.leases, refs := work.rows.refs }

namespace Work.Within

variable {store : Store} {command : Command} {db : Db} {work after : Work}

theorem start (command : Command) (db : Db) (head : Option Head) :
    Within command db (Work.new command db head (db.rows command.project).liveGen) :=
  ⟨rfl, rfl, fun _ _ => rfl, rfl⟩

/-- Writing the command's own rows leaves the other projects alone. -/
theorem setRows (within : Within command db work) {rows : ProjectRows}
    (rows_eq : rows = { work.rows with leases := rows.leases, refs := rows.refs }) :
    Within command db (work.setRows rows) where
  command_eq := within.command_eq
  generation_eq := within.generation_eq
  others_eq := by
    intro project differs
    rw [← within.command_eq] at differs
    rw [Work.setRows, Db.rows_setRows, if_neg differs]
    rw [within.command_eq] at differs
    exact within.others_eq project differs
  rows_eq := by
    have before_eq := within.rows_eq
    rw [Work.rows_setRows, rows_eq, before_eq]

theorem invariant (store : Store) (depth : Depth) (command : Command) (db : Db) :
    RetentionInvariant store depth (Within command db) where
  failed := fun work error within => ⟨within.1, within.2, within.3, within.4⟩
  anchored := fun work anchors within => ⟨within.1, within.2, within.3, within.4⟩
  put := fun work put within => ⟨within.1, within.2, within.3, within.4⟩
  stored := by
    intro work db' bytes retention reference within put_eq
    obtain ⟨-, ⟨_, -, -, rfl⟩ | ⟨-, rfl⟩⟩ := putPayload_eq_ok put_eq
    · exact within
    · exact ⟨within.1, within.2, within.3, within.4⟩
  leased := fun work leases within => within.setRows rfl
  pushed := by
    intro event work after recorded copy _ within pushed
    rw [pushed.after_eq]
    exact ⟨within.1, within.2, within.3, within.4⟩
  released := fun work refs within => within.setRows rfl
  bodies := fun work payloads scrubPending within => ⟨within.1, within.2, within.3, within.4⟩

end Work.Within

end Baley
