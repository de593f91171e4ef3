import Baley.Checkout.Consistent

/-!
# What the decisions of admissions and policy steps do

A decision that was recorded read the project as it stood in its transaction: an admission every row
of the checkout view, a policy step the stored policy.
-/

namespace Baley

open Json Ledger Script

variable {port : Port} {command : Command}

/-- A walk that came to its end read every row of the view. -/
theorem runs_allRows {pages : Nat} {rows bodies : List Value} {cursor : Option String}
    {draft after : Draft}
    (runs : Script.Runs (Draft.Performs port command)
      (allRows (fun query => .call (.find checkoutView query) .done) pages rows cursor) draft
      (.ok bodies) after)
    (so_far : ∀ key document, draft.ledger.document checkoutView key = some document →
      document.body ∈ rows ∨ ∀ last ∈ cursor, port.beyond last document) :
    after = draft ∧ ∀ key document, draft.ledger.document checkoutView key = some document →
      document.body ∈ bodies := by
  induction pages generalizing rows cursor with
  | zero => cases (runs_done.mp runs).1
  | succ pages ih =>
      obtain ⟨reply, middle, found, rest⟩ := runs_bind.mp runs
      obtain ⟨reply', middle', reads, ended⟩ := runs_call.mp found
      obtain ⟨rfl, rfl⟩ := runs_done.mp ended
      cases reply with
      | error error => cases (runs_done.mp rest).1
      | ok page =>
          obtain ⟨rfl, page_of⟩ : middle = draft ∧ _ := reads
          -- A row of the page, or one that lies after the cursor the page ends with.
          have next_so_far : ∀ key document,
              middle.ledger.document checkoutView key = some document →
                document.body ∈ rows ++ page.items.map Document.body ∨
                  ∃ last ∈ page.next, port.beyond last document := by
            intro key document held
            obtain ⟨index, declared⟩ := page_of.declared
            rcases so_far key document held with row_mem | beyond
            · exact Or.inl (List.mem_append_left _ row_mem)
            · refine (page_of.complete index declared key document held ⟨?_, beyond⟩).imp_left ?_
              · intro field field_mem
                rw [List.zip_nil_right] at field_mem
                cases field_mem
              · intro item_mem
                exact List.mem_append_right _ (List.mem_map_of_mem item_mem)
          cases next_eq : page.next with
          | none =>
              simp only [next_eq] at rest next_so_far
              obtain ⟨bodies_eq, rfl⟩ := runs_done.mp rest
              obtain rfl := Except.ok.inj bodies_eq
              refine ⟨rfl, fun key document held => ?_⟩
              exact (next_so_far key document held).resolve_right fun ⟨_, none_mem, _⟩ => by
                cases none_mem
          | some last =>
              simp only [next_eq] at rest next_so_far
              refine ih rest fun key document held => (next_so_far key document held).imp_right ?_
              rintro ⟨other, other_mem, beyond⟩ cursor cursor_mem
              obtain rfl := Option.some.inj other_mem
              obtain rfl := Option.some.inj cursor_mem
              exact beyond

/-- What a recorded admission appended: nothing, or its checkout when it was judged so against every
row. -/
inductive Admission.Decided (admission : Admission) (port : Port) (command : Command)
    (before drafted : Ledger) : Prop
  | unchanged (same : drafted = before)
  | seen {rows : List Value} {event : Event}
      (judged : judgeCheckout admission.checkout rows = .record)
      (complete : ∀ key document, before.document checkoutView key = some document →
        document.body ∈ rows)
      (stamps : Stamps command (Admission.seenEvent (seenPayload admission.checkout)) before event)
      (appended : before.append port.allProjectors event = .ok drafted)

theorem Admission.decided {admission : Admission} {observed : Observed} {before drafted : Ledger}
    {failed : Bool} {decision : Decision} {noted : Noted}
    (runs : Script.Runs (Draft.Performs port command) (admission.decide observed) ⟨before, false⟩
      (.ok decision, noted) ⟨drafted, failed⟩) :
    noted = .nothing ∧ decision = Admission.decision observed ∧
      admission.Decided port command before drafted := by
  obtain ⟨reply, middle, walked, runs⟩ := runs_bind.mp runs
  cases reply with
  | error error => cases (Prod.mk.inj (runs_done.mp runs).1).1
  | ok rows =>
      obtain ⟨rfl, complete⟩ := runs_allRows walked fun _ _ _ => Or.inr fun _ none_mem => by
        cases none_mem
      obtain ⟨reply, middle, reads, runs⟩ := runs_call.mp runs
      cases reply with
      | error error => cases (Prod.mk.inj (runs_done.mp runs).1).1
      | ok stored =>
          obtain ⟨rfl, -⟩ : middle = _ ∧ _ := reads
          simp only [planCheckoutAdmission] at runs
          cases judged : judgeCheckout admission.checkout rows with
          | conflict conflict =>
              rw [judged] at runs
              cases (Prod.mk.inj (runs_done.mp runs).1).1
          | unchanged =>
              rw [judged] at runs
              obtain ⟨result_eq, draft_eq⟩ := runs_done.mp runs
              obtain ⟨decision_eq, noted_eq⟩ := Prod.mk.inj result_eq
              exact ⟨noted_eq, Except.ok.inj decision_eq,
                .unchanged (congrArg Draft.ledger draft_eq)⟩
          | record =>
              rw [judged] at runs
              obtain ⟨reply, after, performed, runs⟩ := runs_call.mp runs
              cases reply with
              | error error => cases (Prod.mk.inj (runs_done.mp runs).1).1
              | ok seq =>
                  obtain ⟨-, event, ledger, stamps, -, appended, rfl⟩ := performed
                  obtain ⟨result_eq, draft_eq⟩ := runs_done.mp runs
                  obtain ⟨decision_eq, noted_eq⟩ := Prod.mk.inj result_eq
                  obtain rfl : drafted = ledger := congrArg Draft.ledger draft_eq
                  exact ⟨noted_eq, Except.ok.inj decision_eq,
                    .seen judged complete stamps appended⟩

/-- What a recorded policy step appended: nothing when the stored policy is the same, or its policy
when it was judged to differ. -/
inductive PolicyRecord.Decided (record : PolicyRecord) (port : Port) (command : Command)
    (before drafted : Ledger) (version : Nat) : Prop
  | unchanged (same : drafted = before)
      (judged : judgePolicy record.payload
        ((before.document policyView record.key).map Document.body) = .unchanged version)
  | recorded {event : Event}
      (judged : judgePolicy record.payload
        ((before.document policyView record.key).map Document.body) = .record)
      (stamps : Stamps command record.effectiveEvent before event)
      (version_eq : version = event.seq)
      (appended : before.append port.allProjectors event = .ok drafted)

theorem PolicyRecord.decided {record : PolicyRecord} {observed : Observed} {before drafted : Ledger}
    {failed : Bool} {decision : Decision} {noted : Noted}
    (runs : Script.Runs (Draft.Performs port command) (record.decide observed) ⟨before, false⟩
      (.ok decision, noted) ⟨drafted, failed⟩) :
    ∃ version, noted = .inForce version ∧ decision.observed = observed ∧ decision.git = none ∧
      record.Decided port command before drafted version := by
  obtain ⟨reply, middle, reads, runs⟩ := runs_call.mp runs
  cases reply with
  | error error => cases (Prod.mk.inj (runs_done.mp runs).1).1
  | ok now =>
      obtain ⟨rfl, rfl⟩ : middle = _ ∧ now = _ := reads
      dsimp only at runs
      cases judged : judgePolicy record.payload
          ((before.document policyView record.key).map Document.body) with
      | unchanged version =>
          rw [judged] at runs
          obtain ⟨result_eq, draft_eq⟩ := runs_done.mp runs
          obtain ⟨decision_eq, noted_eq⟩ := Prod.mk.inj result_eq
          obtain rfl := Except.ok.inj decision_eq
          exact ⟨version, noted_eq, rfl, rfl, .unchanged (congrArg Draft.ledger draft_eq) judged⟩
      | record =>
          rw [judged] at runs
          obtain ⟨reply, after, performed, runs⟩ := runs_call.mp runs
          cases reply with
          | error error => cases (Prod.mk.inj (runs_done.mp runs).1).1
          | ok seq =>
              obtain ⟨-, event, ledger, stamps, seq_eq, appended, rfl⟩ := performed
              obtain ⟨result_eq, draft_eq⟩ := runs_done.mp runs
              obtain ⟨decision_eq, noted_eq⟩ := Prod.mk.inj result_eq
              obtain rfl := Except.ok.inj decision_eq
              obtain rfl : drafted = ledger := congrArg Draft.ledger draft_eq
              exact ⟨seq, noted_eq, rfl, rfl, .recorded judged stamps seq_eq appended⟩

end Baley
