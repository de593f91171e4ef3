import Baley.Members
import Baley.Register
import Baley.Store.Committed
import Baley.Store.Written

/-!
# The requests a project keeps

The `request` view is a register of claims that hold scope tokens until they are completed, and the
`claim_scope` view is its directory.  Both are read off the documents, however deep their bodies nest.
-/

namespace Baley

open Json

/-- A claim that is not completed, and the reconciliation that holds it for the owner. -/
structure OpenRequest where
  doc : ClaimDoc
  heldAt : Option Nat

def OpenRequest.scope (request : OpenRequest) : List String :=
  request.doc.scope

def OpenRequest.seq (request : OpenRequest) : Nat :=
  request.doc.seq

/-- The requests of a project: open claims, and completed requests with their digest and outcome. -/
abbrev Requests := Register ClaimId OpenRequest (Hash × Outcome)

def RequestState.standing : RequestState → Standing OpenRequest (Hash × Outcome)
  | .claimed doc => .opened ⟨doc, none⟩
  | .awaitingOwner doc seq => .opened ⟨doc, some seq⟩
  | .completed digest outcome => .closed (digest, outcome)

/-- The key of a request's document. -/
def ClaimId.key (id : ClaimId) : DocKey :=
  [.text id.kind, .text id.requestId]

def Command.id (command : Command) : ClaimId where
  kind := command.kind
  requestId := command.requestId

theorem ClaimId.key_injective : Function.Injective ClaimId.key := by
  intro first second same
  cases first
  cases second
  simpa [ClaimId.key] using same

/-! ## What views show -/

/-- The bodies of the documents of each view. -/
abbrev Shown := String → DocKey → Option Value

/-- The body of a row, however deep it nests. -/
def DocumentRow.body? (row : DocumentRow) : Option Value :=
  readDocument (row.text.length + 1) row.text

/-- What a generation shows under staged changes. -/
def shownOver (documents : Documents) (generation : Nat) (staged : Staging) : Shown := fun view key =>
  match staged.lookup (view, key) with
  | some staged => staged.body.map canonicalForm
  | none => (documents.lookup (generation, view, key)).bind DocumentRow.body?

/-- What the live generation shows. -/
def ProjectRows.shown (rows : ProjectRows) : Shown :=
  shownOver rows.documents rows.liveGen ∅

/-- What the turn of a command shows. -/
def Work.shown (work : Work) : Shown :=
  shownOver work.rows.documents work.generation work.staged

/-- A row whose text was written for a body. -/
structure DocumentRow.Holds (row : DocumentRow) (body : Value) : Prop where
  wellFormed : body.WellFormed
  inDomain : InDomain body
  text_eq : row.text = String.ofList (compact body)

namespace DocumentRow.Holds

variable {row : DocumentRow} {body : Value}

theorem body?_eq (holds : row.Holds body) : row.body? = some (canonicalForm body) := by
  rw [body?, holds.text_eq, String.length_ofList]
  exact readDocument_compact holds.wellFormed holds.inDomain
    (Nat.lt_succ_of_le (nesting_le_length_compact body))

/-- A row that reads back at all reads back as its body. -/
theorem document_eq_ok (holds : row.Holds body) {key : DocKey} {document : Document}
    (read : row.document key = .ok document) : row.body? = some document.body := by
  rw [holds.body?_eq]
  unfold DocumentRow.document at read
  rw [holds.text_eq] at read
  by_cases nests : body.nesting < recursionLimit
  · rw [readDocument_compact holds.wellFormed holds.inDomain nests] at read
    obtain rfl := Except.ok.inj read
    rfl
  · rw [readDocument_compact_eq_none holds.wellFormed holds.inDomain (not_lt.mp nests)] at read
    cases read

end DocumentRow.Holds

namespace Shown

variable (shown : Shown)

/-- The requests the `request` view shows. -/
def requests : Requests := fun id =>
  (shown requestView id.key).bind fun body => (requestState body).map RequestState.standing

/-- The document of a token that a claim holds. -/
def holderBody (token : String) (held : ClaimId × Nat) : Value :=
  ClaimScopeProjector.holder token held.2 held.1.kind held.1.requestId

/-- Every document of the `request` view holds a state of its own request, and the `claim_scope` view is
the directory of the open claims: it has the document of each token they hold and no other. -/
structure Filed : Prop where
  stated : ∀ id body, shown requestView (ClaimId.key id) = some body → ∃ state, requestState body = some state
  named : ∀ id claim, shown.requests.Opens id claim → claim.doc.id = id
  directory : ∃ holder, Register.Directory OpenRequest.scope OpenRequest.seq shown.requests holder ∧
    ∀ token, shown claimScopeView [.text token] = (holder token).map (holderBody token)

variable {shown}

theorem Filed.exclusive (filed : shown.Filed) : Register.Exclusive OpenRequest.scope shown.requests := by
  obtain ⟨holder, directory, -⟩ := filed.directory
  exact directory.exclusive

theorem requests_eq {id : ClaimId} {body : Value} {state : RequestState}
    (found : shown requestView id.key = some body) (state_eq : requestState body = some state) :
    shown.requests id = some state.standing := by
  rw [requests, found, Option.bind_some, state_eq, Option.map_some]

theorem requests_eq_none {id : ClaimId} (found : shown requestView id.key = none) :
    shown.requests id = none := by
  rw [requests, found, Option.bind_none]

/-- What shows the same in the store's own views files the same requests. -/
theorem Filed.congr (filed : shown.Filed) {after : Shown} (scope_eq : after claimScopeView = shown claimScopeView)
    (request_eq : after requestView = shown requestView) : after.Filed ∧ after.requests = shown.requests := by
  have requests_eq : after.requests = shown.requests := by
    funext id
    rw [requests, requests, request_eq]
  refine ⟨⟨request_eq ▸ filed.stated, requests_eq ▸ filed.named, ?_⟩, requests_eq⟩
  rw [requests_eq, scope_eq]
  exact filed.directory

/-- A token of an open claim is shown to be held by it. -/
theorem Filed.holder_eq (filed : shown.Filed) {id : ClaimId} {claim : OpenRequest}
    (opens : shown.requests.Opens id claim) {token : String} (token_mem : token ∈ claim.doc.scope) :
    shown claimScopeView [.text token] = some (holderBody token (id, claim.doc.seq)) := by
  obtain ⟨holder, directory, shows⟩ := filed.directory
  rw [shows, (directory.holds_iff token id _).mpr ⟨claim, opens, token_mem, rfl⟩, Option.map_some]
  rfl

/-- Putting a document that holds a state of its own request, with the directory kept in step, files the
request in that state. -/
theorem Filed.put (filed : shown.Filed) {after : Shown} {id : ClaimId} {body : Value} {state : RequestState}
    (shows : ∀ key, after requestView key = if key = id.key then some body else shown requestView key)
    (state_eq : requestState body = some state)
    (names : ∀ claim, state.standing = .opened claim → claim.doc.id = id)
    {holder : String → Option (ClaimId × Nat)}
    (directory : Register.Directory OpenRequest.scope OpenRequest.seq (shown.requests.put id state.standing)
      holder)
    (tokens : ∀ token, after claimScopeView [.text token] = (holder token).map (holderBody token)) :
    after.Filed ∧ after.requests = shown.requests.put id state.standing := by
  have requests_eq : after.requests = shown.requests.put id state.standing := by
    funext other
    rw [Register.put_apply, requests, shows]
    by_cases same : other = id
    · rw [same, if_pos rfl, if_pos rfl, Option.bind_some, state_eq, Option.map_some]
    · rw [if_neg (ClaimId.key_injective.ne same), if_neg same, requests]
  refine ⟨⟨fun other found found_eq => ?_, fun other claim opens => ?_, holder, ?_, tokens⟩, requests_eq⟩
  · rw [shows] at found_eq
    split_ifs at found_eq
    · exact ⟨state, Option.some.inj found_eq ▸ state_eq⟩
    · exact filed.stated other found found_eq
  · rw [Register.Opens, requests_eq, Register.put_apply] at opens
    split_ifs at opens with same
    · rw [same]
      exact names claim (Option.some.inj opens)
    · exact filed.named other claim opens
  · rw [requests_eq]
    exact directory

end Shown

/-! ## Reading a project's own views -/

/-- The views the store keeps for itself. -/
def ownViews : List String := [claimScopeView, requestView]

/-- The documents of a view were written for bodies, and what is staged can be. -/
structure SoundOver (documents : Documents) (generation : Nat) (staged : Staging) (view : String) : Prop where
  stored : ∀ key row, documents.lookup (generation, view, key) = some row → ∃ body, row.Holds body
  changed : ∀ key change body, staged.lookup (view, key) = some change → change.body = some body →
    body.WellFormed

/-- The store's own documents of a project are sound and file its requests. -/
structure ProjectRows.Filed (rows : ProjectRows) : Prop where
  sound : ∀ view ∈ ownViews, SoundOver rows.documents rows.liveGen ∅ view
  filed : rows.shown.Filed

def ProjectRows.requests (rows : ProjectRows) : Requests :=
  rows.shown.requests

variable {store : Store} {rows : ProjectRows}

theorem getDocument_eq_ok {spec : ViewSpec} {documents : Documents} {generation : Nat} {key : DocKey}
    {found : Option Document} (read : getDocument spec documents generation key = .ok found) :
    (documents.lookup (generation, spec.name, key) = none → found = none) ∧
      ∀ row, documents.lookup (generation, spec.name, key) = some row →
        ∃ document, found = some document ∧ row.document key = .ok document := by
  simp only [getDocument, Except.bind_eq_ok] at read
  obtain ⟨_, -, read⟩ := read
  cases looked : documents.lookup (generation, spec.name, key) with
  | none =>
      rw [looked] at read
      exact ⟨fun _ => (Except.ok.inj read).symm, by simp⟩
  | some row =>
      rw [looked] at read
      obtain ⟨document, document_eq, rfl⟩ := Except.map_eq_ok.mp read
      exact ⟨by simp, fun other other_eq => ⟨document, rfl, Option.some.inj other_eq ▸ document_eq⟩⟩

/-- A document reads as its view shows it. -/
theorem SoundOver.getDocument_eq (spec : ViewSpec) {documents : Documents} {generation : Nat}
    {staged : Staging} (sound : SoundOver documents generation staged spec.name) {key : DocKey}
    (unstaged : staged.lookup (spec.name, key) = none) {found : Option Document}
    (read : getDocument spec documents generation key = .ok found) :
    shownOver documents generation staged spec.name key = found.map Document.body := by
  have looked := getDocument_eq_ok read
  unfold shownOver
  rw [unstaged]
  cases lookup_eq : documents.lookup (generation, spec.name, key) with
  | none =>
      rw [looked.1 lookup_eq]
      rfl
  | some row =>
      obtain ⟨document, rfl, document_eq⟩ := looked.2 row lookup_eq
      obtain ⟨body, holds⟩ := sound.stored key row lookup_eq
      exact holds.document_eq_ok document_eq

theorem table_request : store.table requestView = .ok requestSpec := by
  unfold Store.table Store.allProjectors
  rw [List.find?_cons_of_neg (by decide), List.find?_cons_of_pos (by decide)]
  rfl

theorem table_claimScope : store.table claimScopeView = .ok claimScopeSpec := by
  unfold Store.table Store.allProjectors
  rw [List.find?_cons_of_pos (by decide)]
  rfl

/-- A request is looked up as the `request` view shows it. -/
theorem ProjectRows.Filed.lookupRequest_eq (filed : rows.Filed) {id : ClaimId} {found : Option Document}
    (looked : store.lookupRequest rows id = .ok found) :
    rows.shown requestView id.key = found.map Document.body := by
  rw [Store.lookupRequest, table_request] at looked
  exact (filed.sound requestView (by decide)).getDocument_eq requestSpec rfl looked

/-! ## Each view folds by itself

Folding an event changes a view only through its own projector, which is given what the view shows; what
was staged shows as it is once it is written.
-/

/-- The bodies a projector is given: what its view shows at the keys it names. -/
structure Given (shows : DocKey → Option Value) (keys : List DocKey) (given : List (DocKey × Value)) :
    Prop where
  shown : ∀ found ∈ given, shows found.1 = some (canonicalForm found.2) ∧ found.2.WellFormed
  all : ∀ key ∈ keys, ∀ body, shows key = some body →
    ∃ found ∈ given, found.1 = key ∧ canonicalForm found.2 = body

/-- Changes were made to what a view shows; changes of one key that agree leave their body. -/
structure Changed (changes : List Change) (before after : DocKey → Option Value) : Prop where
  rest : ∀ key, key ∉ changes.map Change.key → after key = before key
  made : ∀ change ∈ changes, (∀ other ∈ changes, other.key = change.key → other.body = change.body) →
    after change.key = change.body.map canonicalForm

theorem Changed.put {key : DocKey} {body : Value} {before after : DocKey → Option Value}
    (changed : Changed [.put key body] before after) (other : DocKey) :
    after other = if other = key then some (canonicalForm body) else before other := by
  split_ifs with same
  · rw [same]
    exact changed.made (.put key body) (by simp) (by simp)
  · exact changed.rest other (by simpa [Change.key] using same)

section Staging

variable {view : String} {seq : Nat} {staged : Staging}

theorem lookup_foldl_stage_of_ne {changes : List Change} {name : String × DocKey}
    (differs : ∀ change ∈ changes, name ≠ (view, change.key)) :
    (changes.foldl (Store.stage view seq) staged).lookup name = staged.lookup name := by
  induction changes generalizing staged with
  | nil => rfl
  | cons change changes ih =>
      rw [List.foldl_cons, ih fun other other_mem => differs other (List.mem_cons_of_mem _ other_mem),
        Store.stage, Table.lookup_put, if_neg (differs change List.mem_cons_self)]

/-- What stands at a key was there, or a change left it. -/
theorem lookup_foldl_stage_cases (changes : List Change) (staged : Staging) (name : String × DocKey) :
    (changes.foldl (Store.stage view seq) staged).lookup name = staged.lookup name ∨
      ∃ change ∈ changes, (changes.foldl (Store.stage view seq) staged).lookup name =
        some { body := change.body, producedSeq := seq } := by
  induction changes generalizing staged with
  | nil => exact .inl rfl
  | cons head changes ih =>
      rw [List.foldl_cons]
      rcases ih (Store.stage view seq staged head) with kept | ⟨change, change_mem, left⟩
      · rw [kept, Store.stage, Table.lookup_put]
        split_ifs
        · exact .inr ⟨head, List.mem_cons_self, rfl⟩
        · exact .inl rfl
      · exact .inr ⟨change, List.mem_cons_of_mem _ change_mem, left⟩

/-- Changes of one key that agree leave what they agree on. -/
theorem lookup_foldl_stage {changes : List Change} {change : Change} (change_mem : change ∈ changes)
    (agree : ∀ other ∈ changes, other.key = change.key → other.body = change.body) :
    (changes.foldl (Store.stage view seq) staged).lookup (view, change.key) =
      some { body := change.body, producedSeq := seq } := by
  induction changes generalizing staged change with
  | nil => exact absurd change_mem List.not_mem_nil
  | cons head changes ih =>
      rw [List.foldl_cons]
      by_cases again : ∃ other ∈ changes, other.key = change.key
      · obtain ⟨other, other_mem, key_eq⟩ := again
        have body_eq := agree other (List.mem_cons_of_mem _ other_mem) key_eq
        rw [← key_eq, ← body_eq]
        refine ih other_mem fun third third_mem third_eq => ?_
        rw [body_eq]
        exact agree third (List.mem_cons_of_mem _ third_mem) (third_eq.trans key_eq)
      · have at_head : change = head :=
          (List.mem_cons.mp change_mem).resolve_right fun mem => again ⟨change, mem, rfl⟩
        rw [lookup_foldl_stage_of_ne, Store.stage, Table.lookup_put, at_head, if_pos rfl]
        intro other other_mem same
        exact again ⟨other, other_mem, (Prod.mk.inj same).2.symm⟩

theorem changed_foldl_stage (documents : Documents) (generation : Nat) (changes : List Change) :
    Changed changes (shownOver documents generation staged view)
      (shownOver documents generation (changes.foldl (Store.stage view seq) staged) view) where
  rest key absent := by
    unfold shownOver
    rw [lookup_foldl_stage_of_ne]
    intro change change_mem same
    exact absent (List.mem_map.mpr ⟨change, change_mem, (Prod.mk.inj same).2.symm⟩)
  made change change_mem agree := by
    unfold shownOver
    rw [lookup_foldl_stage change_mem agree]

end Staging

/-! ## Folding an event -/

section Folding

variable {documents : Documents} {generation : Nat} {event : Event} {staged after : Staging}
  {projector : Projector}

/-- A projector is given what its view shows. -/
theorem SoundOver.currentBody_eq {spec : ViewSpec}
    (sound : SoundOver documents generation staged spec.name) {key : DocKey} {body : Option Value}
    (current : Store.currentBody documents generation staged spec key = .ok body) :
    shownOver documents generation staged spec.name key = body.map canonicalForm ∧
      ∀ held, body = some held → held.WellFormed := by
  unfold Store.currentBody at current
  cases lookup_eq : staged.lookup (spec.name, key) with
  | some change =>
      rw [lookup_eq] at current
      obtain rfl := Except.ok.inj current
      refine ⟨?_, fun held held_eq => sound.changed key change held lookup_eq held_eq⟩
      unfold shownOver
      rw [lookup_eq]
  | none =>
      rw [lookup_eq] at current
      obtain ⟨found, read, rfl⟩ := Except.map_eq_ok.mp current
      have shows := sound.getDocument_eq spec lookup_eq read
      have looked := getDocument_eq_ok read
      cases stored : documents.lookup (generation, spec.name, key) with
      | none =>
          rw [looked.1 stored] at shows ⊢
          exact ⟨shows, by simp⟩
      | some row =>
          obtain ⟨document, rfl, document_eq⟩ := looked.2 row stored
          obtain ⟨value, holds⟩ := sound.stored key row stored
          have body_eq : document.body = canonicalForm value :=
            Option.some.inj ((holds.document_eq_ok document_eq).symm.trans holds.body?_eq)
          rw [shows, Option.map_some, Option.map_some, body_eq, canonicalForm_idem holds.inDomain]
          refine ⟨rfl, fun held held_eq => ?_⟩
          rw [← Option.some.inj held_eq]
          exact wellFormed_canonicalForm holds.wellFormed

theorem SoundOver.given (sound : SoundOver documents generation staged projector.spec.name)
    {keys : List DocKey} {bodies : List (Option (DocKey × Value))}
    (read : (keys.mapM fun key => do
      let body ← Store.currentBody documents generation staged projector.spec key
      Except.ok (ε := StoreError) (body.map fun body => (key, body))) = .ok bodies) :
    Given (shownOver documents generation staged projector.spec.name) keys (bodies.filterMap id) := by
  induction keys generalizing bodies with
  | nil =>
      obtain rfl := Except.ok.inj read
      exact ⟨by simp, by simp⟩
  | cons key keys ih =>
      simp only [List.mapM_cons, Except.bind_eq_ok, Except.ok.injEq, pure, Except.pure] at read
      obtain ⟨_, ⟨body, current, rfl⟩, rest, rest_eq, rfl⟩ := read
      obtain ⟨shows, wellFormed⟩ := sound.currentBody_eq current
      have tail := ih rest_eq
      cases body with
      | none =>
          refine ⟨tail.shown, fun other other_mem held held_eq => ?_⟩
          rcases List.mem_cons.mp other_mem with rfl | other_mem
          · rw [shows] at held_eq
            cases held_eq
          · exact tail.all other other_mem held held_eq
      | some body =>
          constructor
          · intro found found_mem
            rcases List.mem_cons.mp found_mem with rfl | found_mem
            · exact ⟨shows, wellFormed body rfl⟩
            · exact tail.shown found found_mem
          · intro other other_mem held held_eq
            rcases List.mem_cons.mp other_mem with rfl | other_mem
            · rw [shows] at held_eq
              exact ⟨(other, body), List.mem_cons_self, rfl, Option.some.inj held_eq⟩
            · obtain ⟨found, found_mem, found_eq⟩ := tail.all other other_mem held held_eq
              exact ⟨found, List.mem_cons_of_mem _ found_mem, found_eq⟩

/-- A projector changes its own view only. -/
theorem foldOne_lookup_of_ne (folded : Store.foldOne documents generation event staged projector = .ok after)
    {view : String} (differs : view ≠ projector.spec.name) (key : DocKey) :
    after.lookup (view, key) = staged.lookup (view, key) := by
  unfold Store.foldOne at folded
  split_ifs at folded with handled
  · simp only [Except.bind_eq_ok, Except.ok.injEq] at folded
    obtain ⟨bodies, -, changes, -, rfl⟩ := folded
    exact lookup_foldl_stage_of_ne fun change _ same => differs (Prod.mk.inj same).1
  · obtain rfl := Except.ok.inj folded
    rfl

theorem foldlM_foldOne_lookup_of_ne {projectors : List Projector} {view : String}
    (differs : view ∉ projectors.map fun projector => projector.spec.name)
    (folded : projectors.foldlM (Store.foldOne documents generation event) staged = .ok after)
    (key : DocKey) : after.lookup (view, key) = staged.lookup (view, key) := by
  induction projectors generalizing staged with
  | nil =>
      obtain rfl := Except.ok.inj folded
      rfl
  | cons head projectors ih =>
      rw [List.foldlM_cons, Except.bind_eq_ok] at folded
      obtain ⟨next, head_folded, rest_folded⟩ := folded
      rw [List.map_cons, List.mem_cons, not_or] at differs
      rw [ih differs.2 rest_folded, foldOne_lookup_of_ne head_folded differs.1]

/-- Among projectors of different views, one reads and changes its view as if it were alone. -/
theorem foldlM_foldOne {projectors : List Projector}
    (distinct : (projectors.map fun projector => projector.spec.name).Nodup)
    (projector_mem : projector ∈ projectors)
    (folded : projectors.foldlM (Store.foldOne documents generation event) staged = .ok after) :
    ∃ before middle, Store.foldOne documents generation event before projector = .ok middle ∧
      (∀ key, before.lookup (projector.spec.name, key) = staged.lookup (projector.spec.name, key)) ∧
      ∀ key, after.lookup (projector.spec.name, key) = middle.lookup (projector.spec.name, key) := by
  induction projectors generalizing staged with
  | nil => exact absurd projector_mem List.not_mem_nil
  | cons head projectors ih =>
      rw [List.foldlM_cons, Except.bind_eq_ok] at folded
      obtain ⟨next, head_folded, rest_folded⟩ := folded
      rw [List.map_cons, List.nodup_cons] at distinct
      rcases List.mem_cons.mp projector_mem with rfl | projector_mem
      · exact ⟨staged, next, head_folded, fun _ => rfl, foldlM_foldOne_lookup_of_ne distinct.1 rest_folded⟩
      · obtain ⟨before, middle, folded_eq, before_eq, after_eq⟩ := ih distinct.2 projector_mem rest_folded
        refine ⟨before, middle, folded_eq, fun key => ?_, after_eq⟩
        have differs : projector.spec.name ≠ head.spec.name := fun same =>
          distinct.1 (List.mem_map.mpr ⟨projector, projector_mem, same⟩)
        rw [before_eq, foldOne_lookup_of_ne head_folded differs]

theorem SoundOver.congr {staged' : Staging} {view : String}
    (sound : SoundOver documents generation staged view)
    (same : ∀ key, staged'.lookup (view, key) = staged.lookup (view, key)) :
    SoundOver documents generation staged' view where
  stored := sound.stored
  changed key change body changed_eq := sound.changed key change body (same key ▸ changed_eq)

theorem shownOver_congr {staged' : Staging} {view : String}
    (same : ∀ key, staged'.lookup (view, key) = staged.lookup (view, key)) :
    shownOver documents generation staged' view = shownOver documents generation staged view := by
  funext key
  unfold shownOver
  rw [same]

/-- What folding an event did to the view of one projector. -/
inductive Folds (projector : Projector) (event : Event) (documents : Documents) (generation : Nat)
    (staged after : Staging) : Prop
  | unhandled (other : projector.handles.contains event.typeName = false)
      (same : ∀ key, after.lookup (projector.spec.name, key) = staged.lookup (projector.spec.name, key))
  | handled {given : List (DocKey × Value)} {changes : List Change}
      (handles : projector.handles.contains event.typeName = true)
      (read : Given (shownOver documents generation staged projector.spec.name) (projector.keys event) given)
      (applied : projector.apply event given = .ok changes)
      (changed : Changed changes (shownOver documents generation staged projector.spec.name)
        (shownOver documents generation after projector.spec.name))
      (sound : (∀ change ∈ changes, ∀ body, change.body = some body → body.WellFormed) →
        SoundOver documents generation after projector.spec.name)

theorem Store.fold_eq_ok {store : Store} (projector_mem : projector ∈ store.allProjectors)
    (sound : SoundOver documents generation staged projector.spec.name)
    (folded : store.fold documents generation event staged = .ok after) :
    Folds projector event documents generation staged after := by
  obtain ⟨before, middle, folded_eq, before_eq, after_eq⟩ :=
    foldlM_foldOne store.views_nodup projector_mem folded
  have before_sound := sound.congr before_eq
  unfold Store.foldOne at folded_eq
  split_ifs at folded_eq with handled
  · simp only [Except.bind_eq_ok, Except.mapError_eq_ok, Except.ok.injEq] at folded_eq
    obtain ⟨bodies, read, changes, applied, rfl⟩ := folded_eq
    refine .handled handled ?_ applied ?_ fun wellFormed => ?_
    · rw [← shownOver_congr before_eq]
      exact before_sound.given read
    · rw [← shownOver_congr before_eq, shownOver_congr after_eq]
      exact changed_foldl_stage documents generation changes
    · refine SoundOver.congr ⟨sound.stored, fun key change body changed_eq body_eq => ?_⟩ after_eq
      rcases lookup_foldl_stage_cases changes before (projector.spec.name, key) with kept | ⟨made, made_mem, left⟩
      · rw [kept] at changed_eq
        exact before_sound.changed key change body changed_eq body_eq
      · rw [left] at changed_eq
        obtain rfl := Option.some.inj changed_eq
        exact wellFormed made made_mem body body_eq
  · obtain rfl := Except.ok.inj folded_eq
    exact .unhandled (by simpa using handled) fun key => (after_eq key).trans (before_eq key)

end Folding

/-! ## Writing what was staged -/

section Writing

variable {store : Store} {documents after : Documents} {generation : Nat} {view : String} {spec : ViewSpec}

/-- What a staged change leaves at its key. -/
def Leaves (spec : ViewSpec) (key : DocKey) (change : Staged) (row : Option DocumentRow) : Prop :=
  match change.body with
  | none => row = none
  | some body => ∃ written, spec.row key body change.producedSeq = .ok written ∧ row = some written

theorem writeOne_eq_ok {change : (String × DocKey) × Staged}
    (written : store.writeOne generation documents change = .ok after) :
    ∃ spec, store.table change.1.1 = .ok spec ∧
      Leaves spec change.1.2 change.2 (after.lookup (generation, spec.name, change.1.2)) ∧
      ∀ name, name ≠ (generation, spec.name, change.1.2) → after.lookup name = documents.lookup name := by
  simp only [Store.writeOne, writeChange, Except.bind_eq_ok] at written
  obtain ⟨spec, spec_eq, _, -, written⟩ := written
  refine ⟨spec, spec_eq, ?_⟩
  unfold Leaves
  cases body_eq : change.2.body with
  | none =>
      rw [body_eq] at written
      obtain rfl := Except.ok.inj written
      exact ⟨by simp, fun name differs => AList.lookup_erase_ne differs⟩
  | some body =>
      rw [body_eq] at written
      simp only [Except.bind_eq_ok, Except.ok.injEq] at written
      obtain ⟨row, row_eq, rfl⟩ := written
      exact ⟨⟨row, row_eq, by simp⟩, fun name differs => AList.lookup_insert_ne differs⟩

theorem name_of_table (declared : store.table view = .ok spec) : spec.name = view := by
  unfold Store.table at declared
  split at declared
  · next projector found =>
      obtain rfl := Except.ok.inj declared
      simpa using List.find?_some found
  · cases declared

/-- Each change is written at its own key, and nothing else of its view is touched. -/
theorem foldlM_writeOne {changes : List ((String × DocKey) × Staged)}
    (distinct : (changes.map Prod.fst).Nodup) (declared : store.table view = .ok spec)
    (written : changes.foldlM (store.writeOne generation) documents = .ok after) (key : DocKey) :
    (∀ change, ((view, key), change) ∈ changes → Leaves spec key change (after.lookup (generation, view, key))) ∧
      ((view, key) ∉ changes.map Prod.fst →
        after.lookup (generation, view, key) = documents.lookup (generation, view, key)) := by
  induction changes generalizing documents with
  | nil =>
      obtain rfl := Except.ok.inj written
      exact ⟨fun _ mem => absurd mem List.not_mem_nil, fun _ => rfl⟩
  | cons head changes ih =>
      rw [List.foldlM_cons, Except.bind_eq_ok] at written
      obtain ⟨middle, head_written, rest_written⟩ := written
      rw [List.map_cons, List.nodup_cons] at distinct
      obtain ⟨changed, kept⟩ := ih distinct.2 rest_written
      obtain ⟨own, own_declared, leaves, rest⟩ := writeOne_eq_ok head_written
      have own_name := name_of_table own_declared
      constructor
      · intro change change_mem
        rcases List.mem_cons.mp change_mem with rfl | change_mem
        · rw [kept distinct.1]
          simp only at own_declared leaves own_name
          rw [declared] at own_declared
          obtain rfl := Except.ok.inj own_declared
          rwa [own_name] at leaves
        · exact changed change change_mem
      · intro absent
        rw [List.map_cons, List.mem_cons, not_or] at absent
        rw [kept absent.2, rest]
        intro same
        obtain ⟨-, same⟩ := Prod.mk.inj same
        obtain ⟨view_eq, key_eq⟩ := Prod.mk.inj same
        exact absent.1 (Prod.ext (view_eq.trans own_name) key_eq)

/-- A written row holds the body it was written for. -/
theorem holds_of_row {key : DocKey} {body : Value} {seq : Nat} {row : DocumentRow}
    (written : spec.row key body seq = .ok row) (wellFormed : body.WellFormed) : row.Holds body := by
  simp only [ViewSpec.row, Except.bind_eq_ok, Except.mapError_eq_ok, Except.ok.injEq] at written
  obtain ⟨_, -, columns, -, _, -, text, text_eq, rfl⟩ := written
  obtain ⟨inDomain, text_eq⟩ := canonicalText_eq_ok_iff.mp text_eq
  exact ⟨wellFormed, inDomain, text_eq⟩

/-- What was staged in a view is stored and shows as it did. -/
theorem SoundOver.written {staged : Staging} (sound : SoundOver documents generation staged view)
    (declared : store.table view = .ok spec)
    (written : store.writeStaged generation staged documents = .ok after) :
    SoundOver after generation ∅ view ∧
      shownOver after generation ∅ view = shownOver documents generation staged view := by
  have at_key (key : DocKey) := foldlM_writeOne (Table.nodup_rows staged) declared written key
  have held (key : DocKey) : (∀ row, after.lookup (generation, view, key) = some row → ∃ body, row.Holds body) ∧
      (after.lookup (generation, view, key)).bind DocumentRow.body? =
        shownOver documents generation staged view key := by
    obtain ⟨changed, kept⟩ := at_key key
    unfold shownOver
    cases lookup_eq : staged.lookup (view, key) with
    | none =>
        have absent : (view, key) ∉ (Table.rows staged).map Prod.fst := by
          rintro mem
          obtain ⟨⟨_, change⟩, row_mem, rfl⟩ := List.mem_map.mp mem
          rw [Table.mem_rows.mp row_mem] at lookup_eq
          cases lookup_eq
        rw [kept absent]
        exact ⟨sound.stored key, rfl⟩
    | some change =>
        have leaves := changed change (Table.mem_rows.mpr lookup_eq)
        unfold Leaves at leaves
        cases body_eq : change.body with
        | none =>
            rw [body_eq] at leaves
            rw [show after.lookup (generation, view, key) = none from leaves]
            exact ⟨by simp, by simp [body_eq]⟩
        | some body =>
            rw [body_eq] at leaves
            obtain ⟨row, row_eq, found⟩ := leaves
            have holds := holds_of_row row_eq (sound.changed key change body lookup_eq body_eq)
            rw [found]
            refine ⟨fun other other_eq => ⟨body, Option.some.inj other_eq ▸ holds⟩, ?_⟩
            simp [body_eq, holds.body?_eq]
  refine ⟨⟨fun key => (held key).1, fun key change body found => by simp at found⟩, ?_⟩
  funext key
  rw [← (held key).2]
  rfl

end Writing

end Baley
