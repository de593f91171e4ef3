import Baley.Plan.Leaves
import Baley.Request

/-!
# Plan drafts

The body of a draft is the plan exactly as submitted with its kind, and for a replacement the plan it
replaces.  The body that was written reads back as the plan and the binding, so the digest of a body
names the plan and the binding alone.
-/

namespace Json.Members

/-- Take the member of a key out. -/
def remove (key : String) (members : Members) : Members :=
  members.filter fun member => decide (member.1 ≠ key)

theorem sorted_remove {members : Members} (sorted : Sorted members) (key : String) :
    Sorted (remove key members) :=
  sorted.sublist List.filter_sublist

@[simp]
theorem lookup_remove (key key' : String) (members : Members) :
    lookup key' (remove key members) = if key' = key then none else lookup key' members := by
  induction members with
  | nil => simp [remove]
  | cons head tail ih =>
      rw [remove, List.filter_cons]
      split_ifs with kept same same
      · rw [lookup_cons, if_neg]
        · exact ih.trans (if_pos same)
        · rintro rfl
          exact of_decide_eq_true kept same
      · rw [lookup_cons, lookup_cons]
        split_ifs with at_head
        · rfl
        · exact ih.trans (if_neg same)
      · exact ih.trans (if_pos same)
      · have head_eq : head.1 = key := by simpa using kept
        rw [lookup_cons, if_neg (head_eq ▸ same)]
        exact ih.trans (if_neg same)

end Json.Members

namespace Baley

open Json

/-- The approved plan that a replacement draft replaces. -/
structure Replaces where
  /-- The replaced plan's number, in 32 bits. -/
  plan : Nat
  /-- The digest the replaced plan was approved at. -/
  digest : Hash
  fits : plan ≤ maxU32
  deriving DecidableEq

def Replaces.toValue (replaces : Replaces) : Value :=
  .ofEntries [("plan", .ofNat replaces.plan), ("digest", .string replaces.digest.toHex)]

/-- A plan draft built from an accepted plan. -/
structure PlanDraft where
  body : List UInt8
  digest : Hash
  target : String
  deriving DecidableEq

/-- A recorded plan draft body read back. -/
structure RecordedPlan where
  /-- The plan's members as submitted, without the kind and the binding. -/
  plan : Value
  replaces : Option Replaces

namespace Plan

def planKind : String := "plan"

/-- The body of a draft. -/
def draftBody (submitted : Members) (replaces : Option Replaces) : Members :=
  let body := submitted.insert "kind" (.string planKind)
  match replaces with
  | none => body
  | some replaces => body.insert "replaces" replaces.toValue

/-- Build the draft of a plan.  The source panics where this is an error. -/
def build (sha256 : List UInt8 → Hash) (plan : Plan) (replaces : Option Replaces) :
    Except CanonicalError PlanDraft := do
  let value := Value.object (draftBody plan.submitted replaces)
  let digest ← requestDigest sha256 value
  let body ← canonicalJson value
  .ok { body, digest, target := "phase/" ++ plan.phase.repr }

/-- A digest written in lower-case hex digits. -/
def lowercaseDigest (value : Option Value) : Option Hash :=
  (value.bind Value.asStr).bind fun text =>
    if text.toList.all fun c => c.isDigit || ('a' ≤ c && c ≤ 'f') then Hash.fromHex text else none

/-- The binding of a draft: an object of the two members and no other. -/
def readReplaces (binding : Value) : Option Replaces :=
  binding.asObject.bind fun members =>
    if members.any fun member => decide (member.1 ∉ ["plan", "digest"]) then none
    else
      match number : counter (members.lookup "plan"), lowercaseDigest (members.lookup "digest") with
      | some plan, some digest =>
          some { plan, digest, fits := by
                  obtain ⟨held, -, counted⟩ := counter_eq_some.mp number
                  exact counted.2.2 }
      | _, _ => none

/-- Read the body of a plan draft. -/
def readPlanDraft (body : Value) : Option RecordedPlan :=
  body.asObject.bind fun members =>
    if members.lookup "kind" == some (.string planKind) then
      let plan := members.remove "kind"
      match plan.lookup "replaces" with
      | none => some { plan := .object plan, replaces := none }
      | some binding =>
          (readReplaces binding).map fun replaces =>
            { plan := .object (plan.remove "replaces"), replaces := some replaces }
    else none

/-! ## What is written as a binding -/

theorem toHex_lowercase (hash : Hash) :
    (hash.toHex.toList.all fun c => c.isDigit || ('a' ≤ c && c ≤ 'f')) = true := by
  rw [List.all_eq_true]
  exact hash.forall_mem_toHex (by decide)

theorem readReplaces_eq_some {binding : Value} {replaces : Replaces} :
    readReplaces binding = some replaces ↔
      ∃ members : Members, binding = .object members ∧ Within ["plan", "digest"] members ∧
        counter (members.lookup "plan") = some replaces.plan ∧
        lowercaseDigest (members.lookup "digest") = some replaces.digest := by
  cases binding with
  | object members =>
      have any_iff : (members.any fun member => decide (member.1 ∉ ["plan", "digest"])) = false ↔
          Within ["plan", "digest"] members := by
        rw [List.any_eq_false]
        exact forall₂_congr fun member _ => by rw [decide_eq_true_eq, not_not]
      simp only [readReplaces, Value.asObject_object, Option.bind_some, Value.object.injEq, exists_eq_left',
        ← any_iff]
      split_ifs with other_member
      · refine iff_of_false (by simp) ?_
        rintro ⟨no_other, -⟩
        rw [other_member] at no_other
        cases no_other
      · rw [Bool.not_eq_true] at other_member
        split
        · rename_i plan digest number digest_eq
          obtain ⟨plan', digest', fits⟩ := replaces
          simp only [Option.some.injEq, Replaces.mk.injEq, other_member, true_and, number, digest_eq]
        · rename_i unread
          refine iff_of_false (by simp) ?_
          rintro ⟨-, number, digest_eq⟩
          exact unread _ _ number digest_eq
  | _ => simp [readReplaces, Value.asObject]

/-- A binding reads back when it names a plan by a number from 1. -/
theorem readReplaces_toValue (replaces : Replaces) :
    readReplaces replaces.toValue = if 1 ≤ replaces.plan then some replaces else none := by
  have wide : replaces.plan < 2 ^ 64 := lt_of_le_of_lt replaces.fits (by decide)
  have plan_eq : (Members.ofEntries [("plan", .ofNat replaces.plan),
      ("digest", .string replaces.digest.toHex)]).lookup "plan" = some (.ofNat replaces.plan) := by simp
  have digest_eq : (Members.ofEntries [("plan", .ofNat replaces.plan),
      ("digest", .string replaces.digest.toHex)]).lookup "digest" = some (.string replaces.digest.toHex) := by
    simp
  split_ifs with positive
  · rw [readReplaces_eq_some]
    refine ⟨_, rfl, fun member member_mem => ?_, ?_, ?_⟩
    · have entry_mem := Members.mem_ofEntries member_mem
      simp only [List.mem_cons, List.not_mem_nil, or_false] at entry_mem
      rcases entry_mem with rfl | rfl <;> simp
    · rw [plan_eq, counter_eq_some]
      exact ⟨_, rfl, Value.asU64_ofNat wide, positive, replaces.fits⟩
    · simp only [digest_eq, lowercaseDigest, Option.bind_some, Value.asStr_string, toHex_lowercase, if_true,
        Hash.fromHex_toHex]
  · rw [Option.eq_none_iff_forall_ne_some]
    intro other read
    obtain ⟨members, same, -, number, -⟩ := readReplaces_eq_some.mp read
    cases same
    rw [plan_eq, counter_eq_some] at number
    obtain ⟨held, same, read_eq, other_positive, -⟩ := number
    cases same
    rw [Value.asU64_ofNat wide] at read_eq
    exact positive (Option.some.inj read_eq ▸ other_positive)

/-! ## What is written as a draft -/

/-- A JSON value that the judge accepts as a plan. -/
structure Accepted (isAlphanumeric : Char → Bool) (submitted : Value) (facts : PlanFacts) (plan : Plan) :
    Prop where
  wellFormed : submitted.WellFormed
  json : IsJson submitted
  judged : judgePlan isAlphanumeric submitted facts = .ok plan

/-- The number that a binding names is one that a plan has. -/
def Numbered (replaces : Option Replaces) : Prop :=
  ∀ binding ∈ replaces, 1 ≤ binding.plan

variable {isAlphanumeric : Char → Bool} {submitted : Value} {facts : PlanFacts} {plan : Plan}

theorem Accepted.read_eq (accepted : Accepted isAlphanumeric submitted facts plan) :
    read submitted = .ok plan := by
  have judged := accepted.judged
  simp only [judgePlan, Except.bind_eq_ok, Except.ok.injEq] at judged
  obtain ⟨_, read_eq, -, -, -, -, -, -, -, -, -, -, -, -, -, -, -, -, -, -, -, -, -, -, -, -, rfl⟩ := judged
  exact read_eq

theorem Accepted.object_eq (accepted : Accepted isAlphanumeric submitted facts plan) :
    submitted = .object plan.submitted :=
  (read_eq_ok.mp accepted.read_eq).1.object_eq

theorem Accepted.leaves (accepted : Accepted isAlphanumeric submitted facts plan) : Leaves 5 submitted := by
  obtain ⟨written, passed⟩ := read_eq_ok.mp accepted.read_eq
  exact written.leaves accepted.wellFormed passed

theorem Accepted.sorted (accepted : Accepted isAlphanumeric submitted facts plan) : plan.submitted.Sorted := by
  have wellFormed := accepted.wellFormed
  rw [accepted.object_eq] at wellFormed
  cases wellFormed with
  | object sorted => exact sorted

/-- A plan has no member of a name that is not a plan's. -/
theorem Accepted.lookup_eq_none (accepted : Accepted isAlphanumeric submitted facts plan) {name : String}
    (not_member : name ∉ members) : plan.submitted.lookup name = none := by
  rw [Members.lookup_eq_none_iff]
  intro held
  obtain ⟨member, member_mem, rfl⟩ := List.mem_map.mp held
  exact not_member ((read_eq_ok.mp accepted.read_eq).1.within member member_mem)

theorem sorted_draftBody {members : Members} (sorted : members.Sorted) (replaces : Option Replaces) :
    (draftBody members replaces).Sorted := by
  cases replaces with
  | none => exact Members.sorted_insert sorted _ _
  | some binding => exact Members.sorted_insert (Members.sorted_insert sorted _ _) _ _

/-- What every member of a plan has, its kind and a binding has every member of its draft. -/
theorem forall_mem_draftBody {Holds : Value → Prop} {members : Members} {replaces : Option Replaces}
    (held : ∀ member ∈ members, Holds member.2) (kind : Holds (.string planKind))
    (binding : ∀ replaces : Replaces, Holds replaces.toValue) :
    ∀ member ∈ draftBody members replaces, Holds member.2 := by
  have with_kind : ∀ member ∈ members.insert "kind" (.string planKind), Holds member.2 := by
    intro member member_mem
    rcases Members.mem_insert member_mem with rfl | member_mem
    · exact kind
    · exact held member member_mem
  cases replaces with
  | none => exact with_kind
  | some replaces =>
      intro member member_mem
      rcases Members.mem_insert member_mem with rfl | member_mem
      · exact binding replaces
      · exact with_kind member member_mem

theorem toValue_entries {Holds : Value → Prop} (replaces : Replaces) (number : Holds (.ofNat replaces.plan))
    (digest : Holds (.string replaces.digest.toHex)) :
    ∀ member ∈ Members.ofEntries [("plan", .ofNat replaces.plan), ("digest", .string replaces.digest.toHex)],
      Holds member.2 := by
  intro member member_mem
  have entry_mem := Members.mem_ofEntries member_mem
  simp only [List.mem_cons, List.not_mem_nil, or_false] at entry_mem
  rcases entry_mem with rfl | rfl
  · exact number
  · exact digest

theorem isJson_ofNat (number : Nat) : IsJson (.ofNat number) := by
  have token := numberToken_repr number
  rw [Int.repr_eq_if, if_pos (Int.natCast_nonneg number), Int.toNat_natCast] at token
  exact .number token

theorem isJson_toValue (replaces : Replaces) : IsJson replaces.toValue :=
  .object (Members.sorted_ofEntries _).nodup_keys
    (toValue_entries replaces (isJson_ofNat _) (.string _))

theorem wellFormed_toValue (replaces : Replaces) : replaces.toValue.WellFormed :=
  .object (Members.sorted_ofEntries _) (toValue_entries replaces (.number _) (.string _))

/-- A value that is written as it is and read back from what is written. -/
structure Kept (depth : Nat) (value : Value) : Prop where
  wellFormed : value.WellFormed
  inDomain : InDomain value
  form_eq : canonicalForm value = value
  shallow : value.nesting ≤ depth

theorem Leaves.kept {depth : Nat} {value : Value} (leaves : Leaves depth value) (json : IsJson value)
    (wellFormed : value.WellFormed) : Kept depth value :=
  ⟨wellFormed, leaves.inDomain json, leaves.canonicalForm_eq json, leaves.nesting_le⟩

theorem Kept.object {depth : Nat} {members : Members} (sorted : members.Sorted)
    (each : ∀ member ∈ members, Kept depth member.2) : Kept (depth + 1) (.object members) where
  wellFormed := .object sorted fun member member_mem => (each member member_mem).wellFormed
  inDomain := .object fun member member_mem => (each member member_mem).inDomain
  form_eq := by
    rw [canonicalForm, canonicalMembers_eq_map]
    refine congrArg Value.object ((List.map_congr_left ?_).trans (List.map_id _))
    exact fun member member_mem => Prod.ext rfl (each member member_mem).form_eq
  shallow := by
    rw [Value.nesting, Nat.add_le_add_iff_right, Value.nestingMembers_le_iff]
    exact fun member member_mem => (each member member_mem).shallow

theorem kept_string {depth : Nat} (text : String) : Kept depth (.string text) :=
  ⟨.string text, .string text, rfl, Nat.zero_le _⟩

theorem kept_toValue {depth : Nat} (replaces : Replaces) : Kept (depth + 1) replaces.toValue := by
  have fits := replaces.fits
  have inDomain : InDomain (.ofNat replaces.plan) := by
    rw [inDomain_ofNat_iff]
    simp only [maxU32, maxSafeInteger] at fits ⊢
    omega
  refine .object (Members.sorted_ofEntries _) fun member member_mem => ?_
  have entry_mem := Members.mem_ofEntries member_mem
  simp only [List.mem_cons, List.not_mem_nil, or_false] at entry_mem
  rcases entry_mem with rfl | rfl
  · exact ⟨.number _, inDomain, canonicalForm_ofNat inDomain, Nat.zero_le _⟩
  · exact kept_string _

/-- The body of an accepted plan's draft. -/
theorem Accepted.kept (accepted : Accepted isAlphanumeric submitted facts plan) (replaces : Option Replaces) :
    Kept 5 (.object (draftBody plan.submitted replaces)) := by
  have whole := accepted.leaves.kept accepted.json accepted.wellFormed
  have json := accepted.json
  have leaves := accepted.leaves
  obtain ⟨wellFormed, -, -, -⟩ := whole
  rw [accepted.object_eq] at leaves json wellFormed
  cases wellFormed with
  | object sorted members_wellFormed =>
      cases json with
      | object _ members_json =>
          cases leaves with
          | counter counted => cases counted.1
          | object each =>
              refine .object (sorted_draftBody sorted replaces) (forall_mem_draftBody ?_ (kept_string _) kept_toValue)
              exact fun member member_mem =>
                (each member member_mem).kept (members_json member member_mem) (members_wellFormed member member_mem)

/-! ## Reading back what was written -/

/-- The text of a draft's body. -/
def bodyText (members : Members) (replaces : Option Replaces) : Text :=
  compact (.object (draftBody members replaces))

/-- Building an accepted plan's draft succeeds. -/
theorem Accepted.build_eq (accepted : Accepted isAlphanumeric submitted facts plan)
    (sha256 : List UInt8 → Hash) (replaces : Option Replaces) :
    build sha256 plan replaces =
      .ok { body := utf8 (bodyText plan.submitted replaces)
            digest := sha256 (utf8 (bodyText plan.submitted replaces))
            target := "phase/" ++ plan.phase.repr } := by
  have written : canonicalJson (.object (draftBody plan.submitted replaces)) =
      .ok (utf8 (bodyText plan.submitted replaces)) :=
    canonicalJson_eq_ok_iff.mpr ⟨(accepted.kept replaces).inDomain, rfl⟩
  simp only [build, requestDigest, written]
  rfl

/-- The body that was written reads back. -/
theorem Accepted.readDocument_eq (accepted : Accepted isAlphanumeric submitted facts plan)
    (replaces : Option Replaces) :
    readDocument recursionLimit (String.ofList (bodyText plan.submitted replaces)) =
      some (.object (draftBody plan.submitted replaces)) := by
  obtain ⟨wellFormed, inDomain, form_eq, shallow⟩ := accepted.kept replaces
  rw [bodyText, readDocument_compact wellFormed inDomain (lt_of_le_of_lt shallow (by decide)), form_eq]

/-- A draft that names a plan by a number from 1 reads back as its plan and its binding. -/
theorem Accepted.readPlanDraft_eq (accepted : Accepted isAlphanumeric submitted facts plan)
    {replaces : Option Replaces} (numbered : Numbered replaces) :
    readPlanDraft (.object (draftBody plan.submitted replaces)) = some { plan := submitted, replaces } := by
  have sorted := accepted.sorted
  have no_kind : plan.submitted.lookup "kind" = none := accepted.lookup_eq_none (by decide)
  have no_replaces : plan.submitted.lookup "replaces" = none := accepted.lookup_eq_none (by decide)
  have body_sorted := sorted_draftBody sorted replaces
  rw [accepted.object_eq]
  cases replaces with
  | none =>
      have kind_eq : (draftBody plan.submitted none).lookup "kind" = some (.string planKind) := by
        rw [draftBody, Members.lookup_insert, if_pos rfl]
      have removed : (draftBody plan.submitted none).remove "kind" = plan.submitted := by
        refine (Members.sorted_remove body_sorted _).ext sorted fun key => ?_
        rw [Members.lookup_remove, draftBody, Members.lookup_insert]
        split_ifs with same
        · rw [same, no_kind]
        · rfl
      simp only [readPlanDraft, Value.asObject_object, Option.bind_some, kind_eq, removed, no_replaces]
      rfl
  | some binding =>
      have kind_eq : (draftBody plan.submitted (some binding)).lookup "kind" = some (.string planKind) := by
        simp [draftBody]
      have removed_sorted := Members.sorted_remove body_sorted "kind"
      have binding_eq : ((draftBody plan.submitted (some binding)).remove "kind").lookup "replaces" =
          some binding.toValue := by
        simp [draftBody]
      have removed : ((draftBody plan.submitted (some binding)).remove "kind").remove "replaces" =
          plan.submitted := by
        refine (Members.sorted_remove removed_sorted _).ext sorted fun key => ?_
        rw [Members.lookup_remove, Members.lookup_remove, draftBody, Members.lookup_insert,
          Members.lookup_insert]
        split_ifs with is_replaces is_kind
        · rw [is_replaces, no_replaces]
        · rw [is_kind, no_kind]
        · rfl
      have read : readReplaces binding.toValue = some binding := by
        rw [readReplaces_toValue, if_pos (numbered binding rfl)]
      simp only [readPlanDraft, Value.asObject_object, Option.bind_some, kind_eq, binding_eq, read, removed,
        Option.map_some]
      rfl

/-- Drafts of one body have one plan and one binding. -/
theorem Accepted.bodyText_inj {submitted' : Value} {facts' : PlanFacts} {plan' : Plan}
    {replaces replaces' : Option Replaces} (accepted : Accepted isAlphanumeric submitted facts plan)
    (accepted' : Accepted isAlphanumeric submitted' facts' plan') (numbered : Numbered replaces)
    (numbered' : Numbered replaces') :
    bodyText plan.submitted replaces = bodyText plan'.submitted replaces' ↔
      submitted = submitted' ∧ replaces = replaces' := by
  constructor
  · intro same
    have read := accepted.readDocument_eq replaces
    rw [same, accepted'.readDocument_eq replaces'] at read
    have read_eq := accepted.readPlanDraft_eq numbered
    rw [← Option.some.inj read, accepted'.readPlanDraft_eq numbered'] at read_eq
    cases read_eq
    exact ⟨rfl, rfl⟩
  · rintro ⟨rfl, rfl⟩
    have same := accepted.object_eq.symm.trans accepted'.object_eq
    rw [Value.object.inj same]

end Plan

end Baley
