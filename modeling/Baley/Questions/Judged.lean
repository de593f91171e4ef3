import Baley.Graph.Cycles
import Baley.Members
import Baley.Questions.Set

/-!
# What the question judge answers

A question set is written entry by entry, and what is asked of it is asked of each question in turn
and of the dependencies as a whole.  The judge accepts exactly the values that are such a set, and
answers any other value with its first fault.
-/

namespace Baley

open Json Graph Relation

namespace Question

/-- An entry that a question is written as: an object of the four members and no other. -/
structure WrittenAs (question : Question) (entry : Value) : Prop where
  exact_members : ∃ held : Json.Members, entry = .object held ∧
    ∀ name, name ∈ held.map Prod.fst ↔ name ∈ members
  id_eq : entry.get? "id" = some (.string question.id)
  question_eq : entry.get? "question" = some (.string question.question)
  recommended_eq : entry.get? "recommended" = some (.string question.recommended)
  dependsOn_eq : entry.get? "depends_on" = some (texts question.dependsOn)
  texts_fit : ∀ text ∈ [question.id, question.question, question.recommended],
    text.utf8ByteSize ≤ inlineTextLimit
  dependsOn_nodup : question.dependsOn.Nodup

variable (questions : List Question)

/-- The id of the question at a position is not blank, and no earlier question has it. -/
def Named (position : Nat) (question : Question) : Prop :=
  isBlank question.id = false ∧ question.id ∉ (questions.take position).map Question.id

/-- Neither the question nor its recommended answer is blank. -/
def Asks (question : Question) : Prop :=
  isBlank question.question = false ∧ isBlank question.recommended = false

/-- A question depends on others of the set. -/
def DependsWithin (question : Question) : Prop :=
  ∀ on ∈ question.dependsOn, on ≠ question.id ∧ on ∈ questions.map Question.id

/-- What is asked of one question of a set. -/
structure WellPosed (position : Nat) (question : Question) : Prop where
  named : Named questions position question
  asks : Asks question
  depends : DependsWithin questions question

/-- What is wrong with one question, the first thing that is. -/
inductive Fault (position : Nat) (question : Question) : SetRefusal → Prop
  | id (unnamed : ¬Named questions position question) :
      Fault position question (.questionId position question.id)
  | blank (named : Named questions position question) (blank : ¬Asks question) :
      Fault position question (.questionBlank position question.id)
  | dependency (named : Named questions position question) (asks : Asks question)
      (outside : ¬DependsWithin questions question) :
      Fault position question (.questionDependency position question.id)

/-- The question at one position needs the answer of the question at another. -/
def DependsOn (first second : Nat) : Prop :=
  ∃ asked needed, questions[first]? = some asked ∧ questions[second]? = some needed ∧
    needed.id ∈ asked.dependsOn

/-- A nonempty path of dependencies leads from the question at a position back to it. -/
def OnCycle (position : Nat) : Prop :=
  TransGen (DependsOn questions) position position

end Question

/-- A list with one entry for each question, in their order. -/
def Submitted (value : Value) (questions : List Question) : Prop :=
  ∃ entries, value = .array entries ∧ List.Forall₂ Question.WrittenAs questions entries

/-- A value that is a question set. -/
structure Acceptable (value : Value) (questions : List Question) : Prop where
  submitted : Submitted value questions
  ids_nodup : (questions.map Question.id).Nodup
  ids_named : ∀ question ∈ questions, isBlank question.id = false
  asks : ∀ question ∈ questions, question.Asks
  depends : ∀ question ∈ questions, question.DependsWithin questions
  acyclic : ∀ position, ¬Question.OnCycle questions position

/-- The first fault of a value: its grammar over the whole list, then question by question, then
the questions on a cycle. -/
inductive FirstFault (value : Value) : SetRefusal → Prop
  | notList (not_list : ∀ entries, value ≠ .array entries) :
      FirstFault value (.typedContent none)
  | entry {entries : List Value} {position : Nat} {entry : Value} (is_list : value = .array entries)
      (found : entries[position]? = some entry)
      (unwritten : ∀ question : Question, ¬question.WrittenAs entry)
      (first : ∀ earlier < position, ∀ entry, entries[earlier]? = some entry →
        ∃ question : Question, question.WrittenAs entry) :
      FirstFault value (.typedContent (some position))
  | question {questions : List Question} {position : Nat} {question : Question}
      {refusal : SetRefusal} (submitted : Submitted value questions)
      (found : questions[position]? = some question)
      (fault : Question.Fault questions position question refusal)
      (first : ∀ earlier < position, ∀ question, questions[earlier]? = some question →
        Question.WellPosed questions earlier question) :
      FirstFault value refusal
  | cycle {questions : List Question} {listed : List (Nat × String)}
      (submitted : Submitted value questions)
      (posed : ∀ position question, questions[position]? = some question →
        Question.WellPosed questions position question)
      (nonempty : listed ≠ [])
      (ascending : (listed.map Prod.fst).Pairwise (· < ·))
      (listed_iff : ∀ position id, (position, id) ∈ listed ↔
        Question.OnCycle questions position ∧ questions[position]?.map Question.id = some id) :
      FirstFault value (.questionCycle listed)

/-! ## The grammar -/

theorem eq_texts_of_asTexts {value : Value} {items : List String}
    (read : asTexts value = some items) : value = texts items := by
  cases value with
  | array entries =>
      refine congrArg Value.array ?_
      change entries.mapM Value.asStr = some items at read
      induction entries generalizing items with
      | nil =>
          cases read
          rfl
      | cons entry entries ih =>
          simp only [List.mapM_cons, Option.bind_eq_bind, Option.bind_eq_some_iff] at read
          obtain ⟨item, item_eq, rest, rest_eq, items_eq⟩ := read
          cases items_eq
          rw [List.map_cons, ih rest_eq]
          cases entry with
          | string text => rw [Option.some.inj item_eq]
          | _ => cases item_eq
  | _ => cases read

namespace Question

theorem inlineText_eq_some_iff {entry : Value} {name text : String} :
    inlineText entry name = some text ↔
      entry.get? name = some (.string text) ∧ text.utf8ByteSize ≤ inlineTextLimit := by
  unfold inlineText
  rw [Option.filter_eq_some_iff, Option.bind_eq_some_iff, decide_eq_true_iff]
  refine and_congr_left fun _ => ⟨?_, ?_⟩
  · rintro ⟨held, found, text_eq⟩
    cases held with
    | string held => rw [found, Option.some.inj text_eq]
    | _ => cases text_eq
  · exact fun found => ⟨_, found, rfl⟩

theorem mem_keys_of_get? {held : Json.Members} {name : String} {value : Value}
    (found : (Value.object held).get? name = some value) : name ∈ held.map Prod.fst :=
  List.mem_map.mpr ⟨_, Json.Members.mem_of_lookup found, rfl⟩

/-- The grammar reads exactly the entries that a question is written as. -/
theorem grammar_eq_some_iff {entry : Value} {question : Question} :
    grammar entry = some question ↔ question.WrittenAs entry := by
  constructor
  · intro read
    simp only [grammar, Option.bind_eq_bind, Option.bind_eq_some_iff] at read
    obtain ⟨held, held_eq, read⟩ := read
    split_ifs at read with only
    simp only [Option.bind_eq_some_iff, inlineText_eq_some_iff, Option.filter_eq_some_iff,
      decide_eq_true_iff] at read
    obtain ⟨id, ⟨id_eq, id_fits⟩, asked, ⟨asked_eq, asked_fits⟩, recommended,
      ⟨recommended_eq, recommended_fits⟩, on, ⟨⟨given, given_eq, on_eq⟩, nodup⟩, question_eq⟩ := read
    cases question_eq
    obtain rfl := eq_texts_of_asTexts on_eq
    cases entry with
    | object entry_held =>
        cases held_eq
        refine ⟨⟨held, rfl, fun name => ⟨?_, ?_⟩⟩, id_eq, asked_eq, recommended_eq, given_eq, ?_,
          nodup⟩
        · intro name_mem
          obtain ⟨member, member_mem, rfl⟩ := List.mem_map.mp name_mem
          simpa using List.all_eq_true.mp only member member_mem
        · intro name_mem
          simp only [members, List.mem_cons, List.not_mem_nil, or_false] at name_mem
          rcases name_mem with rfl | rfl | rfl | rfl
          · exact mem_keys_of_get? id_eq
          · exact mem_keys_of_get? asked_eq
          · exact mem_keys_of_get? recommended_eq
          · exact mem_keys_of_get? given_eq
        · simp [id_fits, asked_fits, recommended_fits]
    | _ => cases held_eq
  · rintro ⟨⟨held, rfl, keys_iff⟩, id_eq, question_eq, recommended_eq, dependsOn_eq, fits, nodup⟩
    simp only [List.mem_cons, List.not_mem_nil, or_false, forall_eq_or_imp, forall_eq] at fits
    obtain ⟨id_fits, question_fits, recommended_fits⟩ := fits
    have only : held.all (fun member => members.contains member.1) = true := by
      refine List.all_eq_true.mpr fun member member_mem => ?_
      simpa using (keys_iff member.1).mp (List.mem_map_of_mem member_mem)
    have dependsOn_read : (((Value.object held).get? "depends_on").bind asTexts).filter
        (fun on => on.Nodup) = some question.dependsOn := by
      rw [dependsOn_eq, Option.bind_some, asTexts_texts]
      simp [Option.filter, nodup]
    simp only [grammar, Value.asObject_object, Option.bind_eq_bind, Option.bind_some, only, if_true,
      inlineText_eq_some_iff.mpr ⟨id_eq, id_fits⟩,
      inlineText_eq_some_iff.mpr ⟨question_eq, question_fits⟩,
      inlineText_eq_some_iff.mpr ⟨recommended_eq, recommended_fits⟩, dependsOn_read]

/-- Entries that questions are written as are read one by one. -/
theorem mapM_grammar {questions : List Question} {entries : List Value}
    (written : List.Forall₂ WrittenAs questions entries) (start : Nat) :
    ((entries.zipIdx start).mapM fun entry =>
      Except.ofOption (SetRefusal.typedContent (some entry.2)) (grammar entry.1)) =
        .ok questions := by
  induction written generalizing start with
  | nil => rfl
  | cons entry_written _ ih =>
      rw [List.zipIdx_cons, List.mapM_cons, grammar_eq_some_iff.mpr entry_written, ih]
      rfl

/-- The first entry that no question is written as ends the reading. -/
theorem mapM_grammar_error {questions : List Question} {front : List Value} {entry : Value}
    (written : List.Forall₂ WrittenAs questions front) (rest : List Value)
    (unwritten : ∀ question : Question, ¬question.WrittenAs entry) (start : Nat) :
    (((front ++ entry :: rest).zipIdx start).mapM fun entry =>
      Except.ofOption (SetRefusal.typedContent (some entry.2)) (grammar entry.1)) =
        .error (.typedContent (some (start + front.length))) := by
  induction written generalizing start with
  | nil =>
      have unread : grammar entry = none :=
        Option.eq_none_iff_forall_ne_some.mpr fun question read =>
          unwritten question (grammar_eq_some_iff.mp read)
      rw [List.nil_append, List.zipIdx_cons, List.mapM_cons, unread]
      rfl
  | cons entry_written _ ih =>
      rw [List.cons_append, List.zipIdx_cons, List.mapM_cons, grammar_eq_some_iff.mpr entry_written,
        ih, List.length_cons, Nat.add_assoc, Nat.add_comm 1]
      rfl

/-! ## Question by question -/

variable {questions : List Question}

/-- A question with nothing wrong is passed over. -/
theorem judgeEach_cons {seen : List String} {front rest : List Question} {question : Question}
    (split : questions = front ++ question :: rest)
    (seen_iff : ∀ id, id ∈ seen ↔ id ∈ front.map Question.id)
    (posed : WellPosed questions front.length question) :
    judgeEach (questions.map Question.id) seen ((question :: rest).zipIdx front.length) =
      judgeEach (questions.map Question.id) (question.id :: seen)
        (rest.zipIdx (front.length + 1)) := by
  obtain ⟨⟨named, unseen⟩, asks, depends⟩ := posed
  have taken : questions.take front.length = front := by simp [split]
  rw [taken, ← seen_iff] at unseen
  unfold Asks at asks
  unfold DependsWithin at depends
  rw [List.zipIdx_cons, judgeEach, Except.require, if_pos ⟨named, unseen⟩, Except.require,
    if_pos asks, Except.require, if_pos depends]
  rfl

/-- A question with something wrong ends the judgement. -/
theorem judgeEach_fault {seen : List String} {front rest : List Question} {question : Question}
    {refusal : SetRefusal} (split : questions = front ++ question :: rest)
    (seen_iff : ∀ id, id ∈ seen ↔ id ∈ front.map Question.id)
    (fault : Fault questions front.length question refusal) :
    judgeEach (questions.map Question.id) seen ((question :: rest).zipIdx front.length) =
      .error refusal := by
  have taken : questions.take front.length = front := by simp [split]
  have named_iff : Named questions front.length question ↔
      isBlank question.id = false ∧ question.id ∉ seen := by rw [Named, taken, seen_iff]
  rw [List.zipIdx_cons, judgeEach]
  cases fault with
  | id unnamed =>
      rw [Except.require, if_neg (mt named_iff.mpr unnamed)]
      rfl
  | blank named blank =>
      unfold Asks at blank
      rw [Except.require, if_pos (named_iff.mp named), Except.require, if_neg blank]
      rfl
  | dependency named asks outside =>
      unfold Asks at asks
      unfold DependsWithin at outside
      rw [Except.require, if_pos (named_iff.mp named), Except.require, if_pos asks, Except.require,
        if_neg outside]
      rfl

/-- Questions with nothing wrong are passed over. -/
theorem judgeEach_skip {seen : List String} {front middle rest : List Question}
    (split : questions = front ++ (middle ++ rest))
    (seen_iff : ∀ id, id ∈ seen ↔ id ∈ front.map Question.id)
    (posed : ∀ position < front.length + middle.length, ∀ question,
      questions[position]? = some question → WellPosed questions position question) :
    ∃ seen', (∀ id, id ∈ seen' ↔ id ∈ (front ++ middle).map Question.id) ∧
      judgeEach (questions.map Question.id) seen ((middle ++ rest).zipIdx front.length) =
        judgeEach (questions.map Question.id) seen' (rest.zipIdx (front ++ middle).length) := by
  induction middle generalizing front seen with
  | nil => exact ⟨seen, by simpa using seen_iff, by simp⟩
  | cons question middle ih =>
      have question_posed : WellPosed questions front.length question :=
        posed front.length (by simp) question (by simp [split])
      rw [List.cons_append] at split ⊢
      have step := judgeEach_cons split seen_iff question_posed
      have split_next : questions = (front ++ [question]) ++ (middle ++ rest) := by simp [split]
      have seen_next : ∀ id, id ∈ question.id :: seen ↔
          id ∈ (front ++ [question]).map Question.id := by
        intro id
        rw [List.mem_cons, seen_iff, List.map_append, List.mem_append, or_comm]
        simp
      obtain ⟨seen', seen'_iff, skipped⟩ := ih split_next seen_next fun position inside => by
        refine posed position ?_
        simp only [List.length_append, List.length_cons, List.length_nil] at inside ⊢
        omega
      refine ⟨seen', by simpa using seen'_iff, ?_⟩
      rw [step]
      simpa using skipped

/-- Questions of which each is well posed are judged so. -/
theorem judgeEach_eq_ok (posed : ∀ position question, questions[position]? = some question →
      WellPosed questions position question) :
    judgeEach (questions.map Question.id) [] questions.zipIdx = .ok () := by
  have split : questions = [] ++ (questions ++ []) := by simp
  have nothing_seen : ∀ id : String, id ∈ [] ↔ id ∈ ([] : List Question).map Question.id := by simp
  obtain ⟨seen, -, skipped⟩ := judgeEach_skip split nothing_seen
    fun position _ => posed position
  simpa [judgeEach] using skipped

/-- The first question with something wrong is what the judgement names. -/
theorem judgeEach_eq_error {position : Nat} {question : Question} {refusal : SetRefusal}
    (found : questions[position]? = some question)
    (fault : Fault questions position question refusal)
    (first : ∀ earlier < position, ∀ question, questions[earlier]? = some question →
      WellPosed questions earlier question) :
    judgeEach (questions.map Question.id) [] questions.zipIdx = .error refusal := by
  obtain ⟨inside, rfl⟩ := List.getElem?_eq_some_iff.mp found
  have length_eq : (questions.take position).length = position := by simp; omega
  have split : questions =
      [] ++ (questions.take position ++ questions[position] :: questions.drop (position + 1)) := by
    simp
  have nothing_seen : ∀ id : String, id ∈ [] ↔ id ∈ ([] : List Question).map Question.id := by simp
  obtain ⟨seen, seen_iff, skipped⟩ := judgeEach_skip split nothing_seen (by
    rw [length_eq, List.length_nil, Nat.zero_add]
    exact first)
  rw [List.nil_append] at split seen_iff skipped
  rw [← split] at skipped
  change judgeEach _ [] (questions.zipIdx 0) = _ at skipped
  rw [skipped]
  refine judgeEach_fault split seen_iff ?_
  rwa [length_eq]

/-! ## Cycles -/

/-- Where a question of the set stands is found by its id. -/
theorem findIdx_eq_iff (ids_nodup : (questions.map Question.id).Nodup) {on : String}
    (on_mem : on ∈ questions.map Question.id) (position : Nat) :
    (questions.findIdx fun other => other.id = on) = position ↔
      ∃ needed, questions[position]? = some needed ∧ needed.id = on := by
  constructor
  · rintro rfl
    obtain ⟨other, other_mem, rfl⟩ := List.mem_map.mp on_mem
    obtain ⟨place, inside, rfl⟩ := List.mem_iff_getElem.mp other_mem
    rw [findIdx_id ids_nodup inside]
    exact ⟨questions[place], by simp [inside], rfl⟩
  · rintro ⟨needed, found, rfl⟩
    obtain ⟨inside, rfl⟩ := List.getElem?_eq_some_iff.mp found
    exact findIdx_id ids_nodup inside

/-- The edges are the dependencies. -/
theorem mem_leadsTo_edges (ids_nodup : (questions.map Question.id).Nodup)
    (depends : ∀ question ∈ questions, question.DependsWithin questions) (first second : Nat) :
    second ∈ leadsTo (edges questions) first ↔ DependsOn questions first second := by
  unfold DependsOn
  rw [leadsTo, edges, List.getD_eq_getElem?_getD, List.getElem?_map]
  cases found : questions[first]? with
  | none => simp
  | some asked =>
      have within := depends asked (List.mem_of_getElem? found)
      simp only [Option.map_some, Option.getD_some, List.mem_map, Option.some.injEq,
        exists_and_left, exists_eq_left']
      constructor
      · rintro ⟨on, on_mem, stands⟩
        obtain ⟨needed, needed_found, rfl⟩ :=
          (findIdx_eq_iff ids_nodup (within on on_mem).2 second).mp stands
        exact ⟨needed, needed_found, on_mem⟩
      · rintro ⟨needed, needed_found, on_mem⟩
        exact ⟨needed.id, on_mem, (findIdx_eq_iff ids_nodup (within _ on_mem).2 second).mpr
          ⟨needed, needed_found, rfl⟩⟩

/-- A dependency stands within the set. -/
theorem DependsOn.lt {first second : Nat} (depends : DependsOn questions first second) :
    first < questions.length ∧ second < questions.length := by
  obtain ⟨asked, needed, asked_found, needed_found, -⟩ := depends
  exact ⟨(List.getElem?_eq_some_iff.mp asked_found).1, (List.getElem?_eq_some_iff.mp needed_found).1⟩

theorem OnCycle.lt {position : Nat} (cyclic : OnCycle questions position) :
    position < questions.length := by
  obtain ⟨other, edge, -⟩ := TransGen.head'_iff.mp cyclic
  exact edge.lt.1

section Acyclic

variable (ids_nodup : (questions.map Question.id).Nodup)
  (depends : ∀ question ∈ questions, question.DependsWithin questions)

include ids_nodup depends

theorem leads_eq : Leads (leadsTo (edges questions)) = DependsOn questions :=
  funext fun first => funext fun second =>
    propext (mem_leadsTo_edges ids_nodup depends first second)

theorem cyclic_iff (position : Nat) :
    Cyclic (leadsTo (edges questions)) position ↔ OnCycle questions position := by
  rw [Cyclic, leads_eq ids_nodup depends, OnCycle]

theorem edges_closed :
    ∀ targets ∈ edges questions, ∀ target ∈ targets, target < (edges questions).length := by
  intro targets targets_mem target target_mem
  obtain ⟨first, inside, rfl⟩ := List.mem_iff_getElem.mp targets_mem
  have edge : target ∈ leadsTo (edges questions) first := by
    rwa [leadsTo, List.getD_eq_getElem?_getD, List.getElem?_eq_getElem inside, Option.getD_some]
  rw [edges, List.length_map]
  exact ((mem_leadsTo_edges ids_nodup depends first target).mp edge).lt.2

/-- More than one question in a component is what a cycle takes, as none depends on itself. -/
theorem onCycle_exact : Walk.Tight.ReportsCycles (leadsTo (edges questions)) onCycle := by
  refine Walk.Tight.reportsCycles_of_loopless ?_ fun _ _ => decide_eq_true_iff
  intro position loop
  obtain ⟨asked, needed, asked_found, needed_found, on_mem⟩ :=
    (mem_leadsTo_edges ids_nodup depends position position).mp loop
  obtain rfl := Option.some.inj (asked_found.symm.trans needed_found)
  exact (depends asked (List.mem_of_getElem? asked_found) asked.id on_mem).1 rfl

theorem mem_onCycles (position : Nat) :
    position ∈ onCycles questions ↔ OnCycle questions position := by
  rw [onCycles, mem_reportedComponents (onCycle_exact ids_nodup depends)
    (fun _ _ large => decide_eq_true large) (edges_closed ids_nodup depends),
    cyclic_iff ids_nodup depends, edges, List.length_map]
  exact and_iff_right_of_imp OnCycle.lt

theorem onCycles_ascending : (onCycles questions).Pairwise (· < ·) :=
  reportedComponents_ascending (onCycle_exact ids_nodup depends)
    (fun _ _ large => decide_eq_true large) (edges_closed ids_nodup depends)

theorem onCycles_eq_nil_iff :
    onCycles questions = [] ↔ ∀ position, ¬OnCycle questions position := by
  rw [List.eq_nil_iff_forall_not_mem]
  exact forall_congr' fun position => not_congr (mem_onCycles ids_nodup depends position)

/-- The search looks up nothing out of range, and its loop ends. -/
theorem search_inside {walk : Walk}
    (searching : Walk.Searching (leadsTo (edges questions)) onCycle questions.length walk) :
    ((∀ position ∈ walk.stack, position < questions.length) ∧
      ∀ call ∈ walk.calls, call.1 ∈ walk.stack ∧
        ∀ other ∈ leadsTo (edges questions) call.1, other < questions.length) ∧
    (walk.run (leadsTo (edges questions)) onCycle (turns (edges questions))).calls = [] := by
  have leads_inside := leadsTo_lt (edges_closed ids_nodup depends)
  have length_eq : (edges questions).length = questions.length := by rw [edges, List.length_map]
  have enough := (sum_turns (edges questions)).le
  rw [length_eq] at leads_inside enough
  exact ⟨searching.inside (onCycle_exact ids_nodup depends)
      (fun _ _ large => decide_eq_true large) leads_inside,
    searching.run_calls (onCycle_exact ids_nodup depends)
      (fun _ _ large => decide_eq_true large) leads_inside enough⟩

end Acyclic

/-! ## Well posed questions -/

/-- Questions that are each well posed have distinct ids and depend on one another. -/
theorem posed_iff :
    (∀ position question, questions[position]? = some question →
      WellPosed questions position question) ↔
    (questions.map Question.id).Nodup ∧ (∀ question ∈ questions, isBlank question.id = false) ∧
      (∀ question ∈ questions, question.Asks) ∧
      ∀ question ∈ questions, question.DependsWithin questions := by
  constructor
  · intro posed
    have of_mem {question : Question} (question_mem : question ∈ questions) :
        ∃ position, WellPosed questions position question := by
      obtain ⟨position, inside, rfl⟩ := List.mem_iff_getElem.mp question_mem
      exact ⟨position, posed position _ (by simp [inside])⟩
    refine ⟨?_, fun question question_mem => ?_, fun question question_mem => ?_,
      fun question question_mem => ?_⟩
    · rw [List.Nodup, List.pairwise_iff_getElem]
      intro earlier later earlier_lt later_lt before same
      rw [List.length_map] at earlier_lt later_lt
      rw [List.getElem_map, List.getElem_map] at same
      refine (posed later questions[later] (by simp [later_lt])).named.2 ?_
      rw [← same]
      refine List.mem_map_of_mem (List.mem_take_iff_getElem.mpr ⟨earlier, ?_, rfl⟩)
      omega
    · obtain ⟨position, posed⟩ := of_mem question_mem
      exact posed.named.1
    · obtain ⟨position, posed⟩ := of_mem question_mem
      exact posed.asks
    · obtain ⟨position, posed⟩ := of_mem question_mem
      exact posed.depends
  · rintro ⟨nodup, named, asks, depends⟩ position question found
    have question_mem := List.mem_of_getElem? found
    refine ⟨⟨named question question_mem, fun earlier_mem => ?_⟩, asks question question_mem,
      depends question question_mem⟩
    obtain ⟨inside, rfl⟩ := List.getElem?_eq_some_iff.mp found
    obtain ⟨other, other_mem, same⟩ := List.mem_map.mp earlier_mem
    obtain ⟨earlier, earlier_lt, rfl⟩ := List.mem_take_iff_getElem.mp other_mem
    rw [List.Nodup, List.pairwise_iff_getElem] at nodup
    refine nodup earlier position (by simp; omega) (by simpa using inside) (by omega) ?_
    simpa using same

/-- A question that is not well posed has a fault. -/
theorem exists_fault {position : Nat} {question : Question}
    (unposed : ¬WellPosed questions position question) :
    ∃ refusal, Fault questions position question refusal := by
  by_cases named : Named questions position question
  · by_cases asks : Asks question
    · by_cases depends : DependsWithin questions question
      · exact absurd ⟨named, asks, depends⟩ unposed
      · exact ⟨_, .dependency named asks depends⟩
    · exact ⟨_, .blank named asks⟩
  · exact ⟨_, .id named⟩

end Question

/-- Either every item of a list is as it should be or there is a first one that is not. -/
theorem exists_first {α : Type} (holds : Nat → α → Prop) (items : List α) :
    (∀ position item, items[position]? = some item → holds position item) ∨
      ∃ position item, items[position]? = some item ∧ ¬holds position item ∧
        ∀ earlier < position, ∀ item, items[earlier]? = some item → holds earlier item := by
  classical
  by_cases some_fails : ∃ position item, items[position]? = some item ∧ ¬holds position item
  · obtain ⟨item, found, fails⟩ := Nat.find_spec some_fails
    refine .inr ⟨Nat.find some_fails, item, found, fails, ?_⟩
    intro earlier before other other_found
    by_contra other_fails
    exact Nat.find_min some_fails before ⟨other, other_found, other_fails⟩
  · push Not at some_fails
    exact .inl some_fails

/-! ## The judge -/

theorem Submitted.unique {value : Value} {first second : List Question}
    (first_submitted : Submitted value first) (second_submitted : Submitted value second) :
    first = second := by
  obtain ⟨entries, rfl, first_written⟩ := first_submitted
  obtain ⟨others, same, second_written⟩ := second_submitted
  cases same
  have first_read := Question.mapM_grammar first_written 0
  rw [Question.mapM_grammar second_written 0] at first_read
  exact (Except.ok.inj first_read).symm

/-- A question set is accepted as it was submitted. -/
theorem judgeSet_of_acceptable {value : Value} {questions : List Question}
    (acceptable : Acceptable value questions) :
    ∃ set, judgeSet value = .ok set ∧ set.questions = questions := by
  obtain ⟨⟨entries, rfl, written⟩, nodup, named, asks, depends, acyclic⟩ := acceptable
  have judged := Question.judgeEach_eq_ok (Question.posed_iff.mpr ⟨nodup, named, asks, depends⟩)
  have cycles_eq := (Question.onCycles_eq_nil_iff nodup depends).mpr acyclic
  refine ⟨⟨questions, judged, cycles_eq⟩, ?_, rfl⟩
  simp only [judgeSet, Question.mapM_grammar written 0, bind, Except.bind]
  split
  · next refusal refused =>
      rw [judged] at refused
      cases refused
  · rw [dif_pos cycles_eq]

/-- A list of positions with their ids that holds the positions on a cycle, ascending. -/
theorem listed_eq_map {questions : List Question} {listed : List (Nat × String)}
    (ids_nodup : (questions.map Question.id).Nodup)
    (depends : ∀ question ∈ questions, question.DependsWithin questions)
    (ascending : (listed.map Prod.fst).Pairwise (· < ·))
    (listed_iff : ∀ position id, (position, id) ∈ listed ↔
      Question.OnCycle questions position ∧ questions[position]?.map Question.id = some id) :
    listed = (Question.onCycles questions).map fun position =>
      (position, (questions[position]?.map Question.id).getD "") := by
  have positions_eq : listed.map Prod.fst = Question.onCycles questions := by
    refine ascending.eq_of_mem_iff (Question.onCycles_ascending ids_nodup depends) ?_
    intro position
    rw [Question.mem_onCycles ids_nodup depends, List.mem_map]
    constructor
    · rintro ⟨⟨position, id⟩, pair_mem, rfl⟩
      exact ((listed_iff position id).mp pair_mem).1
    · intro cyclic
      have found := List.getElem?_eq_getElem cyclic.lt
      exact ⟨(position, _), (listed_iff _ _).mpr ⟨cyclic, by rw [found]; rfl⟩, rfl⟩
  rw [← positions_eq, List.map_map]
  have same : ∀ pair ∈ listed, ((fun position =>
      (position, (questions[position]?.map Question.id).getD "")) ∘ Prod.fst) pair = pair := by
    rintro ⟨position, id⟩ pair_mem
    have id_eq := ((listed_iff position id).mp pair_mem).2
    simp [id_eq]
  exact (List.map_congr_left same |>.trans (List.map_id listed)).symm

theorem exists_written {entries : List Value}
    (written : ∀ entry ∈ entries, ∃ question : Question, question.WrittenAs entry) :
    ∃ questions, List.Forall₂ Question.WrittenAs questions entries := by
  induction entries with
  | nil => exact ⟨[], .nil⟩
  | cons entry entries ih =>
      obtain ⟨question, entry_written⟩ := written entry List.mem_cons_self
      obtain ⟨questions, entries_written⟩ :=
        ih fun other other_mem => written other (List.mem_cons_of_mem _ other_mem)
      exact ⟨question :: questions, .cons entry_written entries_written⟩

/-- The first fault is what a value is refused with. -/
theorem judgeSet_of_firstFault {value : Value} {refusal : SetRefusal}
    (fault : FirstFault value refusal) : judgeSet value = .error refusal := by
  cases fault with
  | notList not_list =>
      cases value with
      | array entries => exact absurd rfl (not_list entries)
      | _ => rfl
  | @entry entries position entry is_list found unwritten first =>
      obtain ⟨inside, rfl⟩ := List.getElem?_eq_some_iff.mp found
      have front_written : ∀ other ∈ entries.take position,
          ∃ question : Question, question.WrittenAs other := by
        intro other other_mem
        obtain ⟨earlier, earlier_lt, rfl⟩ := List.mem_take_iff_getElem.mp other_mem
        exact first earlier (by omega) _ (by simp)
      obtain ⟨questions, written⟩ := exists_written front_written
      have read := Question.mapM_grammar_error written (entries.drop (position + 1)) unwritten 0
      rw [← List.drop_eq_getElem_cons inside, List.take_append_drop, List.length_take,
        min_eq_left inside.le, Nat.zero_add] at read
      rw [is_list]
      simp only [judgeSet, read, bind, Except.bind]
  | @question questions position question refusal submitted found fault first =>
      obtain ⟨entries, rfl, written⟩ := submitted
      have judged := Question.judgeEach_eq_error found fault first
      simp only [judgeSet, Question.mapM_grammar written 0, bind, Except.bind]
      split
      · next refused refused_eq => rw [← Except.error.inj (judged.symm.trans refused_eq)]
      · next accepted_eq =>
          rw [judged] at accepted_eq
          cases accepted_eq
  | @cycle questions listed submitted posed nonempty ascending listed_iff =>
      obtain ⟨entries, rfl, written⟩ := submitted
      obtain ⟨nodup, -, -, depends⟩ := Question.posed_iff.mp posed
      have judged := Question.judgeEach_eq_ok posed
      have listed_eq : listed = (Question.onCycles questions).map fun position =>
          (position, (questions[position]?.map Question.id).getD "") :=
        listed_eq_map nodup depends ascending listed_iff
      have cycles_ne : Question.onCycles questions ≠ [] := by
        intro cycles_eq
        rw [cycles_eq] at listed_eq
        exact nonempty listed_eq
      simp only [judgeSet, Question.mapM_grammar written 0, bind, Except.bind]
      split
      · next refusal refused =>
          rw [judged] at refused
          cases refused
      · rw [dif_neg cycles_ne, listed_eq]

/-- Every value is a question set or has a first fault. -/
theorem acceptable_or_firstFault (value : Value) :
    (∃ questions, Acceptable value questions) ∨ ∃ refusal, FirstFault value refusal := by
  cases value with
  | array entries =>
      rcases exists_first (fun _ entry => ∃ question : Question, question.WrittenAs entry) entries
        with written | ⟨position, entry, found, unwritten, first⟩
      · have all_written : ∀ entry ∈ entries, ∃ question : Question, question.WrittenAs entry := by
          intro entry entry_mem
          obtain ⟨position, inside, rfl⟩ := List.mem_iff_getElem.mp entry_mem
          exact written position _ (by simp [inside])
        obtain ⟨questions, written⟩ := exists_written all_written
        have submitted : Submitted (.array entries) questions := ⟨entries, rfl, written⟩
        rcases exists_first (Question.WellPosed questions) questions
          with posed | ⟨position, question, found, unposed, first⟩
        · obtain ⟨nodup, named, asks, depends⟩ := Question.posed_iff.mp posed
          by_cases acyclic : ∀ position, ¬Question.OnCycle questions position
          · exact .inl ⟨questions, submitted, nodup, named, asks, depends, acyclic⟩
          · refine .inr ⟨.questionCycle ((Question.onCycles questions).map fun position =>
              (position, (questions[position]?.map Question.id).getD "")),
              .cycle submitted posed ?_ ?_ ?_⟩
            · rw [Ne, List.map_eq_nil_iff, Question.onCycles_eq_nil_iff nodup depends]
              exact acyclic
            · simpa [Function.comp_def] using Question.onCycles_ascending nodup depends
            · intro position id
              rw [List.mem_map]
              constructor
              · rintro ⟨place, place_mem, pair_eq⟩
                obtain ⟨rfl, rfl⟩ := Prod.mk.inj pair_eq
                have cyclic := (Question.mem_onCycles nodup depends place).mp place_mem
                exact ⟨cyclic, by simp [cyclic.lt]⟩
              · rintro ⟨cyclic, id_eq⟩
                exact ⟨position, (Question.mem_onCycles nodup depends position).mpr cyclic,
                  by rw [id_eq]; rfl⟩
        · obtain ⟨refusal, fault⟩ := Question.exists_fault unposed
          exact .inr ⟨refusal, .question submitted found fault first⟩
      · refine .inr ⟨_, .entry rfl found (fun question written => ?_) first⟩
        exact unwritten ⟨question, written⟩
  | _ =>
      refine .inr ⟨_, .notList fun entries same => ?_⟩
      cases same

/-- The judge accepts exactly the question sets, as they were submitted, and refuses every other
value with its first fault; the search for cycles looks up nothing out of range, and ends. -/
theorem judgeSet_exact (value : Value) :
    (∀ questions, (∃ set, judgeSet value = .ok set ∧ set.questions = questions) ↔
      Acceptable value questions) ∧
    (∀ refusal, judgeSet value = .error refusal ↔ FirstFault value refusal) ∧
    ∀ questions, Submitted value questions →
      (∀ position question, questions[position]? = some question →
        Question.WellPosed questions position question) →
      ∀ walk : Walk,
        Walk.Searching (leadsTo (Question.edges questions)) Question.onCycle questions.length walk →
          (∀ position ∈ walk.stack, position < questions.length) ∧
          (∀ call ∈ walk.calls, call.1 ∈ walk.stack ∧
            ∀ other ∈ leadsTo (Question.edges questions) call.1, other < questions.length) ∧
          (walk.run (leadsTo (Question.edges questions)) Question.onCycle
            (turns (Question.edges questions))).calls = [] := by
  refine ⟨fun questions => ⟨?_, judgeSet_of_acceptable⟩,
    fun refusal => ⟨?_, judgeSet_of_firstFault⟩, ?_⟩
  · rintro ⟨set, accepted, rfl⟩
    rcases acceptable_or_firstFault value with ⟨questions, acceptable⟩ | ⟨refusal, fault⟩
    · obtain ⟨other, other_accepted, questions_eq⟩ := judgeSet_of_acceptable acceptable
      obtain rfl := Except.ok.inj (accepted.symm.trans other_accepted)
      rwa [questions_eq]
    · rw [judgeSet_of_firstFault fault] at accepted
      cases accepted
  · intro refused
    rcases acceptable_or_firstFault value with ⟨questions, acceptable⟩ | ⟨other, fault⟩
    · obtain ⟨set, accepted, -⟩ := judgeSet_of_acceptable acceptable
      rw [accepted] at refused
      cases refused
    · rwa [← Except.error.inj ((judgeSet_of_firstFault fault).symm.trans refused)]
  · intro questions _ posed walk searching
    obtain ⟨nodup, -, -, depends⟩ := Question.posed_iff.mp posed
    obtain ⟨⟨stack_inside, calls_inside⟩, ends⟩ := Question.search_inside nodup depends searching
    exact ⟨stack_inside, calls_inside, ends⟩

end Baley
