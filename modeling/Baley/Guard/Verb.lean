import Mathlib.Data.List.Infix
import Baley.Guard.Scan

/-!
# The verb of a command's segments

What the segments of a command run, and where its commits go, is said of each segment with the ones
before it.  Judging the segments one after another comes to the same.
-/

namespace Baley

/-- The words after `git`: the operands of `-C`, whether a git directory is named, and the first
word after the global options. -/
inductive AfterOptions : List Word → List Word → Bool → Word → Prop
  | verb {word : Word} {rest : List Word} (undashed : startsWith "-" word = false) :
      AfterOptions (word :: rest) [] false word
  | directory {operand : Word} {rest operands : List Word} {gitDir : Bool} {verb : Word}
      (after : AfterOptions rest operands gitDir verb) :
      AfterOptions ("-C".toList :: operand :: rest) (operand :: operands) gitDir verb
  | attached {operand : Word} {rest operands : List Word} {gitDir : Bool} {verb : Word}
      (nonempty : operand ≠ []) (after : AfterOptions rest operands gitDir verb) :
      AfterOptions (("-C".toList ++ operand) :: rest) (operand :: operands) gitDir verb
  | gitDir {value : Word} {rest operands : List Word} {gitDir : Bool} {verb : Word}
      (after : AfterOptions rest operands gitDir verb) :
      AfterOptions ("--git-dir".toList :: value :: rest) operands true verb
  | gitDirAttached {value : Word} {rest operands : List Word} {gitDir : Bool} {verb : Word}
      (after : AfterOptions rest operands gitDir verb) :
      AfterOptions (("--git-dir=".toList ++ value) :: rest) operands true verb
  | valued {option value : Word} {rest operands : List Word} {gitDir : Bool} {verb : Word}
      (takes_value : oneOf valuedOptions option = true)
      (after : AfterOptions rest operands gitDir verb) :
      AfterOptions (option :: value :: rest) operands gitDir verb
  | flag {word : Word} {rest operands : List Word} {gitDir : Bool} {verb : Word}
      (dashed : startsWith "-" word = true) (not_directory : startsWith "-C" word = false)
      (not_git_dir : oneOf ["--git-dir"] word = false)
      (not_git_dir_attached : startsWith "--git-dir=" word = false)
      (no_value : oneOf valuedOptions word = false)
      (after : AfterOptions rest operands gitDir verb) :
      AfterOptions (word :: rest) operands gitDir verb

/-- A segment that runs git with a verb. -/
def RunsGit (words : List Word) (verb : String) (operands : List Word) (gitDir : Bool) : Prop :=
  ∃ head rest, words = head :: rest ∧ isGit head = true ∧
    AfterOptions rest operands gitDir verb.toList

/-- Where a commit goes: it is not established when there is a doubt. -/
inductive IsTarget (doubtful : Prop) (operands : List Word) : CommitTarget → Prop
  | unestablished (doubt : doubtful) : IsTarget doubtful operands .unestablished
  | cwd (sure : ¬doubtful) (none_given : operands = []) : IsTarget doubtful operands .cwd
  | directory (sure : ¬doubtful) (given : operands ≠ []) :
      IsTarget doubtful operands (.directory (operands.map String.ofList))

/-- The segment at a place commits to a target.  It is in doubt after an earlier segment that changes
where commits go, with a git directory, and with an operand that is not taken as it stands. -/
def CommitsAt (segments : List (List Word)) (place : Nat) (target : CommitTarget) : Prop :=
  ∃ words operands gitDir, segments[place]? = some words ∧
    RunsGit words "commit" operands gitDir ∧
    IsTarget ((∃ earlier < place, ∃ others, segments[earlier]? = some others ∧
        changesCommitTarget others = true) ∨ gitDir = true ∨
      ∃ operand ∈ operands, uncertain operand = true) operands target

/-- A segment pushes. -/
def Pushes (segments : List (List Word)) : Prop :=
  ∃ words ∈ segments, ∃ operands gitDir, RunsGit words "push" operands gitDir

/-- The answer to the segments of a command. -/
inductive Answers (segments : List (List Word)) : Option GitCommand → Prop
  | push (pushes : Pushes segments) : Answers segments (some .push)
  | commit {place : Nat} {target : CommitTarget} (no_push : ¬Pushes segments)
      (commits : CommitsAt segments place target)
      (only : ∀ other target', CommitsAt segments other target' → target' = target) :
      Answers segments (some (.commit target))
  | differing {first second : Nat} {target target' : CommitTarget} (no_push : ¬Pushes segments)
      (commits : CommitsAt segments first target) (commits' : CommitsAt segments second target')
      (differs : target ≠ target') : Answers segments (some (.commit .unestablished))
  | nothing (no_push : ¬Pushes segments) (no_commit : ∀ place target, ¬CommitsAt segments place target) :
      Answers segments none

/-! ## Options -/

theorem startsWith_iff {start : String} {word : Word} :
    startsWith start word = true ↔ ∃ rest, word = start.toList ++ rest := by
  rw [startsWith, List.isPrefixOf_iff_prefix]
  exact ⟨fun ⟨rest, same⟩ => ⟨rest, same.symm⟩, fun ⟨rest, same⟩ => ⟨rest, same.symm⟩⟩

theorem oneOf_iff {names : List String} {word : Word} :
    oneOf names word = true ↔ ∃ name ∈ names, name.toList = word := by
  simp [oneOf]

theorem eq_of_oneOf {name : String} {word : Word} (same : oneOf [name] word = true) :
    word = name.toList := by
  obtain ⟨other, other_mem, rfl⟩ := oneOf_iff.mp same
  rw [List.mem_singleton.mp other_mem]

theorem doubt_cons (unknown gitDir : Bool) (operand : Word) (operands : List Word) :
    (unknown || uncertain operand || gitDir || operands.any uncertain) =
      (unknown || gitDir || (operand :: operands).any uncertain) := by
  rw [List.any_cons]
  cases unknown <;> cases gitDir <;> cases uncertain operand <;> rfl

/-- What the options come to, given what was known before. -/
theorem options_eq_some {unknown unknown' : Bool} {directories directories' words : List Word}
    {verb : Word} (found : options unknown directories words = some (verb, unknown', directories')) :
    ∃ operands gitDir, AfterOptions words operands gitDir verb ∧
      unknown' = (unknown || gitDir || operands.any uncertain) ∧
      directories' = directories ++ operands := by
  fun_induction options unknown directories words with
  | case1 => cases found
  | case2 => cases found
  | case3 unknown directories word dashed whole operand rest ih =>
      obtain ⟨operands, gitDir, after, rfl, rfl⟩ := ih found
      rw [eq_of_oneOf whole]
      exact ⟨operand :: operands, gitDir, .directory after, doubt_cons _ _ _ _, by simp⟩
  | case4 unknown directories word rest dashed whole attached ih =>
      obtain ⟨operands, gitDir, after, rfl, rfl⟩ := ih found
      obtain ⟨operand, rfl⟩ := startsWith_iff.mp dashed
      have attached_eq : attached = operand := rfl
      have nonempty : operand ≠ [] := by
        rintro rfl
        exact whole (by decide)
      rw [attached_eq]
      exact ⟨operand :: operands, gitDir, .attached nonempty after, doubt_cons _ _ _ _, by simp⟩
  | case5 => cases found
  | case6 unknown directories word not_directory whole value rest ih =>
      obtain ⟨operands, gitDir, after, rfl, rfl⟩ := ih found
      rw [eq_of_oneOf whole]
      exact ⟨operands, true, .gitDir after, by simp, rfl⟩
  | case7 unknown directories word rest not_directory not_whole dashed ih =>
      obtain ⟨operands, gitDir, after, rfl, rfl⟩ := ih found
      obtain ⟨value, rfl⟩ := startsWith_iff.mp dashed
      exact ⟨operands, true, .gitDirAttached after, by simp, rfl⟩
  | case8 => cases found
  | case9 unknown directories word not_directory not_git_dir not_attached takes_value value rest ih =>
      obtain ⟨operands, gitDir, after, rfl, rfl⟩ := ih found
      exact ⟨operands, gitDir, .valued takes_value after, rfl, rfl⟩
  | case10 unknown directories word rest not_directory not_git_dir not_attached no_value dashed ih =>
      obtain ⟨operands, gitDir, after, rfl, rfl⟩ := ih found
      exact ⟨operands, gitDir, .flag dashed (by simpa using not_directory) (by simpa using not_git_dir)
        (by simpa using not_attached) (by simpa using no_value) after, rfl, rfl⟩
  | case11 unknown directories word rest not_directory not_git_dir not_attached no_value undashed =>
      cases found
      exact ⟨[], false, .verb (by simpa using undashed), by simp, by simp⟩

theorem startsWith_of_startsWith {long short : String} {word : Word}
    (starts : startsWith long word = true) (shorter : short.toList <+: long.toList) :
    startsWith short word = true := by
  rw [startsWith, List.isPrefixOf_iff_prefix] at starts ⊢
  exact shorter.trans starts

theorem dashed_of_oneOf {names : List String} {word : Word} (same : oneOf names word = true)
    (dashed : ∀ name ∈ names, startsWith "-" name.toList = true) : startsWith "-" word = true := by
  obtain ⟨name, name_mem, rfl⟩ := oneOf_iff.mp same
  exact dashed name name_mem

/-- The words after the options are found. -/
theorem options_of_after {words operands : List Word} {gitDir : Bool} {verb : Word}
    (after : AfterOptions words operands gitDir verb) (unknown : Bool) (directories : List Word) :
    options unknown directories words =
      some (verb, unknown || gitDir || operands.any uncertain, directories ++ operands) := by
  induction after generalizing unknown directories with
  | @verb word rest undashed =>
      have none_of {dashed : Prop} (implies : dashed → startsWith "-" word = true) : ¬dashed := by
        intro holds
        rw [implies holds] at undashed
        cases undashed
      rw [options.eq_def]
      simp only
      rw [if_neg (none_of fun starts => startsWith_of_startsWith starts (by decide)),
        if_neg (none_of fun same => dashed_of_oneOf same (by decide)),
        if_neg (none_of fun starts => startsWith_of_startsWith starts (by decide)),
        if_neg (none_of fun same => dashed_of_oneOf same (by decide)), if_neg (none_of id)]
      simp
  | directory _ ih =>
      rw [options, if_pos (by decide), if_pos (by decide), ih, doubt_cons]
      simp
  | @attached operand rest operands gitDir verb nonempty _ ih =>
      have not_whole : ¬oneOf ["-C"] ("-C".toList ++ operand) = true := by
        intro same
        have same_length := congrArg List.length (eq_of_oneOf same)
        rw [List.length_append] at same_length
        exact nonempty (List.length_eq_zero_iff.mp (by omega))
      have dropped : ("-C".toList ++ operand).drop 2 = operand := rfl
      rw [options.eq_def]
      simp only
      rw [if_pos (startsWith_iff.mpr ⟨operand, rfl⟩), if_neg not_whole, dropped, ih, doubt_cons]
      simp
  | gitDir _ ih =>
      rw [options, if_neg (by decide), if_pos (by decide), ih]
      simp
  | @gitDirAttached value rest operands gitDir verb _ ih =>
      have not_whole : ¬oneOf ["--git-dir"] ("--git-dir=".toList ++ value) = true := by
        intro same
        have same_length := congrArg List.length (eq_of_oneOf same)
        have whole_length : "--git-dir".toList.length = 9 := by decide
        have attached_length : "--git-dir=".toList.length = 10 := by decide
        rw [List.length_append] at same_length
        omega
      have not_directory : ¬startsWith "-C" ("--git-dir=".toList ++ value) = true := by
        intro starts
        obtain ⟨rest, same⟩ := startsWith_iff.mp starts
        have second := congrArg (fun word => word[1]?) same
        have value_second : ("--git-dir=".toList ++ value)[1]? = some '-' := rfl
        have directory_second : ("-C".toList ++ rest)[1]? = some 'C' := rfl
        simp only [value_second, directory_second] at second
        cases second
      rw [options.eq_def]
      simp only
      rw [if_neg not_directory, if_neg not_whole, if_pos (startsWith_iff.mpr ⟨value, rfl⟩), ih]
      simp
  | @valued option value rest operands gitDir verb takes_value _ ih =>
      have others : startsWith "-C" option = false ∧ oneOf ["--git-dir"] option = false ∧
          startsWith "--git-dir=" option = false := by
        obtain ⟨name, name_mem, rfl⟩ := oneOf_iff.mp takes_value
        revert name
        decide
      rw [options, if_neg (by simp [others.1]), if_neg (by simp [others.2.1]),
        if_neg (by simp [others.2.2]), if_pos takes_value, ih]
  | flag dashed not_directory not_git_dir not_attached no_value _ ih =>
      rw [options.eq_def]
      simp only
      rw [if_neg (by simp [not_directory]), if_neg (by simp [not_git_dir]),
        if_neg (by simp [not_attached]), if_neg (by simp [no_value]), if_pos dashed]
      exact ih unknown directories

/-! ## One segment -/

/-- What a segment runs is determined by its words. -/
theorem RunsGit.unique {words operands operands' : List Word} {gitDir gitDir' : Bool}
    {verb verb' : String} (runs : RunsGit words verb operands gitDir)
    (runs' : RunsGit words verb' operands' gitDir') :
    verb.toList = verb'.toList ∧ operands = operands' ∧
      (gitDir || operands.any uncertain) = (gitDir' || operands'.any uncertain) := by
  obtain ⟨head, rest, rfl, -, after⟩ := runs
  obtain ⟨head', rest', same, -, after'⟩ := runs'
  cases same
  have found := options_of_after after false []
  rw [options_of_after after' false []] at found
  simp only [Bool.false_or, List.nil_append, Option.some.injEq, Prod.mk.injEq] at found
  exact ⟨found.1.symm, found.2.2.symm, found.2.1.symm⟩

/-- The target of a commit in the terms of the scanner. -/
theorem isTarget_targetOf {doubtful : Prop} {unknown : Bool} (unknown_iff : unknown = true ↔ doubtful)
    (operands : List Word) (target : CommitTarget) :
    IsTarget doubtful operands target ↔ target = targetOf unknown operands := by
  unfold targetOf
  constructor
  · intro isTarget
    cases isTarget with
    | unestablished doubt => rw [if_pos (unknown_iff.mpr doubt)]
    | cwd sure none_given => rw [if_neg (mt unknown_iff.mp sure), if_pos none_given]
    | directory sure given => rw [if_neg (mt unknown_iff.mp sure), if_neg given]
  · rintro rfl
    split_ifs with doubt none_given
    · exact .unestablished (unknown_iff.mp doubt)
    · exact .cwd (mt unknown_iff.mpr doubt) none_given
    · exact .directory (mt unknown_iff.mpr doubt) none_given

/-- A first word that is a verb or an option neither assigns nor changes anything. -/
theorem changes_of_undecided {head word : Word} {rest : List Word} (git : isGit head = true)
    (not_assigned : isAssignment word = false) (not_wrapper : oneOf ["builtin", "command"] word = false)
    (not_changing : oneOf changingCommands word = false) (not_set : oneOf ["set"] word = false) :
    changesCommitTarget (head :: word :: rest) = false := by
  have head_plain : oneOf ["builtin", "command"] head = false ∧
      oneOf changingCommands head = false ∧ oneOf ["set"] head = false := by
    have not_named {names : List String} (apart : ∀ name ∈ names, isGit name.toList = false) :
        oneOf names head = false := by
      refine Bool.eq_false_iff.mpr fun named => ?_
      obtain ⟨name, name_mem, rfl⟩ := oneOf_iff.mp named
      rw [apart name name_mem] at git
      cases git
    exact ⟨not_named (by decide), not_named (by decide), not_named (by decide)⟩
  unfold changesCommitTarget
  cases assigned : isAssignment head with
  | true => simp [assigned, not_assigned, not_wrapper, not_changing, not_set]
  | false => simp [assigned, head_plain]

/-- What runs a commit changes nothing for itself. -/
theorem changes_of_commit {words operands : List Word} {gitDir : Bool}
    (runs : RunsGit words "commit" operands gitDir) : changesCommitTarget words = false := by
  obtain ⟨head, rest, rfl, git, after⟩ := runs
  have dashed_plain {word : Word} (dashed : startsWith "-" word = true) :
      isAssignment word = false ∧ oneOf ["builtin", "command"] word = false ∧
        oneOf changingCommands word = false ∧ oneOf ["set"] word = false := by
    obtain ⟨rest, rfl⟩ := startsWith_iff.mp dashed
    have not_named {names : List String} (undashed : ∀ name ∈ names, startsWith "-" name.toList = false) :
        oneOf names ("-".toList ++ rest) = false := by
      refine Bool.eq_false_iff.mpr fun named => ?_
      obtain ⟨name, name_mem, same⟩ := oneOf_iff.mp named
      have undashed_word := undashed name name_mem
      rw [same, dashed] at undashed_word
      cases undashed_word
    refine ⟨?_, not_named (by decide), not_named (by decide), not_named (by decide)⟩
    have undashed : ('-' : Char).isAlpha = false := by decide
    simp [isAssignment, undashed]
  have after_dash {word : Word} {rest : List Word} (dashed : startsWith "-" word = true) :
      changesCommitTarget (head :: word :: rest) = false := by
    obtain ⟨not_assigned, not_wrapper, not_changing, not_set⟩ := dashed_plain dashed
    exact changes_of_undecided git not_assigned not_wrapper not_changing not_set
  cases after with
  | verb undashed => exact changes_of_undecided git (by decide) (by decide) (by decide) (by decide)
  | directory _ => exact after_dash (by decide)
  | @attached operand _ _ _ _ _ _ =>
      exact after_dash (startsWith_of_startsWith (startsWith_iff.mpr ⟨operand, rfl⟩)
        (by decide : "-".toList <+: "-C".toList))
  | gitDir _ => exact after_dash (by decide)
  | @gitDirAttached value _ _ _ _ _ =>
      exact after_dash (startsWith_of_startsWith (startsWith_iff.mpr ⟨value, rfl⟩)
        (by decide : "-".toList <+: "--git-dir=".toList))
  | valued takes_value _ => exact after_dash (dashed_of_oneOf takes_value (by decide))
  | flag dashed _ _ _ _ _ => exact after_dash dashed

/-! ## Judging segment after segment -/

theorem segment_commit {words operands : List Word} {gitDir : Bool}
    (runs : RunsGit words "commit" operands gitDir) (judged : SegmentsJudged) :
    judged.segment words =
      { push := judged.push
        commit := some (joinTarget judged.commit
          (targetOf (judged.changed || gitDir || operands.any uncertain) operands))
        changed := judged.changed } := by
  have unchanged := changes_of_commit runs
  obtain ⟨head, rest, rfl, git, after⟩ := runs
  have not_push : oneOf ["push"] "commit".toList = false := by decide
  have is_commit : oneOf ["commit"] "commit".toList = true := by decide
  generalize "commit".toList = verb at after not_push is_commit
  simp [SegmentsJudged.segment, unchanged, git, options_of_after after, not_push, is_commit]

theorem segment_push {words operands : List Word} {gitDir : Bool}
    (runs : RunsGit words "push" operands gitDir) (judged : SegmentsJudged) :
    judged.segment words =
      { push := true
        commit := judged.commit
        changed := judged.changed || changesCommitTarget words } := by
  obtain ⟨head, rest, rfl, git, after⟩ := runs
  have is_push : oneOf ["push"] "push".toList = true := by decide
  have not_commit : oneOf ["commit"] "push".toList = false := by decide
  generalize "push".toList = verb at after is_push not_commit
  simp [SegmentsJudged.segment, git, options_of_after after, is_push, not_commit]

theorem segment_other {words : List Word}
    (no_commit : ∀ operands gitDir, ¬RunsGit words "commit" operands gitDir)
    (no_push : ∀ operands gitDir, ¬RunsGit words "push" operands gitDir) (judged : SegmentsJudged) :
    judged.segment words =
      { judged with changed := judged.changed || changesCommitTarget words } := by
  cases words with
  | nil => rfl
  | cons head rest =>
      unfold SegmentsJudged.segment
      simp only
      split_ifs with git
      · split
        · rfl
        · next verb unknown directories found =>
            obtain ⟨operands, gitDir, after, -, -⟩ := options_eq_some found
            have not_verb {name : String}
                (not_run : ∀ operands gitDir, ¬RunsGit (head :: rest) name operands gitDir) :
                oneOf [name] verb = false := by
              refine Bool.eq_false_iff.mpr fun same => ?_
              obtain rfl := eq_of_oneOf same
              exact not_run operands gitDir ⟨head, rest, rfl, git, after⟩
            simp [not_verb no_commit, not_verb no_push]
      · rfl

/-- One segment more: it commits after all the others. -/
theorem commitsAt_concat {segments : List (List Word)} {words : List Word} {place : Nat}
    {target : CommitTarget} :
    CommitsAt (segments ++ [words]) place target ↔ CommitsAt segments place target ∨
      place = segments.length ∧ ∃ operands gitDir, RunsGit words "commit" operands gitDir ∧
        IsTarget ((∃ others ∈ segments, changesCommitTarget others = true) ∨ gitDir = true ∨
          ∃ operand ∈ operands, uncertain operand = true) operands target := by
  have earlier_iff {place : Nat} (inside : place ≤ segments.length) :
      (∃ earlier < place, ∃ others, (segments ++ [words])[earlier]? = some others ∧
          changesCommitTarget others = true) ↔
        ∃ earlier < place, ∃ others, segments[earlier]? = some others ∧
          changesCommitTarget others = true := by
    refine exists_congr fun earlier => and_congr_right fun before => ?_
    rw [List.getElem?_append_left (by omega)]
  have all_iff : (∃ earlier < segments.length, ∃ others, segments[earlier]? = some others ∧
      changesCommitTarget others = true) ↔
        ∃ others ∈ segments, changesCommitTarget others = true := by
    constructor
    · rintro ⟨earlier, -, others, found, changes⟩
      exact ⟨others, List.mem_of_getElem? found, changes⟩
    · rintro ⟨others, others_mem, changes⟩
      obtain ⟨earlier, inside, rfl⟩ := List.mem_iff_getElem.mp others_mem
      exact ⟨earlier, inside, _, List.getElem?_eq_getElem inside, changes⟩
  constructor
  · rintro ⟨other, operands, gitDir, found, runs, isTarget⟩
    rcases lt_trichotomy place segments.length with inside | last | outside
    · rw [List.getElem?_append_left inside] at found
      rw [earlier_iff inside.le] at isTarget
      exact .inl ⟨other, operands, gitDir, found, runs, isTarget⟩
    · subst last
      rw [earlier_iff le_rfl, all_iff] at isTarget
      obtain rfl : words = other := by simpa using found
      exact .inr ⟨rfl, operands, gitDir, runs, isTarget⟩
    · rw [List.getElem?_eq_none (by simp; omega)] at found
      cases found
  · rintro (⟨other, operands, gitDir, found, runs, isTarget⟩ | ⟨rfl, operands, gitDir, runs, isTarget⟩)
    · have inside := (List.getElem?_eq_some_iff.mp found).1
      refine ⟨other, operands, gitDir, ?_, runs, ?_⟩
      · rw [List.getElem?_append_left inside, found]
      · rwa [earlier_iff inside.le]
    · refine ⟨words, operands, gitDir, by simp, runs, ?_⟩
      rwa [earlier_iff le_rfl, all_iff]

/-- What was judged of the segments so far. -/
structure Agrees (segments : List (List Word)) (judged : SegmentsJudged) : Prop where
  push_iff : judged.push = true ↔ Pushes segments
  changed_iff : judged.changed = true ↔ ∃ words ∈ segments, changesCommitTarget words = true
  none_iff : judged.commit = none ↔ ∀ place target, ¬CommitsAt segments place target
  only_or_differing : ∀ target, judged.commit = some target →
    (∀ place target', CommitsAt segments place target' → target' = target) ∨
      target = .unestablished ∧ ∃ first second target target', CommitsAt segments first target ∧
        CommitsAt segments second target' ∧ target ≠ target'

theorem agrees_start : Agrees [] Scanner.start.judged where
  push_iff := by simp [Scanner.start, Pushes]
  changed_iff := by simp [Scanner.start]
  none_iff := by simp [Scanner.start, CommitsAt]
  only_or_differing := by simp [Scanner.start]

theorem pushes_concat {segments : List (List Word)} {words : List Word} :
    Pushes (segments ++ [words]) ↔
      Pushes segments ∨ ∃ operands gitDir, RunsGit words "push" operands gitDir := by
  simp [Pushes, or_and_right, exists_or]

theorem Agrees.segment {segments : List (List Word)} {judged : SegmentsJudged} (agrees : Agrees segments judged)
    (words : List Word) : Agrees (segments ++ [words]) (judged.segment words) := by
  obtain ⟨push_iff, changed_iff, none_iff, only_or_differing⟩ := agrees
  have changes_iff : (∃ others ∈ segments ++ [words], changesCommitTarget others = true) ↔
      (∃ others ∈ segments, changesCommitTarget others = true) ∨ changesCommitTarget words = true := by
    simp [or_and_right, exists_or]
  by_cases commits : ∃ operands gitDir, RunsGit words "commit" operands gitDir
  · obtain ⟨operands, gitDir, runs⟩ := commits
    have no_push : ¬∃ operands gitDir, RunsGit words "push" operands gitDir := by
      rintro ⟨_, _, runs'⟩
      exact absurd (runs.unique runs').1 (by decide)
    have unchanged := changes_of_commit runs
    obtain ⟨last, last_eq⟩ : ∃ last,
        targetOf (judged.changed || gitDir || operands.any uncertain) operands = last := ⟨_, rfl⟩
    have last_iff (target : CommitTarget) : (∃ operands gitDir, RunsGit words "commit" operands gitDir ∧
        IsTarget ((∃ others ∈ segments, changesCommitTarget others = true) ∨ gitDir = true ∨
          ∃ operand ∈ operands, uncertain operand = true) operands target) ↔ target = last := by
      have target_iff (operands : List Word) (gitDir : Bool) :
          IsTarget ((∃ others ∈ segments, changesCommitTarget others = true) ∨ gitDir = true ∨
            ∃ operand ∈ operands, uncertain operand = true) operands target ↔
          target = targetOf (judged.changed || gitDir || operands.any uncertain) operands := by
        refine isTarget_targetOf ?_ operands target
        rw [Bool.or_eq_true, Bool.or_eq_true, changed_iff, List.any_eq_true, or_assoc]
      rw [← last_eq]
      constructor
      · rintro ⟨operands', gitDir', runs', isTarget⟩
        obtain ⟨-, rfl, doubt_eq⟩ := runs.unique runs'
        rw [target_iff, Bool.or_assoc, ← doubt_eq, ← Bool.or_assoc] at isTarget
        exact isTarget
      · rintro rfl
        exact ⟨operands, gitDir, runs, (target_iff operands gitDir).mpr rfl⟩
    have commitsAt_iff (place : Nat) (target : CommitTarget) :
        CommitsAt (segments ++ [words]) place target ↔
          CommitsAt segments place target ∨ place = segments.length ∧ target = last := by
      rw [commitsAt_concat, last_iff]
    have commits_last : CommitsAt (segments ++ [words]) segments.length last :=
      (commitsAt_iff _ _).mpr (.inr ⟨rfl, rfl⟩)
    rw [segment_commit runs, last_eq]
    refine ⟨?_, ?_, ?_, ?_⟩
    · rw [pushes_concat, push_iff, or_iff_left no_push]
    · rw [changes_iff, unchanged, changed_iff]
      simp
    · simp only [reduceCtorEq, false_iff, not_forall, not_not]
      exact ⟨_, _, commits_last⟩
    · intro target joined
      have lift {place : Nat} {target : CommitTarget} (commits : CommitsAt segments place target) :
          CommitsAt (segments ++ [words]) place target := (commitsAt_iff _ _).mpr (.inl commits)
      cases commit_eq : judged.commit with
      | none =>
          rw [commit_eq] at joined
          obtain rfl : last = target := Option.some.inj joined
          refine .inl fun place target' commits => ?_
          rcases (commitsAt_iff place target').mp commits with earlier | ⟨-, same⟩
          · exact absurd earlier (none_iff.mp commit_eq place target')
          · exact same
      | some previous =>
          rw [commit_eq, joinTarget] at joined
          have some_earlier : ∃ place target, CommitsAt segments place target := by
            by_contra none_earlier
            push Not at none_earlier
            rw [none_iff.mpr none_earlier] at commit_eq
            cases commit_eq
          split_ifs at joined with differs
          · obtain rfl : CommitTarget.unestablished = target := Option.some.inj joined
            refine .inr ⟨rfl, ?_⟩
            rcases only_or_differing previous commit_eq with only | ⟨-, differing⟩
            · obtain ⟨place, target, commits⟩ := some_earlier
              obtain rfl := only place target commits
              exact ⟨place, segments.length, target, last, lift commits, commits_last, differs⟩
            · obtain ⟨first, second, target, target', commits, commits', apart⟩ := differing
              exact ⟨first, second, target, target', lift commits, lift commits', apart⟩
          · obtain rfl : last = target := Option.some.inj joined
            obtain rfl := not_not.mp differs
            rcases only_or_differing previous commit_eq with only | ⟨same, differing⟩
            · refine .inl fun place target' commits => ?_
              rcases (commitsAt_iff place target').mp commits with earlier | ⟨-, same⟩
              · exact only place target' earlier
              · exact same
            · obtain ⟨first, second, target, target', commits, commits', apart⟩ := differing
              exact .inr ⟨same, first, second, target, target', lift commits, lift commits', apart⟩
  · have no_commit : ∀ operands gitDir, ¬RunsGit words "commit" operands gitDir :=
      fun operands gitDir runs => commits ⟨operands, gitDir, runs⟩
    have commitsAt_iff (place : Nat) (target : CommitTarget) :
        CommitsAt (segments ++ [words]) place target ↔ CommitsAt segments place target := by
      rw [commitsAt_concat, or_iff_left]
      rintro ⟨-, operands, gitDir, runs, -⟩
      exact no_commit operands gitDir runs
    have changed_iff' : (judged.changed || changesCommitTarget words) = true ↔
        ∃ others ∈ segments ++ [words], changesCommitTarget others = true := by
      rw [Bool.or_eq_true, changed_iff, changes_iff]
    by_cases pushes : ∃ operands gitDir, RunsGit words "push" operands gitDir
    · obtain ⟨operands, gitDir, runs⟩ := pushes
      rw [segment_push runs]
      refine ⟨?_, changed_iff', ?_, ?_⟩
      · rw [pushes_concat]
        exact ⟨fun _ => .inr ⟨operands, gitDir, runs⟩, fun _ => rfl⟩
      · simpa only [commitsAt_iff] using none_iff
      · simpa only [commitsAt_iff] using only_or_differing
    · rw [segment_other no_commit fun operands gitDir runs => pushes ⟨operands, gitDir, runs⟩]
      refine ⟨?_, changed_iff', ?_, ?_⟩
      · rw [pushes_concat, or_iff_left pushes]
        exact push_iff
      · simpa only [commitsAt_iff] using none_iff
      · simpa only [commitsAt_iff] using only_or_differing

/-- Judging all segments agrees with what is said of them. -/
theorem agrees_foldl (segments : List (List Word)) :
    Agrees segments (segments.foldl SegmentsJudged.segment Scanner.start.judged) := by
  induction segments using List.reverseRecOn with
  | nil => exact agrees_start
  | append_singleton segments words ih =>
      rw [List.foldl_append]
      exact ih.segment words

/-- The answer is the one to the segments, and there is no other. -/
theorem answers_iff (segments : List (List Word)) (answer : Option GitCommand) :
    Answers segments answer ↔
      (segments.foldl SegmentsJudged.segment Scanner.start.judged).answer = answer := by
  obtain ⟨push_iff, -, none_iff, only_or_differing⟩ := agrees_foldl segments
  generalize segments.foldl SegmentsJudged.segment Scanner.start.judged = judged at *
  unfold SegmentsJudged.answer
  constructor
  · intro answers
    cases answers with
    | push pushes => rw [if_pos (push_iff.mpr pushes)]
    | @commit place target no_push commits only =>
        rw [if_neg (mt push_iff.mp no_push)]
        cases commit_eq : judged.commit with
        | none => exact absurd commits (none_iff.mp commit_eq _ _)
        | some found =>
            rcases only_or_differing found commit_eq with same | ⟨-, differing⟩
            · rw [same place target commits]
              rfl
            · obtain ⟨first, second, target', target'', commits', commits'', apart⟩ := differing
              rw [only _ _ commits', only _ _ commits''] at apart
              exact absurd rfl apart
    | @differing first second target target' no_push commits commits' differs =>
        rw [if_neg (mt push_iff.mp no_push)]
        cases commit_eq : judged.commit with
        | none => exact absurd commits (none_iff.mp commit_eq _ _)
        | some found =>
            rcases only_or_differing found commit_eq with same | ⟨rfl, -⟩
            · rw [same _ _ commits, same _ _ commits'] at differs
              exact absurd rfl differs
            · rfl
    | nothing no_push no_commit =>
        rw [if_neg (mt push_iff.mp no_push), none_iff.mpr no_commit]
        rfl
  · rintro rfl
    split_ifs with push
    · exact .push (push_iff.mp push)
    · have no_push := mt push_iff.mpr push
      cases commit_eq : judged.commit with
      | none => exact .nothing no_push (none_iff.mp commit_eq)
      | some target =>
          rcases only_or_differing target commit_eq with only | ⟨rfl, differing⟩
          · have some_commit : ∃ place target, CommitsAt segments place target := by
              by_contra none_earlier
              push Not at none_earlier
              rw [none_iff.mpr none_earlier] at commit_eq
              cases commit_eq
            obtain ⟨place, target', commits⟩ := some_commit
            obtain rfl := only place target' commits
            exact .commit no_push commits only
          · obtain ⟨first, second, target, target', commits, commits', apart⟩ := differing
            exact .differing no_push commits commits' apart

end Baley
