import Mathlib.Data.Set.Defs

/-!
# The guard's answer

The answer to a git commit or push, from supplied observations only.  Under torn settings the
remembered settings of the last complete policy may deny and never allow.
-/

namespace Baley

/-! ## What the judge is given -/

/-- What a commit on a protected branch gets. -/
inductive OnProtected where
  | ask
  | refuse
  | allow
  deriving DecidableEq

/-- The three guard settings of a complete policy, or of the remembered one. -/
structure GuardSettings where
  protectedBranches : List String
  onProtected : OnProtected
  hardFail : Bool
  deriving DecidableEq

/-- Names match exactly. -/
def GuardSettings.protects (settings : GuardSettings) (branch : String) : Bool :=
  settings.protectedBranches.any fun name => name = branch

/-- Why a settings file gives no policy. -/
inductive Fault where
  /-- The file could not be opened or read. -/
  | unreadable (cause : String)
  /-- Any other fault, by the words it is described with. -/
  | described (words : String)
  deriving DecidableEq

/-- A settings file that exists but gives no policy. -/
structure Unavailable where
  path : String
  fault : Fault
  deriving DecidableEq

/-- The settings the judge is given for one call. -/
inductive SettingsInput where
  | complete (settings : GuardSettings)
  /-- The first settings file that gave no policy. -/
  | torn (torn : Unavailable)

inductive GitVerb where
  | commit
  | push
  deriving DecidableEq

/-- What the hook found out about the current branch. -/
inductive BranchObservation where
  /-- Git read the branch. -/
  | read (name : String)
  /-- Git failed, and the bounded `.git/HEAD` read named a branch. -/
  | fallback (name failure : String)
  /-- No branch was read. -/
  | unreadable (description : String)
  deriving DecidableEq

/-- The branch, from either source. -/
def BranchObservation.name : BranchObservation → Option String
  | .read name => some name
  | .fallback name _ => some name
  | .unreadable _ => none

/-- What the guard says about one tool call. -/
inductive GuardAnswer where
  | pass
  | ask (reason : String)
  | deny (reason : String)
  /-- Let through because an input could not be read. -/
  | passOnFailure (reason : String)
  deriving DecidableEq

/-! ## The reasons -/

namespace Reason

def denyGuidance : String := "Create a task branch first."

def branchWords : Option String → String
  | some name => name
  | none => "an unknown branch (git could not read it)"

def pushAsk : String :=
  "Baley guard: every git push asks for permission. Approve only if you are deliberately publishing."

def protectedAsk (branch : String) : String :=
  "Baley guard: " ++ branch ++ " is a protected branch (git.protected_branches). " ++
    "Create a task branch first, or approve to commit here deliberately."

def refuseDeny (branch : String) : String :=
  "Baley guard: git.on_protected is refuse, so a commit on the protected branch " ++ branch ++
    " is denied. " ++ denyGuidance

def hardFailDeny (branch failure : String) : String :=
  "Baley guard: git.guard_hard_fail is true, " ++ failure ++
    ", and .git/HEAD names the protected branch " ++ branch ++ ", so this commit is denied. " ++
    denyGuidance

def rememberedRefuseDeny (torn branch : String) : String :=
  "Baley guard: the settings are unavailable (" ++ torn ++ "), and the last complete settings had " ++
    "git.on_protected set to refuse, so a commit on the protected branch " ++ branch ++
    " is denied. " ++ denyGuidance

def rememberedHardFailDeny (torn failure branch : String) : String :=
  "Baley guard: the settings are unavailable (" ++ torn ++ "), the last complete settings had " ++
    "git.guard_hard_fail set to true, " ++ failure ++
    ", and .git/HEAD names the protected branch " ++ branch ++ ", so this commit is denied. " ++
    denyGuidance

def tornAsk (torn : String) (branch : Option String) : String :=
  "Baley guard: the settings are unavailable (" ++ torn ++ "), so Baley cannot check the " ++
    "protected-branch rules for a commit on " ++ branchWords branch ++
    ". Fix the file, or approve to commit here deliberately."

def failurePass (unreadable : String) : String :=
  "Baley guard: " ++ unreadable ++ ", so this commit proceeds without Baley's protected-branch " ++
    "check. This is not policy approval."

end Reason

/-- The torn file in words. -/
def Unavailable.words (torn : Unavailable) : String :=
  "config-unavailable: " ++
    match torn.fault with
    | .unreadable cause => "cannot read " ++ torn.path ++ ": " ++ cause
    | .described words => words

/-- The words for a failed branch read. -/
def unread (failure : String) : String :=
  "git could not read the branch (" ++ failure ++ ")"

/-! ## The judgement -/

/-- A commit under complete settings. -/
def completeCommit (settings : GuardSettings) : BranchObservation → GuardAnswer
  | .read name =>
      if settings.protects name then
        match settings.onProtected with
        | .refuse => .deny (Reason.refuseDeny name)
        | .ask => .ask (Reason.protectedAsk name)
        | .allow => .pass
      else .pass
  | .fallback name failure =>
      if settings.hardFail && settings.protects name then
        .deny (Reason.hardFailDeny name (unread failure))
      else .passOnFailure (Reason.failurePass (unread failure))
  | .unreadable description => .passOnFailure (Reason.failurePass (unread description))

/-- A commit under torn settings: a remembered denial denies, and anything else asks. -/
def tornCommit (torn : String) (remembered : Option GuardSettings) (branch : BranchObservation) :
    GuardAnswer :=
  match remembered, branch with
  | some last, .read name =>
      if last.onProtected = .refuse ∧ last.protects name then
        .deny (Reason.rememberedRefuseDeny torn name)
      else .ask (Reason.tornAsk torn branch.name)
  | some last, .fallback name failure =>
      if last.hardFail && last.protects name then
        .deny (Reason.rememberedHardFailDeny torn (unread failure) name)
      else .ask (Reason.tornAsk torn branch.name)
  | _, _ => .ask (Reason.tornAsk torn branch.name)

/-- Judge a `git commit` or `git push`. -/
def commitPushAnswer (verb : GitVerb) (projectBound : Bool) (settings : SettingsInput)
    (remembered : Option GuardSettings) (branch : BranchObservation) : GuardAnswer :=
  if projectBound = false then .pass
  else if verb = .push then .ask Reason.pushAsk
  else
    match settings with
    | .complete current => completeCommit current branch
    | .torn torn => tornCommit torn.words remembered branch

/-! ## Torn settings only ask or deny -/

/-- An answer that holds the call back. -/
inductive GuardAnswer.Holds : GuardAnswer → Prop
  | ask (reason : String) : Holds (.ask reason)
  | deny (reason : String) : Holds (.deny reason)

/-- An answer that refuses the call. -/
def GuardAnswer.Denies (answer : GuardAnswer) : Prop :=
  ∃ reason, answer = .deny reason

theorem tornCommit_holds (torn : String) (remembered : Option GuardSettings)
    (branch : BranchObservation) : (tornCommit torn remembered branch).Holds := by
  unfold tornCommit
  split
  · split
    · exact .deny _
    · exact .ask _
  · split
    · exact .deny _
    · exact .ask _
  · exact .ask _

/-- What complete settings deny. -/
theorem completeCommit_denies {settings : GuardSettings} {branch : BranchObservation} :
    (completeCommit settings branch).Denies ↔
      (∃ name, branch = .read name ∧ settings.onProtected = .refuse ∧
        settings.protects name = true) ∨
      ∃ name failure, branch = .fallback name failure ∧ settings.hardFail = true ∧
        settings.protects name = true := by
  cases branch with
  | read name =>
      cases guarded : settings.protects name <;> cases on_eq : settings.onProtected <;>
        simp [completeCommit, GuardAnswer.Denies, guarded, on_eq]
  | fallback name failure =>
      cases guarded : settings.protects name <;> cases hard_eq : settings.hardFail <;>
        simp [completeCommit, GuardAnswer.Denies, guarded, hard_eq]
  | unreadable description => simp [completeCommit, GuardAnswer.Denies]

/-- What torn settings deny. -/
theorem tornCommit_denies {torn : String} {last : GuardSettings} {branch : BranchObservation} :
    (tornCommit torn (some last) branch).Denies ↔
      (∃ name, branch = .read name ∧ last.onProtected = .refuse ∧ last.protects name = true) ∨
      ∃ name failure, branch = .fallback name failure ∧ last.hardFail = true ∧
        last.protects name = true := by
  cases branch with
  | read name =>
      cases guarded : last.protects name <;> cases on_eq : last.onProtected <;>
        simp [tornCommit, GuardAnswer.Denies, guarded, on_eq]
  | fallback name failure =>
      cases guarded : last.protects name <;> cases hard_eq : last.hardFail <;>
        simp [tornCommit, GuardAnswer.Denies, guarded, hard_eq]
  | unreadable description => simp [tornCommit, GuardAnswer.Denies]

end Baley
