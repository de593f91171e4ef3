import Baley.Guard.Answer
import Baley.Shell

/-!
# The commit and push scanner

It reads a shell command as plain text, in one pass, and names the git verb and the commit target,
or nothing.
-/

namespace Baley

/-- The checkout a commit names, before paths are resolved at the hook's working directory. -/
inductive CommitTarget where
  /-- No repository redirect: the hook's working directory. -/
  | cwd
  /-- The operands of `-C`, each relative to the directory before it. -/
  | directory (operands : List String)
  /-- The command does not establish one checkout for every commit. -/
  | unestablished
  deriving DecidableEq, Repr

/-- A judged git command. -/
inductive GitCommand where
  | commit (target : CommitTarget)
  | push
  deriving DecidableEq, Repr

def GitCommand.verb : GitCommand → GitVerb
  | .commit _ => .commit
  | .push => .push

/-! ## Words -/

/-- A word is kept as its characters. -/
abbrev Word := List Char

def startsWith (start : String) (word : Word) : Bool :=
  start.toList.isPrefixOf word

def endsWith (finish : String) (word : Word) : Bool :=
  finish.toList.isSuffixOf word

/-- Whether a word is one of a list. -/
def oneOf (names : List String) (word : Word) : Bool :=
  names.any fun name => name.toList = word

/-- Whether a word assigns a variable: a name before its first `=`. -/
def isAssignment (word : Word) : Bool :=
  word.contains '=' &&
    match word.takeWhile (· ≠ '=') with
    | [] => false
    | first :: rest =>
        (first.isAlpha || first = '_') && rest.all fun c => c.isAlphanum || c = '_'

/-- Commands that change the directory or the environment. -/
def changingCommands : List String :=
  ["cd", "pushd", "popd", "chdir", "export", "eval", "source", ".", "declare", "typeset"]

/-- Whether a segment changes where a later commit goes. -/
def changesCommitTarget (words : List Word) : Bool :=
  match words.dropWhile isAssignment with
  | [] => !words.isEmpty
  | command =>
      match command.dropWhile (oneOf ["builtin", "command"]) with
      | [] => false
      | head :: rest =>
          oneOf changingCommands head ||
            oneOf ["set"] head && rest.any fun word =>
              oneOf ["allexport"] word ||
                startsWith "-" word && !startsWith "--" word && word.contains 'a'

/-- Whether an operand of `-C` is expanded by the shell or left to git's choice. -/
def uncertain (operand : Word) : Bool :=
  operand.isEmpty || startsWith "~" operand ||
    operand.any fun c => c = '*' || c = '?' || c = '['

/-- Global options whose value is a word of its own. -/
def valuedOptions : List String :=
  ["-c", "--work-tree", "--namespace", "--exec-path", "--config-env"]

/-- The first word after the global options, with whether the target became unknown and the
operands of `-C`. -/
def options (unknown : Bool) (directories : List Word) :
    List Word → Option (Word × Bool × List Word)
  | [] => none
  | word :: rest =>
      if startsWith "-C" word then
        if oneOf ["-C"] word then
          match rest with
          | [] => none
          | operand :: rest =>
              options (unknown || uncertain operand) (directories ++ [operand]) rest
        else
          let attached := word.drop 2
          options (unknown || uncertain attached) (directories ++ [attached]) rest
      else if oneOf ["--git-dir"] word then
        match rest with
        | [] => none
        | _ :: rest => options true directories rest
      else if startsWith "--git-dir=" word then options true directories rest
      else if oneOf valuedOptions word then
        match rest with
        | [] => none
        | _ :: rest => options unknown directories rest
      else if startsWith "-" word then options unknown directories rest
      else some (word, unknown, directories)

/-! ## Segments -/

/-- What the segments so far said. -/
structure SegmentsJudged where
  push : Bool
  commit : Option CommitTarget
  changed : Bool

/-- Where a commit goes. -/
def targetOf (unknown : Bool) (directories : List Word) : CommitTarget :=
  if unknown then .unestablished
  else if directories = [] then .cwd
  else .directory (directories.map String.ofList)

/-- One target for the commits so far and another one. -/
def joinTarget (commit : Option CommitTarget) (target : CommitTarget) : CommitTarget :=
  match commit with
  | some previous => if previous ≠ target then .unestablished else target
  | none => target

/-- Whether a word names git. -/
def isGit (word : Word) : Bool :=
  oneOf ["git"] word || endsWith "/git" word

/-- Judge the words of one segment. -/
def SegmentsJudged.segment (judged : SegmentsJudged) (words : List Word) : SegmentsJudged :=
  let changed := judged.changed || changesCommitTarget words
  match words with
  | [] => { judged with changed }
  | head :: rest =>
      if isGit head then
        match options changed [] rest with
        | none => { judged with changed }
        | some (verb, unknown, directories) =>
            { push := judged.push || oneOf ["push"] verb
              commit :=
                if oneOf ["commit"] verb then
                  some (joinTarget judged.commit (targetOf unknown directories))
                else judged.commit
              changed }
      else { judged with changed }

/-- The answer after the last segment: push wins. -/
def SegmentsJudged.answer (judged : SegmentsJudged) : Option GitCommand :=
  if judged.push then some .push else judged.commit.map .commit

/-! ## The pass over the characters -/

/-- The state of the pass. -/
structure Scanner where
  quote : Option Char
  word : Word
  started : Bool
  words : List Word
  judged : SegmentsJudged

namespace Scanner

def start : Scanner where
  quote := none
  word := []
  started := false
  words := []
  judged := { push := false, commit := none, changed := false }

def push (scanner : Scanner) (c : Char) : Scanner :=
  { scanner with word := scanner.word ++ [c] }

def finishWord (scanner : Scanner) : Scanner :=
  if scanner.started then
    { scanner with
      words := scanner.words ++ [scanner.word]
      word := []
      started := false }
  else scanner

def segment (scanner : Scanner) : Scanner :=
  { scanner with words := [], judged := scanner.judged.segment scanner.words }

/-- White space of ASCII; a newline was seen before. -/
def isSpace (c : Char) : Bool :=
  c = ' ' || c = '\t' || c = '\n' || c = '\x0c' || c = '\r'

/-- Read the characters in one pass; nothing where the command is declined. -/
def scan (scanner : Scanner) : List Char → Option Scanner
  | [] => if scanner.quote.isSome then none else some scanner.finishWord.segment
  | c :: rest =>
      if c = '\x00' then none
      else if scanner.quote = some '\x27' then
        if c = '\x27' then scan { scanner with quote := none } rest else scan (scanner.push c) rest
      else if c = '\x5c' then
        match rest with
        | [] => none
        | escaped :: rest =>
            if escaped ≠ '\n' then scan { scanner.push escaped with started := true } rest
            else scan scanner rest
      else if c = '$' ∨ c = '\x60' then none
      else if scanner.quote = some '\x22' then
        if c = '\x22' then scan { scanner with quote := none } rest else scan (scanner.push c) rest
      else if c = '\x27' ∨ c = '\x22' then scan { scanner with quote := some c, started := true } rest
      else if c = ';' ∨ c = '|' ∨ c = '&' ∨ c = '\n' then scan scanner.finishWord.segment rest
      else if c = '(' ∨ c = ')' ∨ c = '\x7b' ∨ c = '\x7d' ∨ c = '<' ∨ c = '>' then none
      else if c = '#' ∧ scanner.started = false then none
      else if isSpace c then scan scanner.finishWord rest
      else scan { scanner.push c with started := true } rest

/-- A command that holds a NUL is declined. -/
theorem scan_nul (scanner : Scanner) (rest : List Char) : scanner.scan ('\x00' :: rest) = none := by
  rw [scan.eq_def]
  simp

end Scanner

/-- The verb and the commit target of a command, if it runs one that the guard judges. -/
def gitCommand (command : String) : Option GitCommand := do
  (← Scanner.start.scan command.toList).judged.answer

def gitVerb (command : String) : Option GitVerb :=
  (gitCommand command).map GitCommand.verb

end Baley
