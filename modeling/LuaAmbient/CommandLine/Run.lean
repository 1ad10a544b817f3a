/-
Running command lines.

Main definitions:

* `LuaAmbient.CommandLine.Setting` — where a command is run;
* `LuaAmbient.CommandLine.Outcome` — what a command leaves: an exit code, messages for the user and
  the file tree;
* `LuaAmbient.CommandLine.run` — **a command line is run on a file tree**.
-/

import LuaAmbient.CommandLine.Arguments
import LuaAmbient.Project

set_option autoImplicit false

namespace LuaAmbient.CommandLine

/-- Where a command is run. -/
structure Setting where
  engine : Project.Engine
  workingDirectory : Place
  /-- The home directory of the user of a name, if it is known; no name is that of the current
  user. -/
  home : String → Option String
  /-- A place that is free. -/
  scratch : Place

/-- How a command ends. -/
inductive Ending where
  /-- The command has been run, with an exit code and messages for the user. -/
  | done (code : Nat) (messages : List String)
  /-- There was no command to run. -/
  | stopped (stop : Stop)
  /-- There was no way to go on. -/
  | failed (fault : Project.Fault)
deriving Repr, DecidableEq, Inhabited

/-- The lines of messages for the user. -/
def linesOf (messages : List String) : List String :=
  messages.flatMap fun m => Text.stringLines (m ++ "\n")

/-- What a command leaves. -/
structure Outcome where
  ending : Ending
  tree : FileTree

/-! ### Messages for the user -/

/-- Whether a message is shown. -/
def isShown (verbose : Bool) (entry : Log.Entry) : Bool :=
  verbose || entry.level != .debug

/-- The messages that are shown. -/
def logMessages (verbose : Bool) (log : List Log.Entry) : List String :=
  (log.filter (isShown verbose)).map fun e => "[luats] " ++ e.line

/-- The message about settings that cannot be used. -/
def settingsMessage (message : String) : String :=
  "config error: " ++ message

/-- The messages about the differences that a verification has found. -/
def differenceMessages (d : Project.Difference) : List String :=
  d.missing.map ("missing: " ++ ·) ++ d.extra.map ("extra: " ++ ·) ++
    d.mismatches.map ("mismatches: " ++ ·)

/-! ### Places -/

/-- The place of a path that the user gives, links not being followed.  A tilde at its start stands
for the home directory of the user whose name follows. -/
def placeOf (setting : Setting) (path : String) : Except Breakdown Place :=
  let names := Place.ofPath path
  if path.toList.head? == some '/' then .ok names
  else
    match names.head?.map String.toList with
    | some ('~' :: user) =>
      match setting.home (String.ofList user) with
      | some home => .ok (Place.ofPath home ++ names.tail)
      | none => .error .unknownHome
    | _ => .ok (setting.workingDirectory ++ names)

/-- The place that a path of the user leads to. -/
def locate (setting : Setting) (tree : FileTree) (path : String) : Except Breakdown Place := do
  tree.resolve (← placeOf setting path)

/-- The place of the output that a command asks for. -/
def locateOutput (setting : Setting) (tree : FileTree) (root : Place) (outDir : Option String) :
    Except Project.Fault Place :=
  match outDir with
  | some path => (locate setting tree path).mapError .breakdown
  | none => Except.mapError Project.Fault.ofSettings do
    let settings ← Settings.load tree root
    Settings.locateOutput tree root settings.outputDir

/-! ### Commands -/

/-- How a command ends that has met a fault, after messages for the user. -/
def endingOf (messages : List String) (output : Place) : Project.Fault → Ending
  | .settings fault => .done 2 (messages ++ [settingsMessage fault.message])
  | .breakdown cause => .failed (.breakdown cause)
  | .path fault => .failed (.path fault)
  | fault => .done 2 (messages ++ ["out-dir: " ++ Place.text output, "error: " ++ fault.message])

/-- Runs the generator. -/
def runGenerate (setting : Setting) (tree : FileTree) (command : Command) (root output : Place) :
    Outcome :=
  let run := Project.generate setting.engine tree root
    { output := some output, force := command.force
      symbolIndex := if command.symbolIndex then some true else none }
  let messages := logMessages command.verbose run.log
  match run.result with
  | .ok (_, result) => ⟨.done (if result.isOk then 0 else 1) messages, run.tree⟩
  | .error fault => ⟨endingOf messages output fault, run.tree⟩

/-- Verifies the output. -/
def runVerify (setting : Setting) (tree : FileTree) (command : Command) (root output : Place) :
    Ending :=
  let (result, log) := Project.verify setting.engine setting.scratch tree root none output
  let messages := logMessages command.verbose log
  match result with
  | .ok d => .done (if d.isEmpty then 0 else 1) (messages ++ differenceMessages d)
  | .error fault => endingOf messages output fault

/-- Whether the number of workers that a command asks for is none that can work. -/
def hasBadWorkers (command : Command) : Bool :=
  match command.workers with
  | some n => n < 1
  | none => false

/-- Runs a command. -/
def runCommand (setting : Setting) (tree : FileTree) (command : Command) : Outcome :=
  match locate setting tree command.root with
  | .error cause => ⟨.failed (.breakdown cause), tree⟩
  | .ok root =>
    if hasBadWorkers command then ⟨.done 2 ["error: --workers must be at least 1"], tree⟩
    else
      match locateOutput setting tree root command.outDir with
      | .error fault => ⟨endingOf [] [] fault, tree⟩
      | .ok output =>
        match command.task with
        | .generate => runGenerate setting tree command root output
        | .verify => ⟨runVerify setting tree command root output, tree⟩

/-- Runs a command line. -/
def run (setting : Setting) (tree : FileTree) (args : List String) : Outcome :=
  match parse args with
  | .error stop => ⟨.stopped stop, tree⟩
  | .ok command => runCommand setting tree command

end LuaAmbient.CommandLine
