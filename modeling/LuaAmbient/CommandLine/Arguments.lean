/-
Reading command lines.

A command line is a command with options and at most one root.  Long options may be cut short as
long as they stay unique, take their values behind an equals sign or as the next argument, and stand
before or behind the root.  Behind two dashes all arguments are plain.

Main definitions:

* `LuaAmbient.CommandLine.Command` — what the user asks for;
* `LuaAmbient.CommandLine.Token`, `LuaAmbient.CommandLine.classify` — what an argument is;
* `LuaAmbient.CommandLine.parse` — **the command of a command line**.
-/

import LuaAmbient.Keyed
import LuaAmbient.Text.Blank
import LuaAmbient.Text.DecimalDigit
import LuaAmbient.Text.Line
import LuaAmbient.Text.Search

set_option autoImplicit false

namespace LuaAmbient.CommandLine

/-! ### Options -/

/-- What an option is about. -/
inductive Choice where
  | help
  | verbose
  | force
  | symbolIndex
  | outDir
  | workers
deriving Repr, DecidableEq, Inhabited

/-- Whether an option takes a value. -/
def Choice.takesValue : Choice → Bool
  | .outDir => true
  | .workers => true
  | _ => false

/-- The options before the command. -/
def commonNames : List (String × Choice) :=
  [("-h", .help), ("--help", .help)]

/-- What a command does. -/
inductive Task where
  | generate
  | verify
deriving Repr, DecidableEq, Inhabited

/-- The options of a command. -/
def Task.names : Task → List (String × Choice)
  | .generate => commonNames ++ [("--out-dir", .outDir), ("-v", .verbose), ("--verbose", .verbose),
      ("--force", .force), ("--workers", .workers), ("--symbol-index", .symbolIndex)]
  | .verify => commonNames ++ [("--out-dir", .outDir), ("-v", .verbose), ("--verbose", .verbose)]

/-- How the program is used. -/
def usage : String :=
  "usage: luats [-h] generate [-h] [--out-dir OUT_DIR] [-v] [--force] [--workers WORKERS]\n" ++
  "                           [--symbol-index] [root]\n" ++
  "       luats [-h] verify [-h] [--out-dir OUT_DIR] [-v] [root]"

/-- What the user asks for. -/
structure Command where
  task : Task
  root : String := "."
  outDir : Option String := none
  verbose : Bool := false
  force : Bool := false
  workers : Option Int := none
  symbolIndex : Bool := false
deriving Repr, DecidableEq, Inhabited

/-- Why a command line gives no command. -/
inductive Stop where
  /-- The user asks for help. -/
  | help
  /-- The command line makes no sense. -/
  | usage
deriving Repr, DecidableEq, Inhabited

/-! ### Single arguments -/

/-- What an argument is. -/
inductive Token where
  | plain (text : String)
  /-- Two dashes. -/
  | divider
  /-- An option, with the text that is given with it in one argument: behind an equals sign, or
  right behind its letter. -/
  | known (choice : Choice) (short : Bool) (attached : Option (List Char))
  | unknown
deriving Repr, DecidableEq, Inhabited

/-- Whether a name has one dash. -/
def isShort (name : String) : Bool :=
  !("--".toList.isPrefixOf name.toList)

/-- Whether a text is a negative number in digits of any script.  A line feed at its end does not
count. -/
def isNegativeNumber : List Char → Bool
  | '-' :: rest =>
    let digits := Text.chomp rest
    match digits.dropWhile Text.isDecimal with
    | [] => !digits.isEmpty
    | '.' :: fraction => !fraction.isEmpty && fraction.all Text.isDecimal
    | _ => false
  | _ => false

/-- The text before and behind the first equals sign. -/
def splitEquals (s : List Char) : List Char × Option (List Char) :=
  match s.dropWhile (· != '=') with
  | '=' :: rest => (s.takeWhile (· != '='), some rest)
  | _ => (s, none)

/-- All that an option which is cut short, or has a text right behind it, may mean. -/
def candidates (names : List (String × Choice)) (s : List Char) : List Token :=
  match s with
  | '-' :: '-' :: _ =>
    let (start, attached) := splitEquals s
    (names.filter fun n => start.isPrefixOf n.1.toList).map fun n =>
      .known n.2 (isShort n.1) attached
  | _ =>
    names.filterMap fun n =>
      if n.1.toList == s.take 2 then some (.known n.2 true (some (s.drop 2)))
      else if s.isPrefixOf n.1.toList then some (.known n.2 (isShort n.1) none)
      else none

/-- What an argument before a divider is. -/
def classify (names : List (String × Choice)) (arg : String) : Except Stop Token :=
  match arg.toList with
  | '-' :: rest =>
    let s := '-' :: rest
    match Keyed.get? names arg with
    | some choice => .ok (.known choice (isShort arg) none)
    | none =>
      if rest.isEmpty then .ok (.plain arg)
      else
        let (name, attached) := splitEquals s
        match attached.bind fun _ => Keyed.get? names (String.ofList name) with
        | some choice => .ok (.known choice (isShort (String.ofList name)) attached)
        | none =>
          match candidates names s with
          | [token] => .ok token
          | _ :: _ :: _ => .error .usage
          | [] =>
            if isNegativeNumber s || s.contains ' ' then .ok (.plain arg) else .ok .unknown
  | _ => .ok (.plain arg)

/-- What all arguments are. -/
def classifyAll (names : List (String × Choice)) : List String → Except Stop (List Token)
  | [] => .ok []
  | arg :: rest =>
    if arg == "--" then .ok (.divider :: rest.map .plain)
    else do
      let token ← classify names arg
      return token :: (← classifyAll names rest)

/-! ### Numbers -/

/-- The most digits of an integer. -/
def digitLimit : Nat := 4300

/-- Digits of any scripts with single underscores between them. -/
def groupedDigits? (s : List Char) : Option Nat := do
  let groups := Text.splitOn '_' s
  if groups.any List.isEmpty then none
  let digits ← groups.flatten.mapM Text.decimalValue?
  if digitLimit < digits.length then none
  return digits.foldl (fun n d => n * 10 + d) 0

/-- An integer with an optional sign and white space around it. -/
def readInt? (s : String) : Option Int :=
  match Text.trim s.toList with
  | '-' :: digits => (groupedDigits? digits).map fun n => -(n : Int)
  | '+' :: digits => (groupedDigits? digits).map Int.ofNat
  | digits => (groupedDigits? digits).map Int.ofNat

/-! ### Commands -/

/-- The state while arguments are read: the command so far, whether the root has been read, and
whether there is an argument too many. -/
structure Progress where
  command : Command
  rootRead : Bool := false
  surplus : Bool := false
deriving Repr, DecidableEq, Inhabited

/-- Takes a plain argument. -/
def Progress.takePlain (p : Progress) (text : String) : Progress :=
  if p.rootRead then { p with surplus := true }
  else { p with command := { p.command with root := text }, rootRead := true }

/-- Takes an option that has no value. -/
def Progress.takeFlag (p : Progress) : Choice → Except Stop Progress
  | .help => .error .help
  | .verbose => .ok { p with command := { p.command with verbose := true } }
  | .force => .ok { p with command := { p.command with force := true } }
  | .symbolIndex => .ok { p with command := { p.command with symbolIndex := true } }
  | .outDir => .error .usage
  | .workers => .error .usage

/-- Takes an option with its value. -/
def Progress.takeValue (p : Progress) (choice : Choice) (text : String) : Except Stop Progress :=
  match choice with
  | .outDir => .ok { p with command := { p.command with outDir := some text } }
  | .workers =>
    match readInt? text with
    | some n => .ok { p with command := { p.command with workers := some n } }
    | none => .error .usage
  | _ => .error .usage

/-- The options of one letter that stand side by side. -/
def lettered (names : List (String × Choice)) (letters : List Char) : Except Stop (List Choice) :=
  letters.mapM fun c =>
    match Keyed.get? names (String.ofList ['-', c]) with
    | some choice => .ok choice
    | none => .error .usage

/-- Takes an option with what is attached to it: its value, or further options of one letter. -/
def Progress.takeAttached (names : List (String × Choice)) (p : Progress) (choice : Choice)
    (short : Bool) (attached : List Char) : Except Stop Progress :=
  if choice.takesValue then p.takeValue choice (String.ofList attached)
  else if short && !attached.isEmpty then do
    (choice :: (← lettered names attached)).foldlM Progress.takeFlag p
  else .error .usage

/-- Reads the arguments of a command. -/
def readTokens (names : List (String × Choice)) : Progress → List Token → Except Stop Progress
  | p, [] => .ok p
  | p, .plain text :: .divider :: rest => readTokens names (p.takePlain text) rest
  | p, .plain text :: rest => readTokens names (p.takePlain text) rest
  | p, .divider :: .plain text :: rest => readTokens names (p.takePlain text) rest
  | p, .divider :: rest => readTokens names { p with surplus := p.surplus || p.rootRead } rest
  | p, .unknown :: rest => readTokens names { p with surplus := true } rest
  | p, .known choice short (some attached) :: rest => do
    readTokens names (← p.takeAttached names choice short attached) rest
  | p, .known choice _ none :: rest =>
    if choice.takesValue then
      match rest with
      | .plain text :: rest => do readTokens names (← p.takeValue choice text) rest
      | _ => .error .usage
    else do readTokens names (← p.takeFlag choice) rest

/-- The task of a name. -/
def Task.ofName? (name : String) : Option Task :=
  if name == "generate" then some .generate
  else if name == "verify" then some .verify
  else none

/-- The command of a task with its arguments. -/
def parseTask (task : Task) (surplus : Bool) (args : List String) : Except Stop Command := do
  let tokens ← classifyAll task.names args
  let p ← readTokens task.names { command := { task := task } } tokens
  if surplus || p.surplus then .error .usage else return p.command

/-- The command of a command line, of which some option before the command may have been unknown. -/
def parseFrom (surplus : Bool) : List String → Except Stop Command
  | [] => .error .usage
  | arg :: rest =>
    if arg == "--" then .error .usage
    else do
      match ← classify commonNames arg with
      | .plain name =>
        match Task.ofName? name with
        | some task => parseTask task surplus rest
        | none => .error .usage
      | .known choice short (some attached) =>
        let p : Progress := { command := { task := .generate } }
        let p ← p.takeAttached commonNames choice short attached
        parseFrom (surplus || p.surplus) rest
      | .known _ _ none => .error .help
      | _ => parseFrom true rest

/-- The command of a command line. -/
def parse (args : List String) : Except Stop Command :=
  parseFrom false args

end LuaAmbient.CommandLine
