/-
Reading settings from data.

Every setting is read on its own, and all that is wrong is reported at once.  Truth values may be
written as words, integers as strings or as reals without a fraction.

Main definitions:

* `LuaAmbient.Settings.readBool`, `LuaAmbient.Settings.readInt` — truth values and integers in all
  their spellings;
* `LuaAmbient.FixRule.ofData` — a repair;
* `LuaAmbient.Settings.ofData` — **the settings that data describe**.
-/

import LuaAmbient.Data.Check
import LuaAmbient.Settings.Basic
import LuaAmbient.Settings.IntegerText
import LuaAmbient.Text.Line
import LuaAmbient.Text.Word

set_option autoImplicit false

namespace LuaAmbient

open LuaAmbient.Check

namespace Settings

/-- The words for the truth values, in lower case. -/
def boolWord? (s : String) : Option Bool :=
  if ["0", "off", "f", "false", "n", "no"].contains s then some false
  else if ["1", "on", "t", "true", "y", "yes"].contains s then some true
  else none

/-- A truth value that an integer stands for.  An integer of more than sixty-four bits is taken for
no truth value at all. -/
def boolOfInt (n : Int) : Checked Bool :=
  if n == 0 then .ok false
  else if n == 1 then .ok true
  else if n < -0x8000000000000000 || 0x7fffffffffffffff < n then refuse .notABool
  else refuse .unreadableBool

/-- A truth value: itself, a word of any case, zero or one. -/
def readBool : Data → Checked Bool
  | .bool b => .ok b
  | .string s =>
    match boolWord? (String.ofList (s.toList.map Char.toLower)) with
    | some b => .ok b
    | none => refuse .unreadableBool
  | .int n => boolOfInt n
  | .real r =>
    match r.wholeness with
    | .whole n => boolOfInt n
    | _ => refuse .notABool
  | _ => refuse .notABool

/-- An integer: itself, a truth value, a real without a fraction, or one of these in a string. -/
def readInt : Data → Checked Int
  | .int n => .ok n
  | .bool b => .ok (if b then 1 else 0)
  | .real r =>
    match r.wholeness with
    | .whole n => .ok n
    | .notFinite => refuse .notFinite
    | .fractional => refuse .fractionalInteger
    | .tooLarge => refuse .oversizedInteger
  | .string s =>
    match IntegerText.read s.toList with
    | .ok n => .ok n
    | .error complaint => refuse complaint
  | _ => refuse .notAnInteger

/-- The number of workers, from one to sixty-four. -/
def readWorkers (d : Data) : Checked Nat := do
  let n ← readInt d
  if n < 1 then refuse .tooSmall
  else if 64 < n then refuse .tooLarge
  else return n.toNat

/-- Whether a name can name a type.  A line feed at its end does not count. -/
def isStubName (s : List Char) : Bool :=
  match s with
  | c :: rest =>
    Text.isNameStart c && (Text.chomp rest).all Text.isNamePart
  | [] => false

/-- A stub with its name. -/
def readStub (field : String × Data) : Checked (String × String) :=
  match field.2 with
  | .string s =>
    if isStubName field.1.toList then .ok (field.1, s) else refuse (.stubName field.1)
  | _ => refuse .stubNotAString

/-- The stubs of a project; only the first wrong one is reported. -/
def readStubs : Data → Checked (List (String × String))
  | .null => .ok []
  | .record fields => fields.mapM readStub
  | _ => refuse .stubsNotATable

end Settings

/-- A repair that data describe. -/
def FixRule.ofData : Data → Checked FixRule
  | .record fields =>
    let fileName := readField fields "file_name" (fun d =>
      match d with
      | .null => .ok none
      | d => some <$> readString d) (.ok none)
    let find := readField fields "find" (fun d => do
      let s ← readString d
      if s.isEmpty then refuse .emptyString else return s) (refuse .missing)
    let replacement := readField fields "replace" readString (.ok "")
    let unknown := unknownKeys ["file_name", "find", "replace"] fields
    match issuesOf fileName ++ issuesOf find ++ issuesOf replacement ++ unknown with
    | [] => do return ⟨← fileName, ← find, ← replacement⟩
    | issues => .error issues
  | _ => refuse .notATable

/-- The settings that data describe. -/
def Settings.ofData : Data → Checked Settings
  | .record fields =>
    let outputDir := readField fields "output_dir" readString (.ok "types")
    let included := readField fields "include" (readList readString) (.ok [])
    let excluded := readField fields "exclude" (readList readString) (.ok [])
    let nestedIgnores := readField fields "nested_gitignore" readBool (.ok false)
    let workers := readField fields "workers" readWorkers (.ok 4)
    let symbolIndex := readField fields "write_symbol_index" readBool (.ok false)
    let stubs := readField fields "fallback_types" readStubs (.ok [])
    let fixes := readField fields "fixers" (readList FixRule.ofData) (.ok [])
    let unknown := unknownKeys ["output_dir", "include", "exclude", "nested_gitignore", "workers",
      "write_symbol_index", "fallback_types", "fixers"] fields
    match issuesOf outputDir ++ issuesOf included ++ issuesOf excluded ++ issuesOf nestedIgnores ++
      issuesOf workers ++ issuesOf symbolIndex ++ issuesOf stubs ++ issuesOf fixes ++ unknown with
    | [] => do
      return { outputDir := ← outputDir, included := ← included, excluded := ← excluded,
               nestedIgnores := ← nestedIgnores, workers := ← workers,
               symbolIndex := ← symbolIndex, stubs := ← stubs, fixes := ← fixes }
    | issues => .error issues
  | _ => refuse .notATable

end LuaAmbient
