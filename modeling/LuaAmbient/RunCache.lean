/-
What earlier runs have left for later ones.

For every source file the cache holds a digest of its text, the names that it exports, and the names
that it takes from elsewhere.  A source whose digest is still the same need not be read again, and
its exports are known without it.  Digests depend on the version of the tool, so that a new version
starts afresh.

The digest is an argument of all that needs it.

Main definitions:

* `LuaAmbient.CachedSource` — what is kept of a source file, and `LuaAmbient.CachedSource.ofData`
  how it is read;
* `LuaAmbient.RunCache` — the entries of all source files;
* `LuaAmbient.RunCache.record`, `LuaAmbient.RunCache.keepOnly` — an entry is made, entries are
  dropped;
* `LuaAmbient.RunCache.isCurrent` — **whether a source is the one that was recorded**;
* `LuaAmbient.RunCache.render`, `LuaAmbient.RunCache.load` — the cache as a file.
-/

import LuaAmbient.Data.Check
import LuaAmbient.Data.JsonPrinter
import LuaAmbient.Data.JsonReader
import LuaAmbient.FileTree.Content
import LuaAmbient.Log
import LuaAmbient.NameSet
import LuaAmbient.Text.Search

set_option autoImplicit false

namespace LuaAmbient

open LuaAmbient.Check

/-- The version of the tool. -/
def currentVersion : String := "0.3.0"

/-- What is kept of a source file. -/
structure CachedSource where
  /-- The digest of the text. -/
  contentHash : String
  /-- The names that are taken from elsewhere. -/
  imports : List String
  /-- The names that no file exports. -/
  missing : List String
  exports : List String
  /-- The digest of version and path. -/
  pathHash : String
  /-- The digest of version, path and text. -/
  sourceHash : String
deriving Repr, DecidableEq, Inhabited

namespace CachedSource

/-! ### Name lists -/

/-- The names of a list, sorted, with commas between them. -/
def namesText (names : List String) : String :=
  Text.joinWith "," (orderNames names)

/-- The distinct names between the commas of a text, sorted. -/
def namesOfText (text : String) : List String :=
  sortNames ((Text.splitString ',' text).filter fun n => !n.isEmpty)

/-- A list of names: a text with commas, or a list that is kept as it is. -/
def readNames : Data → Checked (List String)
  | .string s => .ok (namesOfText s)
  | d => readList readString d

/-! ### Reading and writing -/

/-- The entry that data describe.  Only the digest of the text is required; unknown keys do not
count. -/
def ofData : Data → Checked CachedSource
  | .record fields =>
    let contentHash := readField fields "content_hash" readString (refuse .missing)
    let imports := readField fields "imports" readNames (.ok [])
    let missing := readField fields "missing_deps" readNames (.ok [])
    let exports := readField fields "exports" readNames (.ok [])
    let pathHash := readField fields "fn_hash" readString (.ok "")
    let sourceHash := readField fields "fc_hash" readString (.ok "")
    match issuesOf contentHash ++ issuesOf imports ++ issuesOf missing ++ issuesOf exports ++
      issuesOf pathHash ++ issuesOf sourceHash with
    | [] => do
      return ⟨← contentHash, ← imports, ← missing, ← exports, ← pathHash, ← sourceHash⟩
    | issues => .error issues
  | _ => refuse .notATable

/-- How an entry is stored. -/
def toStored (e : CachedSource) : Json.Stored :=
  .record [("content_hash", .string e.contentHash), ("imports", .string (namesText e.imports)),
    ("missing_deps", .string (namesText e.missing)), ("exports", .string (namesText e.exports)),
    ("fn_hash", .string e.pathHash), ("fc_hash", .string e.sourceHash)]

end CachedSource

/-- The entries of all source files, by path, as a version of the tool keeps them. -/
structure RunCache where
  version : String
  entries : List (String × CachedSource)
deriving Repr, DecidableEq, Inhabited

namespace RunCache

/-- The cache without entries. -/
def empty (version : String) : RunCache :=
  ⟨version, []⟩

/-! ### Entries -/

/-- The digest of version and path. -/
def pathHash (digest : String → String) (version path : String) : String :=
  digest (version ++ "::" ++ path)

/-- The digest of version, path and text. -/
def sourceHash (digest : String → String) (version path source : String) : String :=
  digest (version ++ "::" ++ path ++ "::" ++ source)

/-- The entry of a path. -/
def entry? (cache : RunCache) (path : String) : Option CachedSource :=
  Keyed.get? cache.entries path

/-- Whether a text is the one that was recorded for a path. -/
def isCurrent (digest : String → String) (cache : RunCache) (path source : String) : Bool :=
  match cache.entry? path with
  | some e => e.sourceHash == sourceHash digest cache.version path source
  | none => false

/-- The entry of a source file. -/
def makeEntry (digest : String → String) (version path source : String)
    (exports imports missing : List String) : CachedSource :=
  { contentHash := digest source
    imports := sortNames imports
    missing := sortNames missing
    exports := sortNames exports
    pathHash := pathHash digest version path
    sourceHash := sourceHash digest version path source }

/-- The cache with the entry of a source file made anew. -/
def record (digest : String → String) (cache : RunCache) (path source : String)
    (exports imports missing : List String) : RunCache :=
  { cache with
    entries := Keyed.put cache.entries path
      (makeEntry digest cache.version path source exports imports missing) }

/-- The cached paths that are not among the given ones, sorted. -/
def outdated (cache : RunCache) (paths : List String) : List String :=
  orderNames (dropNames (Keyed.keys cache.entries) paths)

/-- The cache without the paths that are not among the given ones. -/
def keepOnly (cache : RunCache) (paths : List String) : RunCache :=
  { cache with entries := cache.entries.filter fun e => paths.contains e.1 }

/-- The exports of all cached files. -/
def graph (cache : RunCache) : List (String × List String) :=
  cache.entries.map fun e => (e.1, e.2.exports)

/-! ### The file -/

/-- The text of the file of a cache. -/
def render (cache : RunCache) : String :=
  Json.render (.record [("tool_version", .string cache.version),
    ("entries", .record (cache.entries.map fun e => (e.1, e.2.toStored)))])

/-- The cache that data describe.  A file without a version is of the present one. -/
def ofData : Data → Checked RunCache
  | .record fields =>
    let version := readField fields "tool_version" readString (.ok currentVersion)
    let entries := readField fields "entries" (fun d =>
      match d with
      | .record entries => Check.all (entries.map fun e =>
          below e.1 ((CachedSource.ofData e.2).map fun entry => (e.1, entry)))
      | _ => refuse .notATable) (.ok [])
    match issuesOf version ++ issuesOf entries with
    | [] => do return ⟨← version, ← entries⟩
    | issues => .error issues
  | _ => refuse .notATable

/-- How many lists and records of a stored cache may be open at a time. -/
def nestingLimit : Nat := 1024

/-- The cache that the content of a file is. -/
def parse? (content : Content) : Option RunCache := do
  let data ← Json.parse nestingLimit (← content.text?).toList
  (ofData data).toOption

/-- The cache in a file of which the place and the content, if there is such a file, are given.  A
cache that cannot be read, or that another version has left, counts as empty. -/
def load (version place : String) (stored : Option Content) : RunCache × List Log.Entry :=
  match stored with
  | none => (empty version, [⟨.debug, "No cache at " ++ place⟩])
  | some content =>
    match parse? content with
    | none => (empty version, [⟨.warning, "Ignoring unreadable cache " ++ place⟩])
    | some cache =>
      if cache.version == version then
        (cache, [⟨.debug, "Loaded cache with " ++ toString cache.entries.length ++ " entries"⟩])
      else
        (empty version, [⟨.info, "Cache written by " ++ cache.version ++ ", now " ++ version ++
          "; rebuilding all files"⟩])

/-- The message after a cache has been written to a place. -/
def savedMessage (cache : RunCache) (place : String) : Log.Entry :=
  ⟨.debug, "Saved cache with " ++ toString cache.entries.length ++ " entries to " ++ place⟩

end RunCache

end LuaAmbient
