/-
Trees of files, directories and symbolic links.

A place is the list of names on the way from the root of the tree; it may go through links.

Main definitions:

* `LuaAmbient.FileTree` — a file, a link, or a directory with its members;
* `LuaAmbient.FileTree.get?`, `LuaAmbient.FileTree.put`, `LuaAmbient.FileTree.remove` — what stands
  at a place that goes through no link, and how it is changed;
* `LuaAmbient.FileTree.walk` — where the names of a place lead when all links are followed;
* `LuaAmbient.FileTree.resolve` — **the place that is reached when all links are followed**, unless
  they lead in a circle;
* `LuaAmbient.FileTree.read?`, `LuaAmbient.FileTree.isDirectory`, `LuaAmbient.FileTree.write` —
  files and directories through links;
* `LuaAmbient.FileTree.replace`, `LuaAmbient.FileTree.unlink` — what stands at a place itself is
  replaced or removed;
* `LuaAmbient.FileTree.canWrite`, `LuaAmbient.FileTree.canReplace` — whether nothing stands in the
  way of a file;
* `LuaAmbient.FileTree.leaves`, `LuaAmbient.FileTree.files` — all files and links, and all regular
  files of a tree.
-/

import LuaAmbient.Breakdown
import LuaAmbient.FileTree.Content
import LuaAmbient.Keyed
import LuaAmbient.Text.Search

set_option autoImplicit false

namespace LuaAmbient

/-- A file, a symbolic link, or a directory with its members in any order. -/
inductive FileTree where
  | file (content : Content)
  | link (target : String)
  | directory (members : List (String × FileTree))
deriving Repr, Inhabited

/-- The names on the way from the root of a tree. -/
abbrev Place := List String

/-- A place as a text that starts with a slash. -/
def Place.text (place : Place) : String :=
  "/" ++ Text.joinWith "/" place

/-- The names of a path.  Slashes side by side count once, and a dot for a name is left out. -/
def Place.ofPath (path : String) : Place :=
  (Text.splitString '/' path).filter fun name => !name.isEmpty && name != "."

/-- The place without dots: two of them take the name before them away. -/
def Place.normal (place : Place) : Place :=
  place.foldl (fun done name =>
    if name.isEmpty || name == "." then done
    else if name == ".." then done.dropLast
    else done ++ [name]) []

namespace FileTree

/-! ### Places without links -/

/-- The members of a directory; others have none. -/
def members : FileTree → List (String × FileTree)
  | .directory ms => ms
  | _ => []

/-- What stands at a place. -/
def get? (tree : FileTree) : Place → Option FileTree
  | [] => some tree
  | name :: rest =>
    match Keyed.get? tree.members name with
    | some member => member.get? rest
    | none => none

/-- The tree with something new at a place.  The directories on the way are made; what stands in
their way is replaced. -/
def put (new : FileTree) : Place → FileTree → FileTree
  | [], _ => new
  | name :: rest, tree =>
    let member := (Keyed.get? tree.members name).getD (.directory [])
    .directory (Keyed.put tree.members name (put new rest member))

/-- The tree without what stands at a place. -/
def remove : Place → FileTree → FileTree
  | [], tree => tree
  | [name], tree =>
    match tree with
    | .directory ms => .directory (Keyed.erase ms name)
    | _ => tree
  | name :: rest, tree =>
    match Keyed.get? tree.members name with
    | some member => .directory (Keyed.put tree.members name (remove rest member))
    | none => tree

/-! ### Links -/

mutual

/-- How many names the links of a tree hold, each link counting for one more. -/
def linkNames : FileTree → Nat
  | .file _ => 0
  | .link target => (Text.splitString '/' target).length + 1
  | .directory ms => linkNamesOf ms

/-- How many names the links of the members of a directory hold. -/
def linkNamesOf : List (String × FileTree) → Nat
  | [] => 0
  | (_, member) :: rest => linkNames member + linkNamesOf rest

end

/-- Where the names on a way lead. -/
inductive Walk where
  /-- All links have been followed. -/
  | reached (place : Place)
  /-- The way comes back to a link that it is following; it ends there, and the names behind it stay
  as they are. -/
  | circle (place : Place)
  /-- The way goes up from where there is no directory. -/
  | lost
deriving Repr, DecidableEq, Inhabited

/-- Whether a directory stands at a place. -/
def isDirectoryAt (tree : FileTree) (place : Place) : Bool :=
  match tree.get? place with
  | some (.directory _) => true
  | _ => false

/-- Follows the names on a way from a place that has no links, within the targets of the links
`opened`.  A dot stays, two dots go up, if the way is walked in earnest only from a directory, and
names that nothing is found under are kept.  Every name takes one step of the bound. -/
def follow (tree : FileTree) (earnest : Bool) : Nat → List Place → Place → List String → Walk
  | 0, _, reached, rest => .circle (reached ++ rest)
  | _ + 1, _, reached, [] => .reached reached
  | bound + 1, opened, reached, name :: rest =>
    if name.isEmpty || name == "." then follow tree earnest bound opened reached rest
    else if name == ".." then
      if earnest && !tree.isDirectoryAt reached then .lost
      else follow tree earnest bound opened reached.dropLast rest
    else
      let here := reached ++ [name]
      match tree.get? here with
      | some (.link target) =>
        if opened.contains here then .circle (here ++ rest)
        else
          let start := if target.toList.head? == some '/' then [] else reached
          match follow tree earnest bound (here :: opened) start (Text.splitString '/' target) with
          | .reached place => follow tree earnest bound opened place rest
          | .circle place => .circle (place ++ rest)
          | .lost => .lost
      | _ => follow tree earnest bound opened here rest

/-- Where the names of a place lead. -/
def walk (tree : FileTree) (earnest : Bool) (place : Place) : Walk :=
  follow tree earnest (place.length + tree.linkNames + 1) [] [] place

/-- The place that is reached when all links on the way are followed.  A way that comes back to a
link is taken by its names alone from there on, and only if it cannot be walked in earnest because
of a circle is it none. -/
def resolve (tree : FileTree) (place : Place) : Except Breakdown Place :=
  if place.any fun name => name.toList.contains '\x00' then .error .nullCharacter
  else
    match tree.walk false place with
    | .reached place => .ok place
    | .lost => .ok place.normal
    | .circle place =>
      match tree.walk true place.normal with
      | .circle _ => .error .linkCircle
      | _ => .ok place.normal

/-- The place that is reached when it is to be used. -/
def reach? (tree : FileTree) (place : Place) : Option Place :=
  match tree.walk true place with
  | .reached place => some place
  | _ => none

/-- What is reached at a place when all links are followed. -/
def find? (tree : FileTree) (place : Place) : Option FileTree :=
  (tree.reach? place).bind tree.get?

/-- The content of the file that is reached at a place. -/
def read? (tree : FileTree) (place : Place) : Option Content :=
  match tree.find? place with
  | some (.file content) => some content
  | _ => none

/-- Whether anything is reached at a place. -/
def exists? (tree : FileTree) (place : Place) : Bool :=
  (tree.find? place).isSome

/-- Whether a directory is reached at a place. -/
def isDirectory (tree : FileTree) (place : Place) : Bool :=
  match tree.find? place with
  | some (.directory _) => true
  | _ => false

/-- The tree with something new at the place that is reached; a circle is left as it is. -/
def putReached (tree : FileTree) (place : Place) (new : FileTree) : FileTree :=
  match tree.reach? place with
  | some place => put new place tree
  | none => tree

/-- The tree after a directory has been made at a place; one that is there stays. -/
def makeDirectory (tree : FileTree) (place : Place) : FileTree :=
  if tree.isDirectory place then tree else tree.putReached place (.directory [])

/-- The tree after all directories on the way to a place have been made. -/
def makeDirectories (tree : FileTree) (place : Place) : FileTree :=
  (List.range place.length).foldl (fun t i => t.makeDirectory (place.take i)) tree

/-- The place itself, reached through the links of the directories on the way. -/
def entryPlace? (tree : FileTree) (place : Place) : Option Place :=
  match place.getLast?, tree.reach? place.dropLast with
  | some name, some parent => some (parent ++ [name])
  | _, _ => none

/-- Whether nothing but directories stands on the way to a place. -/
def isOpen (tree : FileTree) (place : Place) : Bool :=
  (List.range place.length).all fun i =>
    !tree.exists? (place.take i) || tree.isDirectory (place.take i)

/-- Whether a file can be written at a place: the way is open, and no directory is reached. -/
def canWrite (tree : FileTree) (place : Place) : Bool :=
  tree.isOpen place && !tree.isDirectory place

/-- Whether a file can be put at a place: the way is open, and no directory stands there itself. -/
def canReplace (tree : FileTree) (place : Place) : Bool :=
  tree.isOpen place && !((tree.entryPlace? place).any tree.isDirectoryAt)

/-- The tree after a file has been written at a place.  A link there leads to the file. -/
def write (tree : FileTree) (place : Place) (content : Content) : FileTree :=
  (tree.makeDirectories place).putReached place (.file content)

/-- The tree after a file has been put at a place.  A link there is replaced. -/
def replace (tree : FileTree) (place : Place) (content : Content) : FileTree :=
  let made := tree.makeDirectories place
  match made.entryPlace? place with
  | some place => put (.file content) place made
  | none => made

/-- The tree after the file or link at a place has been removed. -/
def unlink (tree : FileTree) (place : Place) : FileTree :=
  match tree.entryPlace? place with
  | some place => remove place tree
  | none => tree

/-! ### All files -/

mutual

/-- The files and links of a tree with their places, below a place. -/
def leavesBelow (place : Place) : FileTree → List (Place × FileTree)
  | .file content => [(place, .file content)]
  | .link target => [(place, .link target)]
  | .directory ms => leavesOf place ms

/-- The files and links of the members of a directory. -/
def leavesOf (place : Place) : List (String × FileTree) → List (Place × FileTree)
  | [] => []
  | (name, member) :: rest => leavesBelow (place ++ [name]) member ++ leavesOf place rest

end

/-- The files and links of a tree with their places. -/
def leaves (tree : FileTree) : List (Place × FileTree) :=
  leavesBelow [] tree

/-- The regular files of a tree with their places. -/
def files (tree : FileTree) : List (Place × Content) :=
  tree.leaves.filterMap fun l =>
    match l.2 with
    | .file content => some (l.1, content)
    | _ => none

end FileTree

end LuaAmbient
