/-
What files hold.

Main definitions:

* `LuaAmbient.Content` — a text, or bytes that are no text;
* `LuaAmbient.Content.ofBytes` — the content that bytes are;
* `LuaAmbient.Content.decode` — the text of a file, or why it has none;
* `LuaAmbient.Content.sourceText?` — the text of a source file, with all line ends alike.
-/

import LuaAmbient.Breakdown
import LuaAmbient.Text.Line

set_option autoImplicit false

namespace LuaAmbient

/-- What a file holds. -/
inductive Content where
  | text (text : String)
  /-- Bytes that are no UTF-8. -/
  | binary (bytes : List UInt8)
deriving Repr, DecidableEq, Inhabited

namespace Content

/-- The content that bytes are. -/
def ofBytes (bytes : ByteArray) : Content :=
  match String.fromUTF8? bytes with
  | some s => .text s
  | none => .binary bytes.toList

/-- The text of a file. -/
def text? : Content → Option String
  | .text s => some s
  | .binary _ => none

/-- The text of a file, or why it has none. -/
def decode : Content → Except Breakdown String
  | .text s => .ok s
  | .binary bytes => .error (.undecodable ((Utf8.firstFault? bytes).getD default))

/-- What is wrong with bytes that are read line by line.  A character that the bytes break off in is
met alone, when all before it has been read. -/
def lineFault : Breakdown → Breakdown
  | .undecodable fault =>
    .undecodable (if fault.reason == .ending then { fault with position := 0 } else fault)
  | cause => cause

/-- The text of a file with all line ends alike, or why it has none. -/
def readLines (content : Content) : Except Breakdown String :=
  (content.decode.mapError lineFault).map fun s =>
    String.ofList (Text.normalizeNewlines s.toList)

/-- The text of a source file. -/
def sourceText? (content : Content) : Option String :=
  content.readLines.toOption

end Content

end LuaAmbient
