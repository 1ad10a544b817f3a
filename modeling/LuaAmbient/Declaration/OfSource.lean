/-
The declarations of a source text.

Main definitions:

* `LuaAmbient.SourceReader` — how sources are read: the repairs that are made and the parser;
* `LuaAmbient.SourceDeclarations.ofSource` — **the declarations of a source text**: repairs,
  reading, attachment of comments and derivation, with the warnings made on the way.
-/

import LuaAmbient.Declaration.Derivation
import LuaAmbient.Lua.Lifting
import LuaAmbient.SourceFix

set_option autoImplicit false

namespace LuaAmbient

/-- How sources are read.  The parser is whatever makes trees of texts. -/
structure SourceReader where
  parser : Lua.Parser
  /-- The repairs that are made before a text is parsed. -/
  fixes : List SourceFix

/-- The chunk of a source text after the repairs that are for it. -/
def SourceReader.read (reader : SourceReader) (path : String) (text : List Char) : Lua.Source :=
  Lua.readChunk reader.parser (SourceFix.applyAll reader.fixes path text)

/-- The warning about a piece of source that is part of no statement. -/
def unrecognizedWarning (path : String) (u : Lua.Unrecognized) : Log.Entry :=
  ⟨.warning, path ++ ": " ++ u.describe⟩

/-- The declarations of a chunk with the warnings about repeated types. -/
def SourceDeclarations.ofChunk (path : String) (chunk : Lua.Chunk) :
    Except Directive.Problem (SourceDeclarations × List Log.Entry) := do
  SourceDeclarations.ofAttachment path (← Attachment.ofChunk chunk)

/-- The declarations of a source text and the warnings made on the way.  An annotation that cannot be
read leaves no declarations. -/
def SourceDeclarations.ofSource (reader : SourceReader) (path : String) (text : List Char) :
    Except Directive.Problem SourceDeclarations × List Log.Entry :=
  let source := reader.read path text
  let warnings := source.unrecognized.map (unrecognizedWarning path)
  match SourceDeclarations.ofChunk path source.chunk with
  | .ok (file, log) => (.ok file, warnings ++ log)
  | .error p => (.error p, warnings)

end LuaAmbient
