/-
The tokens and the comments of a Lua source.

Main definitions:

* `LuaAmbient.Lua.Token` — a token with its text and its place;
* `LuaAmbient.Lua.Lexeme` — a token or a comment;
* `LuaAmbient.Lua.takeToken` — the token at the start of a text;
* `LuaAmbient.Lua.scan` — **the lexemes of a source**.
-/

import LuaAmbient.Lua.Quoted
import LuaAmbient.Lua.Tree
import LuaAmbient.Text.Search

set_option autoImplicit false

namespace LuaAmbient.Lua

open LuaAmbient.Text

namespace Position

/-- The start of a source. -/
def origin : Position := ⟨0, 0, 0⟩

/-- The place behind a character.  Only line feeds end lines. -/
def next (p : Position) (c : Char) : Position :=
  if c == '\n' then ⟨p.offset + 1, p.row + 1, 0⟩
  else ⟨p.offset + 1, p.row, p.column + c.utf8Size⟩

/-- The place behind a text. -/
def advance (p : Position) (s : List Char) : Position :=
  s.foldl next p

end Position

/-- The kinds of tokens. -/
inductive TokenKind where
  | name
  | keyword
  | number
  /-- A string with the place of its content, if it has any. -/
  | string (content : Option (Position × Position))
  | symbol
  /-- A character that starts no token. -/
  | unknown
deriving Repr, DecidableEq, Inhabited

/-- A token with its text and its place. -/
structure Token where
  kind : TokenKind
  text : String
  start : Position
  stop : Position
deriving Repr, DecidableEq, Inhabited

/-- Whether a token is the given keyword or symbol. -/
def Token.is (t : Token) (text : String) : Bool :=
  (t.kind == .keyword || t.kind == .symbol) && t.text == text

/-- A token or a comment, which goes from one place to another. -/
inductive Lexeme where
  | token (token : Token)
  | comment (start stop : Position)
deriving Repr, DecidableEq, Inhabited

/-! ### Words and numbers -/

/-- The reserved words. -/
def keywords : List String :=
  ["and", "break", "do", "else", "elseif", "end", "false", "for", "function", "goto", "if", "in",
    "local", "nil", "not", "or", "repeat", "return", "then", "true", "until", "while"]

/-- The characters of names: letters, digits, underscores and all characters beyond ASCII. -/
def isNameChar (c : Char) : Bool :=
  c.isAlphanum || c == '_' || 0x80 ≤ c.toNat

/-- The point and the digits behind it. -/
def takeFraction (digit : Char → Bool) (s : List Char) : List Char × List Char :=
  match s with
  | '.' :: rest =>
    let (digits, rest) := spanOf digit rest
    ('.' :: digits, rest)
  | _ => ([], s)

/-- The exponent behind its mark, which is given in lower case. -/
def takeExponent (mark : Char) (s : List Char) : List Char × List Char :=
  match s with
  | c :: sign :: rest =>
    if c.toLower == mark then
      if sign == '+' || sign == '-' then
        let (digits, rest) := spanOf Char.isDigit rest
        (c :: sign :: digits, rest)
      else
        let (digits, rest) := spanOf Char.isDigit (sign :: rest)
        (c :: digits, rest)
    else ([], s)
  | _ => ([], s)

/-- The mark of a wide integer behind its digits. -/
def takeWide (s : List Char) : List Char × List Char :=
  match s with
  | a :: b :: c :: rest =>
    if a.toLower == 'u' && b.toLower == 'l' && c.toLower == 'l' then ([a, b, c], rest)
    else if a.toLower == 'l' && b.toLower == 'l' then ([a, b], c :: rest)
    else ([], s)
  | [a, b] => if a.toLower == 'l' && b.toLower == 'l' then ([a, b], []) else ([], s)
  | _ => ([], s)

/-- A number, whose digits and exponent mark are given, and the rest. -/
def takeDigits (digit : Char → Bool) (mark : Char) (s : List Char) : List Char × List Char :=
  let (whole, rest) := spanOf digit s
  let (fraction, rest) := takeFraction digit rest
  let (exponent, rest) := takeExponent mark rest
  let (wide, rest) := takeWide rest
  (whole ++ fraction ++ exponent ++ wide, rest)

/-- The number at the start of a text, and the rest. -/
def takeNumber (s : List Char) : List Char × List Char :=
  match s with
  | '0' :: x :: rest =>
    if x.toLower == 'x' then
      let (digits, rest) := takeDigits isHexDigit 'p' rest
      ('0' :: x :: digits, rest)
    else takeDigits Char.isDigit 'e' s
  | _ => takeDigits Char.isDigit 'e' s

/-! ### Tokens -/

/-- The symbols, longer ones first. -/
def symbols : List (List Char) :=
  ["...", "<<", ">>", "//", "==", "~=", "<=", ">=", "::", "..", "+", "-", "*", "/", "%", "^", "#",
    "&", "~", "|", "<", ">", "=", "(", ")", "\x7b", "\x7d", "[", "]", ";", ":", ",", "."].map
    String.toList

/-- The symbol at the start of a text. -/
def takeSymbol? (s : List Char) : Option (List Char × List Char) :=
  symbols.findSome? fun sym => (List.isPrefixOf? sym s).map fun rest => (sym, rest)

/-- What a token takes of a source. -/
structure Taken where
  /-- The kind of a token that starts at a place. -/
  kind : Position → TokenKind
  text : List Char
  rest : List Char
  /-- The parts of a string between quotes. -/
  parts : List Quoted.Part := []

/-- A string with its content behind a text. -/
def stringKind (before content : List Char) (p : Position) : TokenKind :=
  let start := p.advance before
  .string (some (start, start.advance content))

/-- The kind of a string between quotes.  Comments before its content do not belong to it, and there
is no content without anything else between the quotes. -/
def quotedKind (quote : Char) (parts : List Quoted.Part) (p : Position) : TokenKind :=
  match Quoted.content parts with
  | [] => .string none
  | content => stringKind (quote :: Quoted.textOf (parts.takeWhile Quoted.Part.isComment))
      (Quoted.textOf content) p

/-- The token at the start of a text whose first character is given. -/
def takeToken (c : Char) (cs : List Char) : Taken :=
  let s := c :: cs
  if c.isDigit || (c == '.' && (cs.head?.map Char.isDigit).getD false) then
    let (text, rest) := takeNumber s
    ⟨fun _ => .number, text, rest, []⟩
  else if isNameChar c then
    let (text, rest) := spanOf isNameChar s
    let kind := if keywords.contains (String.ofList text) then TokenKind.keyword else .name
    ⟨fun _ => kind, text, rest, []⟩
  else
    let quoted := if c == '"' || c == '\'' then Quoted.take? c cs else none
    match quoted, takeBracket? s, takeSymbol? s with
    | some (parts, rest), _, _ =>
      ⟨quotedKind c parts, c :: Quoted.textOf parts ++ [c], rest, parts⟩
    | none, some (content, text, rest), _ =>
      -- a long bracket closes with as many characters as it opens with
      let opening := text.take ((text.length - content.length) / 2)
      ⟨stringKind opening content, text, rest, []⟩
    | none, none, some (text, rest) => ⟨fun _ => .symbol, text, rest, []⟩
    | none, none, none => ⟨fun _ => .unknown, [c], cs, []⟩

/-! ### Comments -/

/-- The block comments at the start of a text, and the rest.  Every comment takes one step of the
bound. -/
def takeBlockComments : Nat → List Char → List Char × List Char
  | 0, s => ([], s)
  | bound + 1, s =>
    match takeBlockComment? s with
    | some (c, rest) =>
      let r := takeBlockComments bound rest
      (c.extent ++ r.1, r.2)
    | none => ([], s)

/-- The text of a line comment behind its dashes, and the rest.  Block comments right behind the
dashes are part of it, on whatever line they stand; then it goes to the end of the line.  If two
dashes are all that is left of the line, they start a line comment within it.  Every comment takes
one step of the bound. -/
def takeLineComment : Nat → List Char → List Char × List Char
  | 0, s => ([], s)
  | bound + 1, s =>
    let (blocks, s) := takeBlockComments bound s
    let (line, rest) := spanOf (fun c => c != '\n' && c != '\r') s
    if line == ['-', '-'] then
      let (inner, rest) := takeLineComment bound rest
      let (outer, rest) := takeLineComment bound rest
      (blocks ++ line ++ inner ++ outer, rest)
    else (blocks ++ line, rest)

/-- The text of a comment whose dashes are followed by `s`, and the rest: a long bracket, or a line
comment. -/
def takeComment (s : List Char) : List Char × List Char :=
  match takeBracket? s with
  | some (_, text, rest) => ('-' :: '-' :: text, rest)
  | none =>
    let (text, rest) := takeLineComment (s.length + 1) s
    ('-' :: '-' :: text, rest)

/-- The comments among the parts of a string that start at the given place. -/
def innerComments (p : Position) : List Quoted.Part → List Lexeme
  | [] => []
  | .plain text :: parts => innerComments (p.advance text) parts
  | .comment c :: parts =>
    let start := p.advance c.blanks
    let stop := start.advance c.text
    .comment start stop :: innerComments stop parts

/-- The lexemes of a text that starts at the given place.  The comments in a string follow it.
Every lexeme and every blank takes one step of the bound. -/
def scanFrom : Nat → Position → List Char → List Lexeme
  | 0, _, _ => []
  | _, _, [] => []
  | bound + 1, p, '-' :: '-' :: s =>
    let (text, rest) := takeComment s
    let stop := p.advance text
    .comment p stop :: scanFrom bound stop rest
  | bound + 1, p, c :: cs =>
    if isSourceBlank c then scanFrom bound (p.next c) cs
    else
      let t := takeToken c cs
      let stop := p.advance t.text
      .token ⟨t.kind p, String.ofList t.text, p, stop⟩ ::
        (innerComments (p.next c) t.parts ++ scanFrom bound stop t.rest)

/-- A source without the mark of its byte order and without a first line that names its
interpreter; the second component is the part left out. -/
def dropPreamble (source : List Char) : List Char × List Char :=
  let (mark, rest) := match source with
    | c :: cs => if c.toNat == 0xfeff then ([c], cs) else ([], source)
    | [] => ([], [])
  match rest with
  | '#' :: _ => (rest.dropWhile (· != '\n'), mark ++ rest.takeWhile (· != '\n'))
  | _ => (rest, mark)

/-- The lexemes of a source in order. -/
def scan (source : List Char) : List Lexeme :=
  let (s, dropped) := dropPreamble source
  scanFrom s.length (Position.origin.advance dropped) s

end LuaAmbient.Lua
