/-
A parser of Lua.

The trees have the kinds and the fields that a chunk is lifted by.  A token that starts no statement
is a piece of its own that the parser makes no sense of.  The comments of a source stand behind its
statements.

Main definitions:

* `LuaAmbient.Lua.Reader.expr` — the expression at the start of a list of tokens;
* `LuaAmbient.Lua.Reader.statement` — the statement at the start of a list of tokens;
* `LuaAmbient.Lua.parse` — **the tree of a source**.
-/

import LuaAmbient.Lua.Token

set_option autoImplicit false

namespace LuaAmbient.Lua

/-- A node in a field of its parent. -/
def Node.within (field : String) : Node → Node
  | mk kind isNamed _ start stop children => mk kind isNamed (some field) start stop children

/-- A node of a kind that goes from the first to the last of its children. -/
def Node.around (kind : String) (children : List Node) : Node :=
  .mk kind true none ((children.head?.map Node.start).getD .origin)
    ((children.getLast?.map Node.stop).getD .origin) children

namespace Reader

/-! ### Single tokens -/

/-- A keyword or a symbol. -/
def leaf (t : Token) : Node :=
  .mk t.text false none t.start t.stop []

/-- A token that stands for more than a keyword or a symbol. -/
def named (kind : String) (t : Token) : Node :=
  .mk kind true none t.start t.stop []

/-- A string with its content. -/
def string (content : Option (Position × Position)) (t : Token) : Node :=
  .mk "string" true none t.start t.stop
    (content.toList.map fun c => .mk "string_content" true (some "content") c.1 c.2 [])

/-- Whether the next token is the given keyword or symbol. -/
def nextIs (text : String) (tokens : List Token) : Bool :=
  match tokens with
  | t :: _ => t.is text
  | [] => false

/-- Reads the given keyword or symbol. -/
def symbol (text : String) (tokens : List Token) : Option (Node × List Token) :=
  match tokens with
  | t :: rest => if t.is text then some (leaf t, rest) else none
  | [] => none

/-- Reads the given keyword or symbol if it is there. -/
def symbolIf (text : String) (tokens : List Token) : List Node × List Token :=
  match symbol text tokens with
  | some (s, rest) => ([s], rest)
  | none => ([], tokens)

/-- Reads a name. -/
def name (tokens : List Token) : Option (Node × List Token) :=
  match tokens with
  | t :: rest => if t.kind == .name then some (named "identifier" t, rest) else none
  | [] => none

/-- Reads the name of a member, which may be a reserved word. -/
def member (tokens : List Token) : Option (Node × List Token) :=
  match tokens with
  | t :: rest =>
    if t.kind == .name || t.kind == .keyword then some (named "identifier" t, rest) else none
  | [] => none

/-- Whether the tokens end a block. -/
def endsBlock (tokens : List Token) : Bool :=
  tokens.isEmpty || ["end", "else", "elseif", "until"].any fun k => nextIs k tokens

/-! ### Operators -/

/-- The binding strength of a binary operator to its left and to its right. -/
def strength? (t : Token) : Option (Nat × Nat) :=
  if t.kind != .keyword && t.kind != .symbol then none
  else
    match t.text with
    | "or" => some (1, 1)
    | "and" => some (2, 2)
    | "<" | ">" | "<=" | ">=" | "~=" | "==" => some (3, 3)
    | "|" => some (4, 4)
    | "~" => some (5, 5)
    | "&" => some (6, 6)
    | "<<" | ">>" => some (7, 7)
    | ".." => some (9, 8)
    | "+" | "-" => some (10, 10)
    | "*" | "/" | "//" | "%" => some (11, 11)
    | "^" => some (14, 13)
    | _ => none

/-- The binding strength of unary operators. -/
def unaryStrength : Nat := 12

/-- Whether a token is a unary operator. -/
def isUnary (t : Token) : Bool :=
  t.is "not" || t.is "-" || t.is "#" || t.is "~"

/-! ### Parameters and names -/

/-- Reads names with commas between them and, at the end, three dots, up to a closing
parenthesis. -/
def params : List Token → Option (List Node × List Token)
  | [] => none
  | t :: rest =>
    if t.is ")" then some ([leaf t], rest)
    else if t.kind == .name || t.is "..." then
      let first := named (if t.kind == .name then "identifier" else "vararg_expression") t
      match rest with
      | u :: more =>
        if u.is "," then (params more).map fun r => (first :: leaf u :: r.1, r.2)
        else if u.is ")" then some ([first, leaf u], more)
        else none
      | [] => none
    else none

/-- Reads the attribute of a local variable if it has one. -/
def attribution (tokens : List Token) : List Node × List Token :=
  match tokens with
  | a :: b :: c :: rest =>
    if a.is "<" && b.kind == .name && c.is ">" then
      ([.around "attribute" [leaf a, named "identifier" b, leaf c]], rest)
    else ([], tokens)
  | _ => ([], tokens)

/-- Reads names with commas between them, each of which may have an attribute. -/
def localNames : Nat → List Token → Option (List Node × List Token)
  | 0, _ => none
  | bound + 1, tokens => do
    let (first, rest) ← name tokens
    let (given, rest) := attribution rest
    match symbol "," rest with
    | some (comma, more) =>
      let (others, rest) ← localNames bound more
      return (first :: given ++ comma :: others, rest)
    | none => return (first :: given, rest)

/-- A member of a base. -/
def memberOf (base mark member : Node) : Node :=
  .around "dot_index_expression" [base.within "table", mark, member.within "field"]

/-- A method of a base. -/
def methodOf (base mark method : Node) : Node :=
  .around "method_index_expression" [base.within "table", mark, method.within "method"]

/-- Reads the members behind the name of a function, and at the end a method. -/
def functionPath (base : Node) : Nat → List Token → Option (Node × List Token)
  | 0, _ => none
  | bound + 1, tokens =>
    match symbol "." tokens, symbol ":" tokens with
    | some (mark, rest), _ => do
      let (field, rest) ← member rest
      functionPath (memberOf base mark field) bound rest
    | none, some (mark, rest) => do
      let (method, rest) ← member rest
      return (methodOf base mark method, rest)
    | none, none => some (base, tokens)

/-! ### Expressions and blocks -/

mutual

/-- Reads an expression whose binary operators bind more strongly than `limit`. -/
def expr : Nat → Nat → List Token → Option (Node × List Token)
  | 0, _, _ => none
  | bound + 1, limit, tokens =>
    match tokens with
    | [] => none
    | t :: rest =>
      if isUnary t then do
        let (argument, rest) ← expr bound unaryStrength rest
        operators bound limit
          (.around "unary_expression" [leaf t, argument.within "operand"]) rest
      else do
        let (left, rest) ← simple bound tokens
        operators bound limit left rest

/-- Reads the binary operators behind an expression. -/
def operators : Nat → Nat → Node → List Token → Option (Node × List Token)
  | 0, _, _, _ => none
  | bound + 1, limit, left, tokens =>
    match tokens with
    | [] => some (left, [])
    | t :: rest =>
      match strength? t with
      | none => some (left, tokens)
      | some (leftStrength, rightStrength) =>
        if leftStrength ≤ limit then some (left, tokens)
        else do
          let (right, rest) ← expr bound rightStrength rest
          operators bound limit
            (.around "binary_expression" [left.within "left", leaf t, right.within "right"]) rest

/-- Reads an expression without operators. -/
def simple : Nat → List Token → Option (Node × List Token)
  | 0, _ => none
  | bound + 1, tokens =>
    match tokens with
    | [] => none
    | t :: rest =>
      match t.kind with
      | .number => some (named "number" t, rest)
      | .string content => some (string content t, rest)
      | _ =>
        if t.is "nil" || t.is "true" || t.is "false" then some (named t.text t, rest)
        else if t.is "..." then some (named "vararg_expression" t, rest)
        else if t.is "\x7b" then table bound tokens
        else if t.is "function" then do
          let (body, rest) ← function bound rest
          return (.around "function_definition" (leaf t :: body), rest)
        else suffixed bound tokens

/-- Reads a name or an expression in parentheses with the members, elements and calls behind it. -/
def suffixed : Nat → List Token → Option (Node × List Token)
  | 0, _ => none
  | bound + 1, tokens =>
    match name tokens with
    | some (n, rest) => suffixes bound n rest
    | none => do
      let (opening, rest) ← symbol "(" tokens
      let (inner, rest) ← expr bound 0 rest
      let (closing, rest) ← symbol ")" rest
      suffixes bound (.around "parenthesized_expression" [opening, inner, closing]) rest

/-- Reads the members, elements and calls behind an expression. -/
def suffixes : Nat → Node → List Token → Option (Node × List Token)
  | 0, _, _ => none
  | bound + 1, base, tokens =>
    match symbol "." tokens, symbol "[" tokens, symbol ":" tokens with
    | some (mark, rest), _, _ => do
      let (field, rest) ← member rest
      suffixes bound (memberOf base mark field) rest
    | none, some (opening, rest), _ => do
      let (key, rest) ← expr bound 0 rest
      let (closing, rest) ← symbol "]" rest
      suffixes bound (.around "bracket_index_expression"
        [base.within "table", opening, key.within "field", closing]) rest
    | none, none, some (mark, rest) => do
      let (method, rest) ← member rest
      let (given, rest) ← arguments bound rest
      suffixes bound (.around "function_call"
        [(methodOf base mark method).within "name", given.within "arguments"]) rest
    | none, none, none =>
      match arguments bound tokens with
      | some (given, rest) =>
        suffixes bound (.around "function_call" [base.within "name", given.within "arguments"]) rest
      | none => some (base, tokens)

/-- Reads the arguments of a call: expressions in parentheses, a table or a string. -/
def arguments : Nat → List Token → Option (Node × List Token)
  | 0, _ => none
  | bound + 1, tokens =>
    match tokens with
    | [] => none
    | t :: rest =>
      match t.kind with
      | .string content => some (.around "arguments" [string content t], rest)
      | _ =>
        if t.is "\x7b" then do
          let (table, rest) ← table bound tokens
          return (.around "arguments" [table], rest)
        else if t.is "(" then
          match symbol ")" rest with
          | some (closing, rest) => some (.around "arguments" [leaf t, closing], rest)
          | none => do
            let (given, rest) ← exprs bound rest
            let (closing, rest) ← symbol ")" rest
            return (.around "arguments" (leaf t :: given ++ [closing]), rest)
        else none

/-- Reads expressions with commas between them. -/
def exprs : Nat → List Token → Option (List Node × List Token)
  | 0, _ => none
  | bound + 1, tokens => do
    let (first, rest) ← expr bound 0 tokens
    match symbol "," rest with
    | some (comma, more) =>
      let (others, rest) ← exprs bound more
      return (first :: comma :: others, rest)
    | none => return ([first], rest)

/-- Reads a table. -/
def table : Nat → List Token → Option (Node × List Token)
  | 0, _ => none
  | bound + 1, tokens => do
    let (opening, rest) ← symbol "\x7b" tokens
    let (fields, rest) ← fields bound rest
    return (.around "table_constructor" (opening :: fields), rest)

/-- Reads the entries of a table and its closing brace. -/
def fields : Nat → List Token → Option (List Node × List Token)
  | 0, _ => none
  | bound + 1, tokens =>
    match symbol "\x7d" tokens with
    | some (closing, rest) => some ([closing], rest)
    | none => do
      let (first, rest) ← field bound tokens
      match (symbol "," rest).or (symbol ";" rest) with
      | some (separator, rest) =>
        let (others, rest) ← fields bound rest
        return (first :: separator :: others, rest)
      | none =>
        let (closing, rest) ← symbol "\x7d" rest
        return ([first, closing], rest)

/-- Reads an entry of a table. -/
def field : Nat → List Token → Option (Node × List Token)
  | 0, _ => none
  | bound + 1, tokens =>
    match symbol "[" tokens with
    | some (opening, rest) => do
      let (key, rest) ← expr bound 0 rest
      let (closing, rest) ← symbol "]" rest
      let (sign, rest) ← symbol "=" rest
      let (value, rest) ← expr bound 0 rest
      return (.around "field" [opening, key.within "name", closing, sign, value.within "value"], rest)
    | none =>
      match (name tokens).bind fun n => (symbol "=" n.2).map fun s => (n.1, s.1, s.2) with
      | some (n, sign, rest) => do
        let (value, rest) ← expr bound 0 rest
        return (.around "field" [n.within "name", sign, value.within "value"], rest)
      | none => do
        let (value, rest) ← expr bound 0 tokens
        return (.around "field" [value.within "value"], rest)

/-- Reads the parameters and the body of a function, and the keyword behind it. -/
def function : Nat → List Token → Option (List Node × List Token)
  | 0, _ => none
  | bound + 1, tokens => do
    let (opening, rest) ← symbol "(" tokens
    let (names, rest) ← params rest
    let (body, rest) ← blockTo bound "end" rest
    return ((Node.around "parameters" (opening :: names)).within "parameters" :: body, rest)

/-- Reads statements up to the end of their block. -/
def block : Nat → List Token → List Node × List Token
  | 0, tokens => ([], tokens)
  | bound + 1, tokens =>
    if endsBlock tokens then ([], tokens)
    else
      match tokens with
      | [] => ([], [])
      | t :: rest =>
        let (first, behind) := (statement bound tokens).getD (.around "ERROR" [leaf t], rest)
        let (others, behind) := block bound behind
        (first :: others, behind)

/-- Reads a block, which is left out if it is empty, and the keyword behind it. -/
def blockTo : Nat → String → List Token → Option (List Node × List Token)
  | 0, _, _ => none
  | bound + 1, closing, tokens => do
    let (statements, rest) := block bound tokens
    let (closing, rest) ← symbol closing rest
    return (if statements.isEmpty then [closing]
      else [(Node.around "block" statements).within "body", closing], rest)

/-- Reads the branches of a conditional, from its first condition up to its end. -/
def branches : Nat → List Token → Option (List Node × List Token)
  | 0, _ => none
  | bound + 1, tokens => do
    let (condition, rest) ← expr bound 0 tokens
    let (mark, rest) ← symbol "then" rest
    let (statements, rest) := block bound rest
    let start := condition.within "condition" :: mark :: statements
    match symbol "elseif" rest, symbol "else" rest with
    | some (mark, rest), _ =>
      let (others, rest) ← branches bound rest
      return (start ++ mark :: others, rest)
    | none, some (mark, rest) =>
      let (last, rest) ← blockTo bound "end" rest
      return (start ++ mark :: last, rest)
    | none, none =>
      let (closing, rest) ← symbol "end" rest
      return (start ++ [closing], rest)

/-- Reads a loop from its variables up to its end. -/
def loop : Nat → List Token → Option (List Node × List Token)
  | 0, _ => none
  | bound + 1, tokens => do
    let (names, rest) ← localNames bound tokens
    let (mark, rest) ← (symbol "=" rest).or (symbol "in" rest)
    let (range, rest) ← exprs bound rest
    let (start, rest) ← symbol "do" rest
    let (body, rest) ← blockTo bound "end" rest
    return (Node.around "clause" (names ++ mark :: range) :: start :: body, rest)

/-- Reads an assignment or a call. -/
def assignment : Nat → List Token → Option (Node × List Token)
  | 0, _ => none
  | bound + 1, tokens => do
    let (first, rest) ← suffixed bound tokens
    let (others, rest) ← targets bound rest
    match symbol "=" rest with
    | some (sign, rest) =>
      let (values, rest) ← exprs bound rest
      return (.around "assignment_statement" [.around "variable_list" (first :: others), sign,
        .around "expression_list" values], rest)
    | none =>
      if others.isEmpty && first.kind == "function_call" then some (first, rest) else none

/-- Reads the further targets of an assignment, each behind a comma. -/
def targets : Nat → List Token → Option (List Node × List Token)
  | 0, _ => none
  | bound + 1, tokens =>
    match symbol "," tokens with
    | none => some ([], tokens)
    | some (comma, more) => do
      let (first, rest) ← suffixed bound more
      let (others, rest) ← targets bound rest
      return (comma :: first :: others, rest)

/-- Reads a local declaration, whose word is given. -/
def localStatement : Nat → Node → List Token → Option (Node × List Token)
  | 0, _, _ => none
  | bound + 1, mark, tokens =>
    match symbol "function" tokens with
    | some (word, rest) => do
      let (n, rest) ← name rest
      let (body, rest) ← function bound rest
      return (.around "function_declaration" (mark :: word :: n.within "name" :: body), rest)
    | none => do
      let (names, rest) ← localNames bound tokens
      let declared := Node.around "variable_list" names
      match symbol "=" rest with
      | some (sign, rest) =>
        let (values, rest) ← exprs bound rest
        return (.around "variable_declaration" [mark, .around "assignment_statement"
          [declared, sign, .around "expression_list" values]], rest)
      | none => return (.around "variable_declaration" [mark, declared], rest)

/-- Reads what stands behind the word for a return, with a semicolon at the end. -/
def returned : Nat → List Token → Option (List Node × List Token)
  | 0, _ => none
  | bound + 1, tokens =>
    if endsBlock tokens || nextIs ";" tokens then some (symbolIf ";" tokens)
    else do
      let (values, rest) ← exprs bound tokens
      let (last, rest) := symbolIf ";" rest
      return (.around "expression_list" values :: last, rest)

/-- Reads a statement. -/
def statement : Nat → List Token → Option (Node × List Token)
  | 0, _ => none
  | bound + 1, tokens =>
    match tokens with
    | [] => none
    | t :: rest =>
      let whole (kind : String) (read : Option (List Node × List Token)) :
          Option (Node × List Token) :=
        read.map fun r => (.around kind (leaf t :: r.1), r.2)
      if t.is ";" then whole "empty_statement" (some ([], rest))
      else if t.is "break" then whole "break_statement" (some ([], rest))
      else if t.is "goto" then whole "goto_statement" ((name rest).map fun n => ([n.1], n.2))
      else if t.is "::" then whole "label_statement" do
        let (label, rest) ← name rest
        let (closing, rest) ← symbol "::" rest
        return ([label, closing], rest)
      else if t.is "do" then whole "do_statement" (blockTo bound "end" rest)
      else if t.is "while" then whole "while_statement" do
        let (condition, rest) ← expr bound 0 rest
        let (start, rest) ← symbol "do" rest
        let (body, rest) ← blockTo bound "end" rest
        return (condition.within "condition" :: start :: body, rest)
      else if t.is "repeat" then whole "repeat_statement" do
        let (body, rest) ← blockTo bound "until" rest
        let (condition, rest) ← expr bound 0 rest
        return (body ++ [condition.within "condition"], rest)
      else if t.is "if" then whole "if_statement" (branches bound rest)
      else if t.is "for" then whole "for_statement" (loop bound rest)
      else if t.is "function" then whole "function_declaration" do
        let (n, rest) ← name rest
        let (target, rest) ← functionPath n bound rest
        let (body, rest) ← function bound rest
        return (target.within "name" :: body, rest)
      else if t.is "local" then localStatement bound (leaf t) rest
      else if t.is "return" then whole "return_statement" (returned bound rest)
      else assignment bound tokens

end

/-- A bound on the steps that reading a list of tokens takes. -/
def boundFor (tokens : List Token) : Nat :=
  20 * (tokens.length + 1)

/-- Reads the outermost statements. -/
def statements : Nat → List Token → List Node
  | 0, _ => []
  | _, [] => []
  | bound + 1, t :: rest =>
    let (first, behind) :=
      (statement (boundFor (t :: rest)) (t :: rest)).getD (.around "ERROR" [leaf t], rest)
    first :: statements bound behind

end Reader

/-- The token of a lexeme. -/
def Lexeme.token? : Lexeme → Option Token
  | .token t => some t
  | .comment _ _ => none

/-- The comment of a lexeme. -/
def Lexeme.comment? : Lexeme → Option Node
  | .token _ => none
  | .comment start stop => some (.mk "comment" true none start stop [])

/-- The tree of a source. -/
def parse (source : List Char) : Node :=
  let lexemes := scan source
  let tokens := lexemes.filterMap Lexeme.token?
  .mk "chunk" true none .origin (Position.origin.advance source)
    (Reader.statements tokens.length tokens ++ lexemes.filterMap Lexeme.comment?)

end LuaAmbient.Lua
