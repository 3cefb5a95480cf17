import ModuleHost.Syntax.Expressions

/-!
Declarations of variables, types, enumerations and namespaces. A declaration behind `declare` is
marked in the tree, since it has no value when the program runs.
-/

namespace ModuleHost.Syntax.Read

inductive VariableKind where
  | constant
  | mutable
  | functionWide
  deriving DecidableEq

/-- Object entries that only a pattern may hold are faults once no pattern can follow. -/
def checkValue (e : Expr) : Read Unit := do
  let inside := (← get).shortValues.filter fun lo => e.span.lo ≤ lo && lo < e.span.hi
  for lo in inside.reverse do noteAt ⟨lo, lo⟩ .shorthandValue

def missingValue (kind : VariableKind) (here : Span) (target : Pattern) : Read Unit := do
  if (← flags).inDeclare then return
  if kind == .constant then noteAt here .constWithoutValue
  else unless target.isName do failAt here .patternWithoutValue

structure DeclaratorRead where
  declarator : Declarator
  annotated : Bool

def declarator (g : Grammar) (inLoop : Bool) (kind : VariableKind) : Read DeclaratorRead := do
  let start ← position
  let target ← bindingPattern g (kind != .functionWide)
  if target.isName then discard <| eat "!"
  let annotated ← annotation g
  let loopHead ← if inLoop then isAny ["in", "of"] else pure false
  if loopHead then return ⟨⟨← spanFrom start, target, none⟩, annotated⟩
  if ← eat "=" then
    let value ← g.run .assignment
    checkValue value
    return ⟨⟨← spanFrom start, target, some value.span⟩, annotated⟩
  missingValue kind (← spanFrom start) target
  return ⟨⟨← spanFrom start, target, none⟩, annotated⟩

def emptyLoopHead (g : Grammar) : Read (Option Unit) := do
  bump
  discard <| g.run .assignment
  expect ")"
  return some ()

/-- Skips to the end of a statement that went on where it should have ended. -/
def skipStatement (g : Grammar) : Read Unit := do
  noteAt (← span) .semicolonExpected
  try discard <| expressionList g catch _ => pure ()
  iterate (fun () => do
    if ← eatSemicolon then return .done ()
    bump
    match ← current with
    | some (.bad _) => return .done ()
    | _ => return .again ()) ()

def declarators (g : Grammar) (inLoop : Bool) (kind : VariableKind) (keyword : Span) :
    Read (List DeclaratorRead) :=
  iterate (fun found => do
    -- the list ends where another declarator is due
    let ended ← if ← is ";" then pure true else atEnd
    if ended then
      let last ← previous
      noteAt (if last == keyword then ⟨last.hi, last.hi⟩ else last) .trailingComma
      return .done found
    let next ← if inLoop && kind == .functionWide then declarator g inLoop kind
      else withIn (declarator g inLoop kind)
    if ← eat "," then return .again (found ++ [next])
    return .done (found ++ [next])) []

structure VariablesRead where
  kind : VariableKind
  found : List DeclaratorRead

def VariablesRead.decl (v : VariablesRead) : Decl :=
  .variable false (v.found.map DeclaratorRead.declarator)

def variableDeclaration (g : Grammar) (inLoop : Bool) : Read VariablesRead := do
  let kind ← do
    if ← is "const" then pure VariableKind.constant
    else if ← is "let" then pure .mutable
    else pure .functionWide
  bump
  let keyword ← previous
  let headless ← if inLoop then isAny ["in", "of"] else pure false
  if headless then
    -- `of` may also be the name that is declared
    if (← attempt (some <$> lookAhead (emptyLoopHead g))).isSome then
      note ⟨keyword.hi, .emptyDeclarationList⟩
      return ⟨kind, []⟩
  let found ← declarators g inLoop kind keyword
  unless inLoop do
    unless ← eatSemicolon do skipStatement g
  return ⟨kind, found⟩

def followsLet : Read Bool :=
  peekToken fun
    | .word text =>
      !(isKeyword text || text == "null" || text == "true" || text == "false") ||
        ["let", "yield", "await"].contains text
    | .mark text => text == braceOpen || text == "["
    | _ => false

def beginsVariables : Read Bool := do
  if ← isAny ["const", "var"] then return true
  if ← is "let" then followsLet else return false

def using? (g : Grammar) : Read Bool := do
  let begins ← if ← peekIsName then pure !(← lineBreakAhead) else pure false
  if !begins then return false
  bump
  let keyword ← previous
  let found ← declarators g false .functionWide keyword
  for d in found do
    unless d.declarator.target.isName do noteAt d.declarator.span .usingPattern
    if d.declarator.value.isNone then noteAt d.declarator.span .usingWithoutValue
  return true

def computedEnumMember (g : Grammar) (start : Nat) : Read Unit := do
  bump
  let e ← expressionList g
  bump
  match e with
  | .text .. | .template _ false => pure ()
  | _ => noteAt (← spanFrom start) .computedEnumMember

def enumMemberName (g : Grammar) : Read Unit := do
  let start ← position
  match ← required with
  | .string .. => bump
  | .number .. =>
    bump
    noteAt (← previous) .numericEnumMember
  | .mark "[" => computedEnumMember g start
  | _ => discard wordName

def enumMember (g : Grammar) : Read Unit := do
  enumMemberName g
  if ← eat "=" then discard <| g.run .assignment
  else unless ← isAny [",", braceClose] do
    let here ← position
    modify fun s => { s with token := s.token.map fun l => { l with token := .mark "," } }
    note ⟨here, .semicolonExpected⟩

def enumeration (g : Grammar) : Read Decl := do
  let (text, _) ← wordName
  expect braceOpen
  iterate (fun () => do
    if ← is braceClose then return .done ()
    enumMember g
    if ← eat "," then return .again ()
    if ← is braceClose then return .done ()
    note ⟨(← span).lo, .expected "," ((← current).elim "EOF" Token.text)⟩
    return .again ()) ()
  expect braceClose
  return .enumeration text false

def interface (g : Grammar) : Read Decl := do
  let (text, here) ← wordName
  if typeNames.contains text then noteAt here .interfaceName
  typeParameters? g true false
  if ← eat "extends" then heritage g
  if ← is "extends" then
    noteAt (← span) .secondExtends
    whileTrue (do
      let done ← if ← atEnd then pure true else is braceOpen
      return !done) bump
  inType (objectType g)
  return .interface

def typeAlias (g : Grammar) : Read Decl := do
  discard wordName
  typeParameters? g true false
  unless ← typeAfter g "=" do fail (.unexpected (← quotedMaybe) "=")
  expectSemicolon
  return .typeAlias

def namespaceDecl (g : Grammar) : Read Decl := do
  let (text, _) ← wordName
  whileTrue (eat ".") (discard wordName)
  g.run .moduleBlock
  return .namespaceDecl (.name text) false

def ambientModule (g : Grammar) : Read Decl := do
  let target ←
    if ← is "global" then
      bump
      pure (NamespaceName.name "global")
    else
      match ← required with
      | .string .. =>
        bump
        pure .string
      | _ => unexpected "global or a string literal"
  if ← is braceOpen then g.run .moduleBlock else expectSemicolon
  return .namespaceDecl target false

def classDeclaration (g : Grammar) : Read Decl := do
  let named ← classRest g true
  return .classDecl (named.getD "") false

def wordDeclaration? (g : Grammar) (word : String) (pending : Bool) : Read (Option Decl) := do
  let broken ← afterLineBreak
  let named ← if pending then pure true else isName
  let advance : Read Unit := if pending then bump else pure ()
  match word with
  | "abstract" =>
    let isClass ← is "class"
    if pending || (isClass && !broken) then
      advance
      return some (← classDeclaration g)
    return none
  | "enum" =>
    if !named then return none
    advance
    return some (← enumeration g)
  | "interface" =>
    if !named then return none
    advance
    return some (← interface g)
  | "module" =>
    if broken then return none
    advance
    if ← isString then return some (← ambientModule g)
    if named then return some (← namespaceDecl g)
    return none
  | "namespace" =>
    if !named then return none
    advance
    return some (← namespaceDecl g)
  | "type" =>
    if !pending && broken then return none
    if !named then return none
    advance
    return some (← typeAlias g)
  | _ => return none

def constEnum : Read Bool := do
  if ← is "const" then peekIs "enum" else return false

def declared? (g : Grammar) : Read (Option Decl) :=
  withFlags (fun f => { f with inDeclare := true }) do
    let found ← do
      if ← is "function" then
        pure (some (declarationOf (← function g .declaration none)))
      else if ← is "class" then pure (some (← classDeclaration g))
      else if ← constEnum then
        bump
        bump
        pure (some (← enumeration g))
      else if ← isAny ["const", "var", "let"] then pure (some (← variableDeclaration g false).decl)
      else if ← is "global" then pure (some (← ambientModule g))
      else
        match ← current with
        | some (.word text) => wordDeclaration? g text true
        | _ => pure none
    return found.map Decl.declared

def declarationAfterName? (g : Grammar) (word : String) : Read (Option Decl) := do
  match word with
  | "declare" => declared? g
  | "global" =>
    if ← is braceOpen then
      g.run .moduleBlock
      return some (.namespaceDecl (.name "global") false)
    return none
  | _ => wordDeclaration? g word false

end ModuleHost.Syntax.Read
