import ModuleHost.Syntax.Declarations

/-!
Statements, and the blocks they stand in.
-/

namespace ModuleHost.Syntax.Read

def condition (g : Grammar) : Read Unit := do
  expect "("
  discard <| withIn (expressionList g)
  expect ")"

def subStatement (g : Grammar) : Read Unit :=
  discard <| g.run (.statement false)

def loopBody (g : Grammar) : Read Unit :=
  withFlags (fun f => { f with breakAllowed := true, continueAllowed := true }) (subStatement g)

/-- Statements up to the closing brace; the span is that of a `"use strict"` at their beginning. -/
def blockStatements (statement : Read Statement) : Read (Option Span) := do
  let directive ← iterate (fun (leading, found) => do
    if ← atEnd then
      note ⟨(← span).lo, .expected braceClose (← quoted)⟩
      return .done found
    if ← is braceClose then return .done found
    let s ← statement
    match s.text with
    | some text =>
      let strict := text == "'use strict'" || text == "\"use strict\""
      return .again (leading, if leading && strict then found.or (some s.span) else found)
    | none => return .again (false, found)) (true, none)
  bump
  return directive

def block (g : Grammar) : Read (Option Span) := do
  expect braceOpen
  blockStatements (g.run (.statement true))

def ifStatement (g : Grammar) : Read Unit := do
  bump
  condition g
  subStatement g
  if ← eat "else" then
    if ← is "if" then g.run .ifStatement else subStatement g

def returnStatement (g : Grammar) : Read Unit := do
  let start ← position
  bump
  unless ← isSemicolon do discard <| withIn (expressionList g)
  expectSemicolon
  unless (← flags).inFunction do noteAt (← spanFrom start) .returnOutside

def switchCase (g : Grammar) (defaultSeen : Bool) : Read Bool := do
  let isDefault ← is "default"
  bump
  if isDefault then
    if defaultSeen then fail .secondDefaultCase
  else discard <| withIn (expressionList g)
  expect ":"
  whileTrue (do
    let done ← if ← atEnd then pure true else isAny ["case", "default", braceClose]
    return !done) (discard <| g.run (.statement true))
  return defaultSeen || isDefault

def switchStatement (g : Grammar) : Read Unit := do
  bump
  condition g
  expect braceOpen
  withFlags (fun f => { f with breakAllowed := true }) <|
    iterate (fun defaultSeen => do
      if ← isAny ["case", "default"] then return .again (← switchCase g defaultSeen)
      return .done ()) false
  expect braceClose

def throwStatement (g : Grammar) : Read Unit := do
  bump
  if ← afterLineBreak then fail .lineBreakAfterThrow
  discard <| withIn (expressionList g)
  expectSemicolon

def catchClause (g : Grammar) : Read Bool := do
  if !(← eat "catch") then return false
  if ← eat "(" then
    discard <| bindingPattern g false
    discard <| annotation g
    expect ")"
  discard <| g.run (.block false)
  return true

def finallyClause (g : Grammar) : Read Bool := do
  if !(← eat "finally") then return false
  discard <| g.run (.block false)
  return true

def tryStatement (g : Grammar) : Read Unit := do
  bump
  discard <| g.run (.block false)
  let start ← position
  let caught ← catchClause g
  let finished ← finallyClause g
  if !caught && !finished then note ⟨start, .semicolonExpected⟩

def looseClause (g : Grammar) : Read Unit := do
  noteAt (← span) .semicolonExpected
  let clause (action : Read Bool) : Read Unit := do
    try discard action catch _ => pure ()
  clause (catchClause g)
  clause (finallyClause g)

def withStatement (g : Grammar) : Read Unit := do
  noteAt (← span) .withStatement
  bump
  condition g
  subStatement g

def whileStatement (g : Grammar) : Read Unit := do
  bump
  condition g
  loopBody g

def doStatement (g : Grammar) : Read Unit := do
  bump
  loopBody g
  expect "while"
  condition g
  discard eatSemicolon

def jumpStatement : Read Unit := do
  let start ← position
  let isBreak ← is "break"
  bump
  let label ←
    if ← eatSemicolon then pure none
    else
      let (text, _) ← name true
      expectSemicolon
      pure (some text)
  let here ← spanFrom start
  let s ← get
  let known := label.all s.labels.contains
  if isBreak then
    if !known then noteAt here .breakLabel
    else if !s.flags.breakAllowed then noteAt here .breakOutside
  else if !s.flags.continueAllowed then noteAt here .continueOutside
  else if !known then noteAt here .continueLabel

def labelled (g : Grammar) (label : String) (here : Span) : Read Unit :=
  withFlags (fun f => { f with breakAllowed := true }) do
    let repeated := (← get).labels.contains label
    modify fun s => { s with labels := label :: s.labels }
    if ← is "function" then
      let f ← function g .declaration none
      noteAt f.span .labelledFunction
      if f.isGenerator then noteAt f.span .labelledGenerator
    else subStatement g
    if repeated then noteAt here (.repeatedLabel label)
    modify fun s => { s with labels := s.labels.erase label }

def loopOver (g : Grammar) : Read Bool := do
  let isOf ← is "of"
  bump
  discard <| withIn (if isOf then g.run .assignment else expressionList g)
  return isOf

inductive LoopHead where
  | counted
  | overKeys
  | overValues
  deriving DecidableEq

def countedHead (g : Grammar) : Read LoopHead := do
  unless ← eat ";" do
    discard <| withIn (expressionList g)
    expect ";"
  unless ← is ")" do discard <| withIn (expressionList g)
  return .counted

def overHead (g : Grammar) : Read LoopHead := do
  return if ← loopOver g then .overValues else .overKeys

def checkLoopVariables (v : VariablesRead) : Read Unit := do
  match v.found with
  | [d] =>
    if d.declarator.value.isSome then
      noteAt d.declarator.target.span .loopVariableValue
    if d.annotated then noteAt d.declarator.target.span .loopVariableType
  | found =>
    for d in found.drop 1 do noteAt d.declarator.target.span .manyLoopVariables

def isUsing : Expr → Bool
  | .name _ n => n == "using"
  | .awaitValue _ (.name _ n) => n == "using"
  | _ => false

def loopHead (g : Grammar) : Read LoopHead := do
  if ← beginsVariables then
    let v ← variableDeclaration g true
    if ← isAny ["of", "in"] then
      checkLoopVariables v
      return ← overHead g
    expect ";"
    return ← countedHead g
  if ← eat ";" then return ← countedHead g
  let first ← withFlags (fun f => { f with includeIn := false }) (expressionList g)
  let isOf ← is "of"
  let ranges ← if isOf then pure true else is "in"
  if isUsing first && !isOf then
    if ← peekToken (fun t => Token.spells "of" t || Token.spells "in" t) then
      discard <| bindingName false
      if ← is "in" then noteAt (← span) .usingInForIn
      return ← overHead g
  if ranges then
    let target ← patternOf g .assignment first
    if !isOf then
      match target with
      | .name .. | .place _ => pure ()
      | other => noteAt other.span .loopPattern
    return ← overHead g
  expect ";"
  checkValue first
  countedHead g

def forStatement (g : Grammar) : Read Unit := do
  bump
  let awaitStart ← position
  let isAwait ← eat "await"
  let awaitSpan ← spanFrom awaitStart
  expect "("
  let head ← loopHead g
  expect ")"
  loopBody g
  if isAwait && head != .overValues then failAt awaitSpan .awaitOutsideForOf

def keywordStatement? (g : Grammar) (word : String) : Read Bool := do
  match word with
  | "break" | "continue" => jumpStatement
  | "debugger" =>
    bump
    expectSemicolon
  | "do" => doStatement g
  | "for" => forStatement g
  | "if" => ifStatement g
  | "return" => returnStatement g
  | "switch" => switchStatement g
  | "throw" => throwStatement g
  | "catch" | "finally" => looseClause g
  | "try" => tryStatement g
  | "with" => withStatement g
  | "while" => whileStatement g
  | _ => return false
  return true

def beginsUsingBehindAwait : Read Bool := do
  bump
  if !(← is "using") then return false
  if ← peekIsName then return !(← lineBreakAhead) else return false

def introducesName : Read Bool := do
  if ← peekIsWord then return !(← lineBreakAhead) else return false

def declarationStatement? (g : Grammar) (word : String) (declarations : Bool) : Read Bool := do
  match word with
  | "function" =>
    unless declarations do noteAt (← span) .declarationNotAllowed
    discard <| function g .declaration none
    return true
  | "class" =>
    unless declarations do noteAt (← span) .declarationNotAllowed
    discard <| classDeclaration g
    return true
  | "var" =>
    discard <| variableDeclaration g false
    return true
  | "const" =>
    if ← peekIs "enum" then
      bump
      bump
      discard <| enumeration g
      return true
    if declarations then discard <| variableDeclaration g false
    return declarations
  | "let" =>
    if !declarations then return false
    if !(← followsLet) then return false
    discard <| variableDeclaration g false
    return true
  | "using" =>
    if !declarations then return false
    using? g
  | "await" =>
    if !declarations then return false
    if !(← lookAhead beginsUsingBehindAwait) then return false
    bump
    using? g
  | "interface" | "type" | "enum" =>
    if !(← introducesName) then return false
    bump
    discard <| match word with
      | "interface" => interface g
      | "type" => typeAlias g
      | _ => enumeration g
    return true
  | _ => return false

def expressionEnd (g : Grammar) (e : Expr) : Read Unit := do
  if ← eatSemicolon then return
  if ← isToken fun t => t.binaryPrecedence?.isSome then
    noteAt (← span) .semicolonExpected
    discard <| operatorsAfter g e 0
    return
  fail .statementEndExpected

def expressionStatement (g : Grammar) : Read (Option String) := do
  let e ← withIn (expressionList g)
  match e with
  | .name here text =>
    if ← eat ":" then
      labelled g text here
      return none
    if (← declarationAfterName? g text).isSome then return none
    expressionEnd g e
    return none
  | .text _ raw =>
    expressionEnd g e
    return some raw
  | _ =>
    checkValue e
    expressionEnd g e
    return none

def plainStatement (g : Grammar) (start : Nat) (declarations : Bool) : Read Statement := do
  let done ←
    match ← required with
    | .word word =>
      if ← keywordStatement? g word then pure true
      else declarationStatement? g word declarations
    | .mark text =>
      if text == braceOpen then
        discard <| g.run (.block false)
        pure true
      else eat ";"
    | _ => pure false
  if done then return ⟨← spanFrom start, none⟩
  if ← beginsAsyncFunction then
    discard <| asyncFunction g .declaration
    return ⟨← spanFrom start, none⟩
  let text ← expressionStatement g
  return ⟨← spanFrom start, text⟩

/-- Forgets uses of `import.meta` in decorators that decorate nothing. -/
def dropMetas (here : Span) : Read Unit :=
  modify fun s => { s with metas := s.metas.filter fun m => !(here.lo ≤ m.lo && m.hi ≤ here.hi) }

def keepsDecorators : Read Bool :=
  isAny ["class", "function", "async", "abstract", "declare", "import", "export"]

def statement (g : Grammar) (declarations : Bool) : Read Statement := do
  let start ← position
  let decorators ← g.run (.decorators true)
  -- decorators of nothing are read and forgotten
  if let some here := decorators then unless ← keepsDecorators do dropMetas here
  if ← isAny ["import", "export"] then
    let isValue ← if ← is "import" then peekToken fun t => Token.spells "(" t || Token.spells "." t
      else pure false
    unless isValue do fail .nestedImportOrExport
    discard <| expressionList g
    discard eatSemicolon
    return ⟨← spanFrom start, none⟩
  withFlags (fun f => { f with colonFollows := false }) (plainStatement g start declarations)

def decorator (g : Grammar) : Read Unit := do
  bump
  if ← eat "(" then
    discard <| expressionList g
    expect ")"
  else
    let (text, here) ← name false
    discard <| subscripts g (.expr (.name here text)) false true
  let typed ← is "<"
  if typed then typeArguments g
  let called ← is "("
  if typed || called then argumentList g

def decorators (g : Grammar) (allowExport : Bool) : Read (Option Span) := do
  if !(← is "@") then return none
  let start ← position
  whileTrue (is "@") (decorator g)
  let here ← spanFrom start
  let f ← flags
  if !f.inClass && !f.inFunction && !allowExport then
    if ← is "export" then fail .exportAfterDecorators
  return some here

end ModuleHost.Syntax.Read
