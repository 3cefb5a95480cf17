import ModuleHost.Syntax.Patterns

/-!
Functions. The flags that a body is read with depend on the kind of function: what `await`, `yield`,
`return` and `break` mean inside is decided here.
-/

namespace ModuleHost.Syntax.Read

def bodyFlags (isAsync isGenerator isArrow : Bool) (f : Flags) : Flags :=
  { f with
    inAsync := isAsync, inGenerator := isGenerator,
    inOwnFunction := if isArrow then f.inOwnFunction else true,
    inFunction := true, inStaticBlock := false, breakAllowed := false, continueAllowed := false }

def inBody {α : Type} (isAsync isGenerator isArrow : Bool) (body : Read α) : Read α := do
  if (← flags).inDeclare then
    if ← is braceOpen then noteAt (← span) .bodyInDeclaration
  withFlags (bodyFlags isAsync isGenerator isArrow) (inFreshScope body)

def checkDirective (simple : Bool) (directive : Option Span) : Read Unit := do
  unless simple do
    if let some here := directive then noteAt here .strictDirective

def functionBody (g : Grammar) (isAsync isGenerator simple : Bool) : Read Bool :=
  inBody isAsync isGenerator false do
    if !(← is braceOpen) then
      if ← eatSemicolon then return false
    checkDirective simple (← withIn (g.run (.block true)))
    return true

/-- The body of an arrow function; answers whether it is a block. -/
def arrowBody (g : Grammar) (isAsync simple : Bool) : Read Bool :=
  inBody isAsync false true do
    if ← is braceOpen then
      checkDirective simple (← g.run (.block false))
      return true
    discard <| g.run .assignment
    return false

def noteDefaults (parameters : List Pattern) : Read Unit := do
  for p in parameters do
    match p with
    | .withDefault here _ => noteAt here .defaultWithoutBody
    | _ => pure ()

def functionRest (g : Grammar) (isAsync isGenerator : Bool) (parameters : Read (List Pattern)) :
    Read Bool :=
  withFlags (fun f => { f with inAsync := isAsync, inGenerator := isGenerator }) do
    inType (typeParameters? g false true)
    expect "("
    let ps ← withFlags
      (fun f => { f with inParameters := true, inFunction := false, inGenerator := isGenerator })
      parameters
    expect ")"
    if ← is ":" then returnType g ":"
    let hasBody ← functionBody g isAsync isGenerator (isSimple ps)
    unless hasBody do noteDefaults ps
    return hasBody

def beginsAsyncFunction : Read Bool := do
  if ← is "async" then
    if ← peekIs "function" then return !(← lineBreakAhead)
  return false

inductive FunctionUse where
  | declaration
  | default
  | value
  deriving DecidableEq

structure FunctionHead where
  name : Option String
  hasBody : Bool
  isAsync : Bool
  isGenerator : Bool
  span : Span

def function (g : Grammar) (use : FunctionUse) (asyncStart : Option Nat) : Read FunctionHead := do
  let start := asyncStart.getD (← position)
  bump
  let isAsync := asyncStart.isSome
  let isGenerator ← eat "*"
  let named ←
    match use with
    | .declaration => some <$> bindingName false
    | .default => bindingName? false
    | .value =>
      withFlags (fun f => { f with inAsync := isAsync, inGenerator := isGenerator })
        (bindingName? false)
  withFlags (fun f => { f with colonFollows := false }) do
    let hasBody ← functionRest g isAsync isGenerator (g.run .formalParameters)
    if use == .value && !hasBody then unexpected braceOpen
    return ⟨named.map Prod.fst, hasBody, isAsync, isGenerator, ← spanFrom start⟩

def asyncFunction (g : Grammar) (use : FunctionUse) : Read FunctionHead := do
  let start ← position
  expect "async"
  function g use (some start)

def declarationOf (f : FunctionHead) : Decl :=
  .function (f.name.getD "") false f.hasBody

end ModuleHost.Syntax.Read
