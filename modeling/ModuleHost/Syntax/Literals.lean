import ModuleHost.Syntax.Classes

/-!
Array and object literals, and the lists of arguments of a call. Each of them is also read where a
pattern may turn up later, so their parts stay in the tree.
-/

namespace ModuleHost.Syntax.Read

def spreadable (g : Grammar) : Read (Option Span × Expr) := do
  if ← eat "..." then
    let dots ← previous
    return (some dots, ← g.run .assignment)
  return (none, ← g.run .assignment)

def noteTrailingComma (start : Nat) : Read Unit := do
  let comma ← previous
  modify fun s => { s with trailingCommas := (start, comma) :: s.trailingCommas }

def arrayLiteral (g : Grammar) : Read Expr := do
  let start ← position
  bump
  let elements ← collectWhile (do
    let done ← if ← atEnd then pure true else is "]"
    return !done) do
    if ← eat "," then return none
    let element ← withIn (spreadable g)
    unless ← is "]" do
      expect ","
      if ← is "]" then noteTrailingComma start
    return some element
  expect "]"
  return .array (← spanFrom start) elements

def followsKey (key : PropertyName) (t : Token) : Bool :=
  match t with
  | .word _ | .string .. | .number .. => true
  | .mark m =>
    ["(", "[", ":", ",", "?", "=", "*", "<"].contains m ||
      (m == braceClose && match key with
        | .name .. => true
        | _ => false)
  | _ => false

def objectMethod (g : Grammar) (start : Nat) (isAsync isGenerator : Bool)
    (parameters : Read (List Pattern)) : Read (Property Expr) := do
  discard <| functionRest g isAsync isGenerator parameters
  return .method (← spanFrom start)

/-- An entry `name`, `name = value`, or an accessor or async method that its first word introduces. -/
def shortProperty (g : Grammar) (start : Nat) (text : String) (here : Span)
    (modified : Option Span) : Read (Property Expr) := do
  if ← eat "?" then noteAt (← previous) .optionalMember
  if ← isAny ["=", ",", braceClose] then
    if isReserved text then noteAt here .reservedShorthand
    if ← eat "=" then
      discard <| withIn (g.run .assignment)
      modify fun s => { s with shortValues := start :: s.shortValues }
      return .shortWithValue (← spanFrom start) text
    return .short here text
  if !(["get", "set", "async"].contains text) then
    unexpected "... , *,  (, [, :, , ?, =, an identifier, public, protected, private, readonly, <."
  if let some m := modified then noteAt m .accessorModifier
  let isGenerator ← if text == "async" then eat "*" else pure false
  let key ← propertyName g
  let kind := if text == "get" then MethodKind.getter else if text == "set" then .setter else .plain
  objectMethod g start (text == "async") isGenerator (accessorParameters g kind key.span)

def objectProperty (g : Grammar) : Read (Property Expr) := do
  let start ← position
  if ← eat "..." then
    let value ← withIn (g.run .assignment)
    return .spread (← spanFrom start) value
  if ← eat "*" then
    discard <| propertyName g
    return ← objectMethod g start false true (g.run .formalParameters)
  let modified ← eatParameterModifier
  let modifierSpan ← previous
  let key ← propertyName g
  if !(← isToken (followsKey key)) then
    noteAt (← span) .semicolonExpected
    let here ← spanFrom start
    return .keyed here (.invalid here)
  if ← eat ":" then
    let value ← withIn (g.run .assignment)
    return .keyed (← spanFrom start) value
  if ← isAny ["<", "("] then
    return ← objectMethod g start false false (g.run .formalParameters)
  match key with
  | .name text here =>
    shortProperty g start text here (if modified then some modifierSpan else none)
  | _ => unexpected "identifier"

def objectLiteral (g : Grammar) : Read Expr :=
  withFlags (fun f => { f with colonFollows := false }) do
    let start ← position
    bump
    let properties ← collectWhile (return !(← eat braceClose)) do
      let property ← objectProperty g
      unless ← is braceClose do
        expect ","
        if ← is braceClose then noteTrailingComma start
      return property
    return .object (← spanFrom start) properties

def argumentList (g : Grammar) : Read Unit :=
  withFlags (fun f => { f with colonFollows := false }) do
    expect "("
    iterate (fun first => do
      let done ← if ← atEnd then pure true else is ")"
      if done then return .done ()
      unless first do expect ","
      let last ← if first then pure false else is ")"
      if last then return .done ()
      discard <| withIn (spreadable g)
      return .again false) true
    expect ")"

end ModuleHost.Syntax.Read
