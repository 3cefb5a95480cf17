import ModuleHost.Syntax.Rule

/-!
Identifiers, property names and the modifiers that may stand before a name. A word is judged by
where it stands: as a property name every word will do, as a binding only a few.
-/

namespace ModuleHost.Syntax.Read

def wordName : Read (String × Span) := do
  let here ← span
  match ← required with
  | .word text =>
    bump
    return (text, here)
  | .tagName text =>
    unless (← flags).inType do fail .identifierExpected
    bump
    return (text, here)
  | _ => fail .identifierExpected

def judgedReserved : List String :=
  ["enum", "yield", "let", "static", "implements", "interface", "package", "private", "protected",
    "public"]

/-- A word that stands for a value or a binding. -/
def name (yieldAllowed : Bool) : Read (String × Span) := do
  match ← required with
  | .word text =>
    let here ← span
    bump
    if judgedReserved.contains text then noteAt here (.reservedName text)
    if text == "await" then
      let f ← flags
      if f.inDeclare then return (text, here)
      if f.inStaticBlock then failAt here .identifierExpected
      failAt here .awaitAsName
    if text == "yield" then
      unless yieldAllowed do failAt here .identifierExpected
      return (text, here)
    if text == "this" || text == "let" then return (text, here)
    if isKeyword text || text == "null" || text == "true" || text == "false" then
      failAt here .identifierExpected
    return (text, here)
  | _ => fail .identifierExpected

def bindingName (noLet : Bool) : Read (String × Span) := do
  if noLet then
    if ← is "let" then unexpected "let is reserved in const, let, class declaration"
  let (text, here) ← name true
  if isRestricted text then noteAt here .restrictedBinding
  let f ← flags
  if (f.inAsync || f.inStaticBlock) && text == "await" then noteAt here .identifierExpected
  if f.inGenerator && text == "yield" then noteAt here .identifierExpected
  return (text, here)

def bindingName? (noLet : Bool) : Read (Option (String × Span)) := do
  let this ← is "this"
  if (← isName) || this then return some (← bindingName noLet)
  return none

def privateName : Read (String × Span) := do
  let start ← position
  bump
  let hashEnd := (← previous).hi
  if (← position) != hashEnd then failAt (← spanFrom start) .spaceAfterHash
  let (text, _) ← wordName
  return (text, ← spanFrom start)

def memberName : Read (String × Span × Bool) := do
  if ← is "#" then
    let (text, here) ← privateName
    return (text, here, true)
  let (text, here) ← wordName
  return (text, here, false)

inductive PropertyName where
  | name (text : String) (span : Span)
  | string (value : String) (span : Span)
  | number (span : Span)
  | computed (span : Span)
  | hidden (text : String) (span : Span)

def PropertyName.span : PropertyName → Span
  | .name _ s | .string _ s | .number s | .computed s | .hidden _ s => s

def PropertyName.spells (text : String) : PropertyName → Bool
  | .name t _ => t == text
  | _ => false

def PropertyName.isConstructor : PropertyName → Bool
  | .name t _ | .string t _ => t == "constructor"
  | _ => false

def computedKey (g : Grammar) : Read PropertyName := do
  let start ← position
  bump
  let inner ← position
  discard <| withIn (g.run .assignment)
  if ← is "," then
    whileTrue (eat ",") (discard <| withIn (g.run .assignment))
    noteAt (← spanFrom inner) .commaInComputedKey
  expect "]"
  return .computed (← spanFrom start)

def propertyName (g : Grammar) : Read PropertyName :=
  withFlags (fun f => { f with inPropertyName := true }) do
    let here ← span
    match ← required with
    | .string v _ =>
      bump
      return .string v here
    | .number .. | .bigInt .. =>
      bump
      return .number here
    | .word text =>
      bump
      return .name text here
    | .mark "[" => computedKey g
    | _ => unexpected "identifier, string literal, numeric literal or [ for the computed key"

inductive ListedName where
  | name (text : String) (span : Span)
  | string (value : String) (span : Span)

def ListedName.text : ListedName → String
  | .name t _ | .string t _ => t

def listedName : Read ListedName := do
  let here ← span
  match ← required with
  | .string v _ =>
    bump
    return .string v here
  | .word _ =>
    let (text, here) ← wordName
    return .name text here
  | _ => unexpected "identifier or string"

def modifierTaken : Read (Option Unit) := do
  bump
  if ← afterLineBreak then return none
  let follows ← isToken fun
    | .word _ | .string .. | .number .. => true
    | .mark m => ["[", braceOpen, "*", "...", "#"].contains m
    | _ => false
  return if follows then some () else none

/-- One of the given modifiers, provided that something it can modify follows. -/
def modifier (allowed : List String) (stopAtBlock : Bool) : Read (Option String) := do
  match ← required with
  | .word text =>
    let eligible := !(isKeyword text || text == "null" || text == "true" || text == "false") ||
      text == "in" || text == "const"
    unless eligible && allowed.contains text do return none
    if stopAtBlock && text == "static" then
      if ← peekIs braceOpen then return none
    return (← attempt modifierTaken).map fun _ => text
  | _ => return none

def parameterModifiers : List String := ["public", "protected", "private", "readonly"]

def eatParameterModifier : Read Bool := do
  if ← atEnd then throw ⟨(← get).size, .endOfText⟩
  if !(← isAny parameterModifiers) then return false
  let follows ← peekToken fun
    | .word _ => true
    | .mark m => m == braceOpen || m == "["
    | _ => false
  if follows then discard <| modifier parameterModifiers false
  return follows

def accessModifier : Read (Option String) := do
  match ← modifier ["public", "protected", "private", "in", "out"] false with
  | none => return none
  | some word =>
    if word == "in" || word == "out" then
      noteAt (← previous) (.varianceModifier word)
      return none
    return some word

def sourceString : Read String := do
  match ← required with
  | .string v _ =>
    bump
    return v
  | _ => unexpected "a string literal"

end ModuleHost.Syntax.Read
