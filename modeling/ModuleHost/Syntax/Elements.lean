import ModuleHost.Syntax.Operands

/-!
Elements: tags with attributes, and the text, holes and elements between them. The scanner keeps
track of the open tags, so the grammar only has to compare the names of the two ends.
-/

namespace ModuleHost.Syntax.Read

def tagName : Read String := do
  match ← required with
  | .tagName text =>
    bump
    return text
  | _ =>
    if (← flags).forcedElement then return (← name false).1
    unexpected "jsx identifier"

def namespacedName : Read String := do
  let first ← tagName
  if ← eat ":" then return first ++ ":" ++ (← tagName)
  return first

def elementName : Read String := do
  let first ← namespacedName
  iterate (fun text => do
    if ← eat "." then return .again (text ++ "." ++ (← tagName))
    return .done text) first

def elementHole (g : Grammar) : Read Bool := do
  bump
  if ← eat braceClose then return false
  discard <| eat "..."
  discard <| expressionList g
  expect braceClose
  return true

def attributeValue (g : Grammar) : Read Unit := do
  let start ← position
  match ← required with
  | .string .. => bump
  | .tagOpen => discard <| g.run .element
  | .mark text =>
    if text == braceOpen then
      unless ← elementHole g do failAt (← spanFrom start) .emptyAttribute
    else fail .attributeValue
  | _ => fail .attributeValue

def tagAttribute (g : Grammar) : Read Unit := do
  if ← eat braceOpen then
    expect "..."
    discard <| g.run .assignment
    expect braceClose
  else
    discard namespacedName
    if ← eat "=" then
      withFlags (fun f => { f with inConditional := false, colonFollows := false })
        (attributeValue g)

def eatTagEnd : Read Bool := do
  if ← isToken (· == .tagEnd) then
    bump
    return true
  return false

/-- The two ends of an element: the name in its opening tag, missing for a fragment, and whether
the tag closes itself. -/
structure OpeningTag where
  name : Option String
  selfClosing : Bool

def openingTag (g : Grammar) : Read OpeningTag := do
  if ← eatTagEnd then return ⟨none, false⟩
  let text ← elementName
  if ← is "<" then discard <| attempt (some <$> typeArguments g)
  whileTrue (do
    let done ← if ← atEnd then pure true else is "/"
    if done then return false
    return !(← isToken (· == .tagEnd))) (tagAttribute g)
  let selfClosing ← eat "/"
  unless ← eatTagEnd do
    let angle ← if (← flags).forcedElement then eat ">" else pure false
    unless angle do unexpected "> (jsx closing tag)"
  return ⟨some text, selfClosing⟩

def closingTag : Read (Option String) := do
  if ← eatTagEnd then return none
  let text ← elementName
  unless ← eatTagEnd do fail (.expected "> (jsx tag end)" (← quoted))
  return some text

def elementContents (g : Grammar) : Read (Nat × Option String) :=
  iterate (fun () => do
    match ← required with
    | .tagOpen =>
      let start ← position
      if ← peekIs "/" then
        bump
        discard required
        bump
        return .done (start, ← closingTag)
      discard <| g.run .element
      return .again ()
    | .elementText _ =>
      bump
      return .again ()
    | .mark text =>
      if text != braceOpen then unexpected "< (jsx tag start), jsx text or \x7b"
      discard <| elementHole g
      return .again ()
    | _ => unexpected "< (jsx tag start), jsx text or \x7b") ()

def element (g : Grammar) : Read Expr := do
  let start ← position
  let forced := (← required) != .tagOpen
  bump
  withFlags (fun f => { f with forcedElement := forced }) do
    let opening ← openingTag g
    unless opening.selfClosing do
      let (closeStart, closing) ← elementContents g
      match opening.name, closing with
      | none, none => pure ()
      | none, some _ => failAt ⟨closeStart, closeStart⟩ .closingFragment
      | some text, none => failAt ⟨closeStart, closeStart⟩ (.closingTag text)
      | some text, some other =>
        if text != other then failAt ⟨closeStart, closeStart⟩ (.closingTag text)
    return .element (← spanFrom start)

end ModuleHost.Syntax.Read
