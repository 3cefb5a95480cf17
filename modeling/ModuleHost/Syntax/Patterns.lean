import ModuleHost.Syntax.Types

/-!
Patterns: what a declaration, a parameter or an assignment binds. An assignment is read as an
expression first, and `patternOf` understands that expression anew when `=` or `=>` follows.
-/

namespace ModuleHost.Syntax.Read

def commaAfterRest (isRest : Bool) (close : String) : Read Unit := do
  if isRest then
    if ← is close then noteAt (← previous) .commaAfterRest

def bindingElement (g : Grammar) : Read Pattern := do
  let start ← position
  let target ← g.run (.bindingPattern false)
  if ← eat "=" then
    discard <| withIn (g.run .assignment)
    let here ← spanFrom start
    if (← flags).inDeclare then noteAt here .defaultWithoutBody
    return .withDefault here target
  return target

def optionalInDeclaration : Read Unit := do
  if (← flags).inDeclare then discard <| eat "?"

def arrayElement (g : Grammar) (earlierRest : Option Span) :
    Read (Option Pattern × Option Span) := do
  if let some here := earlierRest then noteAt here .misplacedRest
  let start ← position
  let isRest ← eat "..."
  let element ←
    if isRest then
      let target ← g.run (.bindingPattern false)
      pure (.rest (← spanFrom start) target)
    else bindingElement g
  let here ← spanFrom start
  unless ← is "]" do
    expect ","
    commaAfterRest isRest "]"
  return (some element, if isRest then some here else earlierRest)

def arrayPattern (g : Grammar) : Read Pattern := do
  let start ← position
  bump
  let elements ← iterate (fun (elements, earlierRest) => do
    let done ← if ← atEnd then pure true else is "]"
    if done then return .done elements.reverse
    if ← eat "," then return .again (none :: elements, earlierRest)
    let (element, laterRest) ← arrayElement g earlierRest
    return .again (element :: elements, laterRest)) (([] : List (Option Pattern)), none)
  expect "]"
  optionalInDeclaration
  return .array (← spanFrom start) elements

def patternField (g : Grammar) : Read (Span × PatternField Pattern) := do
  let start ← position
  if ← eat "..." then
    let target ← g.run (.bindingPattern false)
    return (← spanFrom start, .rest target)
  let key ← propertyName g
  if ← eat ":" then
    let value ← bindingElement g
    return (← spanFrom start, .keyed value)
  match key with
  | .name text here =>
    if ← eat "=" then discard <| withIn (g.run .assignment)
    else if isReserved text then noteAt here .reservedShorthand
    return (← spanFrom start, .short here text)
  | _ => unexpected "an identifier"

def checkFields (comma : Option Span) : List (Span × PatternField Pattern) → Read Unit
  | [] => pure ()
  | [(here, .rest target)] => do
    if target.isName then
      if let some comma := comma then noteAt comma .commaAfterRest
    else failAt here .restWithoutName
  | [_] => pure ()
  | (here, .rest _) :: more => do
    noteAt here .misplacedRest
    checkFields comma more
  | _ :: more => checkFields comma more

def objectPattern (g : Grammar) : Read Pattern :=
  withFlags (fun f => { f with colonFollows := false }) do
    let start ← position
    bump
    let (fields, comma) ← iterate (fun (fields, comma) => do
      if ← eat braceClose then return .done (fields.reverse, comma)
      let field ← patternField g
      if ← is braceClose then return .again (field :: fields, comma)
      expect ","
      let mark ← previous
      let last ← is braceClose
      return .again (field :: fields, if last then some mark else comma))
      (([] : List (Span × PatternField Pattern)), none)
    let here ← spanFrom start
    checkFields comma fields
    optionalInDeclaration
    return .object here (fields.map Prod.snd)

def bindingPattern (g : Grammar) (noLet : Bool) : Read Pattern := do
  match ← required with
  | .word _ =>
    let (text, here) ← bindingName noLet
    return .name here text
  | .mark text =>
    if text == "[" then arrayPattern g
    else if text == braceOpen then objectPattern g
    else unexpected "yield, an identifier, [ or \x7b"
  | _ => unexpected "yield, an identifier, [ or \x7b"

def restParameter (g : Grammar) (start : Nat) : Read Pattern := do
  let target ← g.run (.bindingPattern false)
  if ← eat "=" then
    discard <| g.run .assignment
    noteAt target.span .restWithDefault
  discard <| annotation g
  let here ← spanFrom start
  if ← eat "?" then noteAt (← previous) .optionalRest
  return .rest here target

def parameterPattern (g : Grammar) : Read Pattern := do
  let start ← position
  let modified ← eatParameterModifier
  let patternStart ← position
  let target ← g.run (.bindingPattern false)
  let isOptional ← eat "?"
  discard <| annotation g
  let result ←
    if ← eat "=" then
      if isOptional then noteAt target.span .optionalWithDefault
      discard <| g.run .assignment
      let here ← spanFrom patternStart
      if (← flags).inDeclare then noteAt here .defaultWithoutBody
      pure (.withDefault here target)
    else pure target
  if modified then noteAt (← spanFrom start) .misplacedParameterProperty
  return result

def parameterList (g : Grammar) (ordinary : Read Pattern) : Read (List Pattern) :=
  iterate (fun (parameters, earlierRest) => do
    let done ← if ← atEnd then pure true else is ")"
    if done then return .done parameters.reverse
    if let some here := earlierRest then noteAt here .restParameterNotLast
    discard <| g.run (.decorators false)
    let start ← position
    let isRest ← eat "..."
    let parameter ← if isRest then restParameter g start else ordinary
    unless ← is ")" do
      expect ","
      commaAfterRest isRest ")"
    return .again (parameter :: parameters, if isRest then some parameter.span else earlierRest))
    (([] : List Pattern), none)

def formalParameters (g : Grammar) : Read (List Pattern) :=
  parameterList g (parameterPattern g)

def isSimple (parameters : List Pattern) : Bool :=
  parameters.all Pattern.isName

/-- What may stand to the left of an assignment without being taken apart. -/
def isPlace : Expr → Bool
  | .name _ n => !isRestricted n
  | .member .. | .superMember _ => true
  | .parens _ inner | .cast _ inner | .instantiation _ inner => isPlace inner
  | _ => false

def deniesAssignment (denyCall : Bool) : Expr → Bool
  | .literal _ | .text .. | .binary .. => false
  | .call _ => denyCall
  | .parens _ inner => deniesAssignment denyCall inner
  | _ => true

def checkTarget (e : Expr) (denyCall : Bool) : Read Unit := do
  let restricted := match e with
    | .name _ n => isRestricted n
    | _ => false
  if restricted then noteAt e.span .restrictedUse
  else if !isPlace e && deniesAssignment denyCall e then noteAt e.span .targetNotAssignable

def forgetShortValue (here : Span) : Read Unit :=
  modify fun s => { s with shortValues := s.shortValues.filter (· != here.lo) }

def restOfObject (g : Grammar) (use : PatternUse) (here : Span) (value : Expr) : Read Pattern := do
  match use.part, value with
  | .bindingPart, .name nameSpan n => return .name nameSpan n
  | .bindingPart, _ =>
    noteAt here .restWithoutName
    return .invalid here
  | part, _ =>
    let target ← g.run (.asPattern part value)
    match target with
    | .withDefault .. => noteAt here .restWithDefault
    | _ => pure ()
    return target

def fieldsOf (g : Grammar) (use : PatternUse) (comma : Option Span) :
    List (Property Expr) → Read (List (PatternField Pattern))
  | [] => return []
  | property :: more => do
    let field ← match property with
      | .short here n => pure (.short here n)
      | .keyed _ value => .keyed <$> g.run (.asPattern use.part value)
      | .shortWithValue here n =>
        forgetShortValue here
        pure (.short here n)
      | .method here => failAt here .notAPattern
      | .spread here value =>
        if !more.isEmpty then noteAt here .misplacedRest
        else if let some comma := comma then noteAt comma .commaAfterRest
        .rest <$> restOfObject g use here value
    return field :: (← fieldsOf g use comma more)

def elementsOf (g : Grammar) (use : PatternUse) (comma : Option Span) (restAllowed : Bool) :
    List (Option (Option Span × Expr)) → Read (List (Option Pattern))
  | [] => return []
  | none :: more => return none :: (← elementsOf g use comma restAllowed more)
  | some (none, e) :: more => do
    let element ← g.run (.asPattern use.part e)
    return some element :: (← elementsOf g use comma restAllowed more)
  | some (some dots, e) :: more => do
    if more.isEmpty && restAllowed then
      match e with
      | .assign .. => noteAt dots .restWithDefault
      | _ => pure ()
      if let some comma := comma then noteAt comma .commaAfterRest
      let target ← g.run (.asPattern use.part e)
      return [some (.rest ⟨dots.lo, e.span.hi⟩ target)]
    else
      noteAt e.span .misplacedRest
      elementsOf g use comma restAllowed more

def isTargetKind : Expr → Bool
  | .member .. | .superMember _ | .call _ | .construct .. | .literal _ | .text .. | .name ..
  | .function _ | .classValue _ | .parens .. | .template .. | .cast .. => true
  | _ => false

def takenApart (g : Grammar) (use : PatternUse) (e : Expr) : Read Pattern := do
  let comma := ((← get).trailingCommas.find? (·.1 == e.span.lo)).map Prod.snd
  match e with
  | .name here n => return .name here n
  | .assign here "=" target _ => return .withDefault here target
  | .object here properties => return .object here (← fieldsOf g use comma properties)
  | .array here elements =>
    let holes := (elements.reverse.takeWhile Option.isNone).length
    let firm := elements.take (elements.length - holes)
    return .array here (← elementsOf g use comma (holes == 0) firm)
  | _ =>
    noteAt e.span .notAPattern
    return .invalid e.span

/-- An expression understood as a pattern. -/
def patternOf (g : Grammar) (use : PatternUse) (e : Expr) : Read Pattern := do
  match use, e with
  | _, .invalid here => return .invalid here
  | .assignment, .object .. | .assignment, .array .. => takenApart g use e
  | .assignment, .name here n =>
    checkTarget e true
    return .name here n
  | .assignment, _ =>
    checkTarget e true
    return .place e.span
  | .assignmentPart, .array .. | .assignmentPart, .object .. | .assignmentPart, .assign .. =>
    takenApart g use e
  | .assignmentPart, _ =>
    if isTargetKind e then
      unless isPlace e do noteAt e.span .notAssignable
      match e with
      | .name here n => return .name here n
      | _ => return .place e.span
    else
      noteAt e.span .notAPattern
      takenApart g use e
  | _, _ => takenApart g use e

end ModuleHost.Syntax.Read
