import ModuleHost.Syntax.Literals

/-!
What an opening parenthesis begins: an expression in parentheses, or the parameters of an arrow
function. Both are read alike, and the text behind the closing parenthesis decides.
-/

namespace ModuleHost.Syntax.Read

/-- Something between the parentheses that may still be an expression or already is a pattern. -/
inductive ParenItem where
  | value (dots : Option Span) (e : Expr)
  | pattern (p : Pattern)

def ParenItem.span : ParenItem → Span
  | .value (some dots) e => ⟨dots.lo, e.span.hi⟩
  | .value none e => e.span
  | .pattern p => p.span

def assignmentAfter (g : Grammar) (e : Expr) : Read Expr := do
  match ← current with
  | some (.mark operator) =>
    if !isAssignment operator then return e
    let target ←
      if operator == "=" then
        g.run (.asPattern .assignment e)
      else do
        unless isPlace e do noteAt e.span .targetNotAssignable
        match e with
        | .name here n => if isRestricted n then noteAt here .restrictedUse
        | _ => pure ()
        pure (.place e.span)
    let assignable := match e with
      | .name .. | .member .. | .superMember _ | .optionalChain .. | .parens .. | .cast ..
      | .instantiation .. | .invalid _ => true
      | .object .. | .array .. => operator == "="
      | _ => false
    unless assignable do failAt e.span .invalidTarget
    bump
    let value ← g.run .assignment
    return .assign (Span.ofEnds e.span.lo value.span.hi) operator target value
  | _ => return e

def conditionalAfter (g : Grammar) (start : Nat) : Read Expr := do
  expect "?"
  discard <| withFlags (fun f => { f with inConditional := true, colonFollows := true })
    (g.run .assignment)
  expect ":"
  let other ← withFlags (fun f => { f with inConditional := true, colonFollows := false })
    (g.run .assignment)
  return .conditional (Span.ofEnds start other.span.hi)

def annotatedItem (g : Grammar) (start : Nat) (dots : Option Span) (e : Expr) : Read ParenItem := do
  let target ← g.run (.asPattern .binding e)
  let target ←
    if dots.isSome then pure (Pattern.rest (← spanFrom start) target) else pure target
  discard <| annotation g
  if ← eat "=" then
    discard <| g.run .assignment
    return .pattern (.withDefault (← spanFrom start) target)
  return .pattern target

def optionalMark (e : Expr) (dots : Option Span) : Read Bool := do
  let marks ← peekToken fun t => [",", "=", ")", ":"].any (Token.spells · t)
  if marks then
    bump
    if dots.isSome then noteAt (← previous) .optionalRest
    match e with
    | .name .. => pure ()
    | _ => failAt e.span .optionalPattern
  return marks

def parenItem (g : Grammar) : Read (List ParenItem) := do
  let start ← position
  modify fun s => { s with arrowStart := some start }
  let modified ← eatParameterModifier
  let patternStart ← position
  let named ← if ← isName then pure true
    else if ← is "..." then peekIsName else pure false
  let (dots, e) ←
    if named then do
      if ← eat "..." then
        let dots ← previous
        pure (some dots, ← withIn (g.run .binary))
      else pure (none, ← assignmentAfter g (← g.run .binary))
    else withIn (spreadable g)
  let question ← is "?"
  let isOptional ← if question then optionalMark e dots else pure false
  let e ← if question && !isOptional && dots.isNone then conditionalAfter g e.span.lo else pure e
  let item ← do
    if isOptional || (← is ":") then annotatedItem g patternStart dots e
    else pure (.value dots e)
  if modified then noteAt (← spanFrom start) .misplacedParameterProperty
  if ← eat "=>" then
    let named := match item with
      | .value _ (.name ..) | .pattern (.name ..) => true
      | _ => false
    if named then
      discard <| arrowBody g false true
      return [item, .value none (.arrow (← spanFrom start) false)]
  return [item]

def parenItems (g : Grammar) : Read (List ParenItem × Option Span) := do
  expect "("
  let result ← iterate (fun (items, comma) => do
    let done ← if ← atEnd then pure true else is ")"
    if done then return .done (items, comma)
    let items := items ++ (← parenItem g)
    if ← is ")" then return .again (items, comma)
    expect ","
    let mark ← previous
    let last ← is ")"
    return .again (items, if last then some mark else comma)) (([] : List ParenItem), none)
  expect ")"
  return result

def checkRestricted (p : Pattern) : Read Unit :=
  for (name, here) in p.bound do
    if isRestricted name then noteAt here .restrictedBinding

def parametersOf (g : Grammar) (comma : Option Span) : List ParenItem → Read (List Pattern)
  | [] => return []
  | [item] => do
    let last ← match item with
      | .value (some dots) e =>
        match e with
        | .assign .. => noteAt dots .restWithDefault
        | _ => pure ()
        if let some comma := comma then noteAt comma .commaAfterRest
        let target ← g.run (.asPattern .binding e)
        pure (.rest ⟨dots.lo, e.span.hi⟩ target)
      | .value none e => g.run (.asPattern .binding e)
      | .pattern p =>
        if p.isRest then
          if let some comma := comma then noteAt comma .commaAfterRest
        pure p
    return [last]
  | item :: more => do
    match item with
    | .value none e =>
      let p ← g.run (.asPattern .binding e)
      return p :: (← parametersOf g comma more)
    | .value (some _) _ | .pattern (.rest ..) =>
      noteAt item.span .restParameterNotLast
      parametersOf g comma more
    | .pattern p => return p :: (← parametersOf g comma more)

def arrowParameters (g : Grammar) (items : List ParenItem) (comma : Option Span) :
    Read (List Pattern) := do
  let parameters ← parametersOf g comma items
  parameters.forM checkRestricted
  return parameters

/-- Where an arrow function in a conditional expression could also be its middle part. -/
def arrowInConditional (g : Grammar) (start : Nat) (isAsync : Bool) (items : List ParenItem)
    (comma : Option Span) (colonFollows : Bool) : Read (Option Expr) := do
  returnType g ":"
  expect "=>"
  let parameters ← arrowParameters g items comma
  let isBlock ← arrowBody g isAsync (isSimple parameters)
  if colonFollows then
    unless ← is ":" do unexpected "fail"
  return some (.arrow (← spanFrom start) isBlock)

def arrowReturnType (g : Grammar) : Read (Option Unit) := do
  returnType g ":"
  unless ← is "=>" do unexpected "fail"
  return some ()

def arrowAfter (g : Grammar) (start : Nat) (isAsync arrowAllowed : Bool) (items : List ParenItem)
    (comma : Option Span) : Read Expr := do
  if ← afterLineBreak then failAt (← spanFrom start) .lineBreakBeforeArrow
  unless arrowAllowed do failAt (← spanFrom start) .arrowNotAllowed
  expect "=>"
  let parameters ← arrowParameters g items comma
  let isBlock ← arrowBody g isAsync (isSimple parameters)
  let arrow := Expr.arrow (← spanFrom start) isBlock
  if isBlock then
    if ← isToken fun t => t.binaryPrecedence?.isSome then
      noteAt (← span) .semicolonExpected
      let e ← g.run (.operatorsAfter arrow 0)
      unless ← isSemicolon do noteAt (← span) .semicolonExpected
      return e
  return arrow

def checkShortValues : Expr → Read Unit
  | .object _ properties => do
    for p in properties do
      match p with
      | .shortWithValue here _ => noteAt here .shorthandValue
      | _ => pure ()
  | _ => pure ()

def valuesOf : List ParenItem → Read (List (Option Span × Expr))
  | [] => return []
  | .value dots e :: more => return (dots, e) :: (← valuesOf more)
  | .pattern p :: _ => failAt p.span .expressionExpected

def parenthesized (start : Nat) (values : List (Option Span × Expr)) : Read Expr := do
  for (dots, e) in values do
    if dots.isSome then failAt e.span .spreadInParentheses
  match values with
  | [] => failAt ⟨start, start⟩ .emptyParentheses
  | [(_, e)] => return .parens (← spanFrom start) e
  | (_, first) :: more =>
    let last := (more.getLast?.map Prod.snd).getD first
    return .parens (← spanFrom start) (.sequence ⟨first.span.lo, last.span.hi⟩)

def parens (g : Grammar) (arrowAllowed : Bool) (asyncStart : Option Nat) : Read Expr := do
  let start := asyncStart.getD (← position)
  let isAsync := asyncStart.isSome
  let (items, comma) ←
    withIn (withFlags (fun f => { f with colonFollows := false }) (parenItems g))
  let hasPattern := items.any fun
    | .pattern _ => true
    | .value .. => false
  let f ← flags
  let colon ← is ":"
  -- the colon may belong to the conditional expression or to an arrow function in it
  if f.inConditional && colon then
    if let some e ← attempt (arrowInConditional g start isAsync items comma f.colonFollows) then
      return e
  let typed ←
    if !f.colonFollows && colon then pure (← attempt (arrowReturnType g)).isSome else pure false
  if hasPattern || typed || (← is "=>") then arrowAfter g start isAsync arrowAllowed items comma
  else
    for item in items do
      match item with
      | .value _ e => checkShortValues e
      | .pattern _ => pure ()
    let values ← valuesOf items
    if isAsync then return .call (← spanFrom start)
    parenthesized start values

end ModuleHost.Syntax.Read
