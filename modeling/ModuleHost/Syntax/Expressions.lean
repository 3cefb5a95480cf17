import ModuleHost.Syntax.Elements

/-!
Expressions above operands: unary and binary operators, conditions, assignments and arrow functions
with type parameters.
-/

namespace ModuleHost.Syntax.Read

def unaryOperators : List String := ["delete", "void", "typeof", "+", "-", "~", "!"]

def checkDeleted (e : Expr) : Read Unit := do
  match e with
  | .name here _ => noteAt here .deleteName
  | _ => pure ()
  match e.withoutParens with
  | .member .. | .optionalChain _ true => pure ()
  | other => noteAt other.span .deleteOperand

def unaryOperation (g : Grammar) (start : Nat) : Read Expr := do
  let isDelete ← is "delete"
  bump
  let operandStart ← position
  let operand ←
    try g.run .unary catch fault => do
      note fault
      pure (.invalid ⟨operandStart - 1, operandStart - 1⟩)
  if isDelete then checkDeleted operand
  return .unary (Span.ofEnds start operand.span.hi)

def awaited (g : Grammar) : Read Expr := do
  let start ← position
  bump
  let here ← spanFrom start
  if ← is "*" then fail .awaitStar
  let f ← flags
  let bare ← isAny [")", "]", ";", ","]
  if bare && !f.inAsync then
    noteAt here .awaitAsName
    return .name here "await"
  if f.inFunction && !f.inAsync then noteAt here .awaitOutsideAsync
  if f.inParameters && !f.inFunction then noteAt here .awaitInParameters
  let value ← g.run .unary
  return .awaitValue (← spanFrom start) value

def unary (g : Grammar) : Read Expr := do
  let start ← position
  if ← isAny ["++", "--"] then
    bump
    let operand ← g.run .unary
    checkTarget operand false
    return .update (Span.ofEnds start operand.span.hi)
  if ← isAny unaryOperators then return ← unaryOperation g start
  if ← is "await" then return ← awaited g
  let e ← g.run .leftHand
  if e.isArrow then return e
  if ← afterLineBreak then return e
  if ← isAny ["++", "--"] then
    checkTarget e false
    bump
    return .update (← spanFrom e.span.lo)
  return e

def precedenceOfComparison : Nat := 7

def isCoalesced (e : Expr) : Option Span :=
  match e with
  | .binary here "&&" | .binary here "||" => some here
  | _ => none

def checkOperands (operator : String) (left right : Expr) : Read Unit := do
  if operator == "??" then
    if let some here := isCoalesced left then noteAt here .mixedCoalescing
    if let some here := isCoalesced right then noteAt here .mixedCoalescing

def nextOperator : Read (Option (String × Nat)) := do
  match ← current with
  | some (.word "in") =>
    return if (← flags).includeIn then some ("in", precedenceOfComparison) else none
  | some (.word "instanceof") => return some ("instanceof", precedenceOfComparison)
  | some (.mark text) => return (binaryPrecedence? text).map (text, ·)
  | _ => return none

def castAfter (g : Grammar) (left : Expr) : Read Expr := do
  inType do
    bump
    if !(← eat "const") then g.run .type
  return .cast (← spanFrom left.span.lo) left

def atCast (precedence : Nat) : Read Bool := do
  if precedence ≥ precedenceOfComparison then return false
  if ← afterLineBreak then return false
  isAny ["as", "satisfies"]

def operatorsAfter (g : Grammar) (left : Expr) (precedence : Nat) : Read Expr :=
  iterate (fun left => do
    if ← atCast precedence then return .again (← castAfter g left)
    match ← nextOperator with
    | none => return .done left
    | some (operator, binding) =>
      if binding ≤ precedence then return .done left
      match operator, left with
      | "**", .unary _ | "**", .awaitValue .. => fail .powerOfUnary
      | _, _ => pure ()
      bump
      let operand ← g.run .unary
      -- powers associate to the right, all else to the left
      let right ← g.run (.operatorsAfter operand (if operator == "**" then binding - 1 else binding))
      checkOperands operator left right
      return .again (.binary (Span.ofEnds left.span.lo right.span.hi) operator)) left

/-- Operands joined by operators. Where the first operand is missing, the operator is taken all the
same and the fault only noted. -/
def binary (g : Grammar) : Read Expr := do
  let includeIn := (← flags).includeIn
  let left ←
    try g.run .unary catch fault => do
      let t ← required
      let joins := t.binaryPrecedence?.isSome || Token.spells "instanceof" t ||
        (Token.spells "in" t && includeIn)
      -- a missing operand in front of an operator is noted, any other fault stands
      unless joins do throw fault
      noteAt (← span) .expressionExpected
      pure (.invalid ⟨fault.offset, fault.offset⟩)
  if left.isArrow then return left
  operatorsAfter g left 0

def conditional (g : Grammar) : Read Expr := do
  let start ← position
  let test ← binary g
  if test.isArrow then return test
  if ← eat "?" then
    discard <| withFlags
      (fun f => { f with inConditional := true, colonFollows := true, includeIn := true })
      (g.run .assignment)
    expect ":"
    let other ← withFlags (fun f => { f with inConditional := true, colonFollows := false })
      (g.run .assignment)
    return .conditional (Span.ofEnds start other.span.hi)
  return test

def yielded (g : Grammar) : Read Expr := do
  let start ← position
  bump
  let f ← flags
  if f.inParameters && !f.inFunction then failAt (← previous) .yieldInParameters
  let star ← is "*"
  let ends ← isSemicolon
  let operand ← isToken Token.startsOperand
  if ends || (!star && !operand) then return .yieldValue (← spanFrom start)
  discard <| eat "*"
  discard <| g.run .assignment
  return .yieldValue (← spanFrom start)

def dropTagContexts (n : Nat) : Read Unit :=
  modify fun s =>
    { s with scanner := { s.scanner with contexts := s.scanner.contexts.drop n } }

def leaveTag : Read Unit := do
  if ← isTagOpen then
    if (← get).scanner.contexts.head? == some .openTag then dropTagContexts 2

def typedArrow (g : Grammar) (assignmentBase : Read Expr) : Read (Option Expr) := do
  let start ← position
  leaveTag
  typeParameters g false true
  match ← assignmentBase with
  | .arrow here isBlock => return some (.arrow ⟨start, here.hi⟩ isBlock)
  | _ => unexpected "("

def beginsTypedArrow : Read Bool := do
  let angle ← if ← is "<" then pure true else isTagOpen
  if !angle then return false
  peekToken fun
    | .word _ | .tagName _ => true
    | _ => false

def plainAssignment (g : Grammar) : Read Expr := do
  let f ← flags
  if f.inGenerator then
    if ← is "yield" then return ← yielded g
  let t ← required
  let start ← position
  let opensArrow := match t with
    | .word text => !isKeyword text || text == "yield"
    | .mark text => text == "("
    | _ => false
  modify fun s => { s with arrowStart := if opensArrow then some start else none }
  let e ← conditional g
  match e with
  | .arrow .. | .conditional _ | .binary .. | .unary _ | .update _ => return e
  | _ => assignmentAfter g e

def assignmentBase (g : Grammar) : Read Expr := do
  if ← beginsTypedArrow then
    let found ← withFlags (fun f => { f with colonFollows := false })
      (attempt (typedArrow g (g.run .assignmentBase)))
    if let some e := found then return e
  plainAssignment g

/-- An expression without a comma. An angle may open an element or type parameters; the element is
tried first. -/
def assignment (g : Grammar) : Read Expr := do
  if ← isTagOpen then
    if let some e ← attempt (some <$> assignmentBase g) then return e
    dropTagContexts 2
  assignmentBase g

end ModuleHost.Syntax.Read
