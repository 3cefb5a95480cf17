import ModuleHost.Syntax.Parentheses

/-!
Operands: names, literals, functions and classes, with the calls, members and templates that follow
them. Type arguments are tried and given up again where they turn out to be comparisons.
-/

namespace ModuleHost.Syntax.Read

def expressionList (g : Grammar) : Read Expr := do
  let first ← g.run .assignment
  if !(← is ",") then return first
  let more ← collectWhile (eat ",") (g.run .assignment)
  let last := more.getLast?.getD first
  return .sequence (Span.ofEnds first.span.lo last.span.hi)

def templateValue (g : Grammar) (tagged : Bool) : Read Bool :=
  template tagged (discard <| withIn (expressionList g))

def regexFlagFault (marks : List Char) : Option Cause :=
  if marks.any (fun c => !(['g', 'i', 'm', 's', 'u', 'y', 'd', 'v'].contains c)) then
    some .unknownRegexFlags
  else (marks.find? fun c => marks.count c > 1).map .repeatedRegexFlag

/-- A regular expression, cut again from the slash that has been read as an operator. -/
def regexValue (start : Nat) : Read (Option Expr) := do
  bump
  modify fun s => { s with scanner := { s.scanner with regexAtStart := true } }
  match ← current with
  | some (.regex _ marks) =>
    modify fun s => { s with scanner := { s.scanner with regexAtStart := false } }
    bump
    let here ← spanFrom start
    if let some cause := regexFlagFault marks.toList then noteAt here cause
    return some (.literal here)
  | _ => return none

def functionValue (g : Grammar) : Read Expr := do
  let f ← function g .value none
  return .function f.span

def asyncFunctionValue (g : Grammar) : Read Expr := do
  let f ← asyncFunction g .value
  return .function f.span

def classValue (g : Grammar) : Read Expr := do
  let start ← position
  discard <| g.run (.decorators false)
  discard <| classRest g false
  return .classValue (← spanFrom start)

def asyncArrowHead (g : Grammar) : Read (Option (List Pattern)) := do
  typeParameters g false false
  expect "("
  let parameters ← g.run .formalParameters
  expect ")"
  if ← is ":" then returnType g ":"
  expect "=>"
  return some parameters

def asyncArrow? (g : Grammar) (start : Nat) : Read (Option Expr) := do
  let begins ← if ← is "<" then pure true else isTagOpen
  if !begins then return none
  match ← attempt (asyncArrowHead g) with
  | none => return none
  | some parameters =>
    let isBlock ← withFlags (fun f => { f with inAsync := true, inGenerator := false })
      (arrowBody g true (isSimple parameters))
    return some (.arrow (← spanFrom start) isBlock)

def asyncValue? (g : Grammar) (start : Nat) (arrowAllowed : Bool) : Read (Option Expr) := do
  if ← beginsAsyncFunction then return some (← asyncFunctionValue g)
  if arrowAllowed then
    if ← peekIs "<" then
      let found ← attempt do
        bump
        asyncArrow? g start
      if found.isSome then return found
    if ← peekIs "(" then
      if !(← lineBreakAhead) then
        expect "async"
        return some (← parens g arrowAllowed (some start))
  return none

def nameValue (g : Grammar) (start : Nat) (arrowAllowed : Bool) : Read Expr := do
  let (text, here) ← name (!(← flags).inGenerator)
  let broken ← afterLineBreak
  if arrowAllowed && !broken then
    if text == "async" then
      if ← isName then
        discard <| bindingName false
        expect "=>"
        let isBlock ← arrowBody g true true
        return .arrow (← spanFrom start) isBlock
    if ← eat "=>" then
      if isRestricted text then noteAt here .restrictedBinding
      let isBlock ← arrowBody g false true
      return .arrow (← spanFrom start) isBlock
  return .name here text

def wordValue? (g : Grammar) (start : Nat) (arrowAllowed : Bool) (text : String) :
    Read (Option Expr) := do
  match text with
  | "this" =>
    bump
    return some (.this (← previous))
  | "async" => asyncValue? g start arrowAllowed
  | "function" => return some (← functionValue g)
  | "class" => return some (← classValue g)
  | "null" | "true" | "false" =>
    bump
    return some (.literal (← previous))
  | _ => return none

def markValue? (g : Grammar) (start : Nat) (arrowAllowed : Bool) (text : String) :
    Read (Option Expr) := do
  if text == "[" then
    return some (← withFlags (fun f => { f with colonFollows := false }) (arrayLiteral g))
  if text == braceOpen then return some (← objectLiteral g)
  if text == "@" then return some (← classValue g)
  if text == "/" || text == "/=" then return ← regexValue start
  if text == "`" then
    let holes ← withFlags (fun f => { f with colonFollows := false }) (templateValue g false)
    return some (.template (← spanFrom start) holes)
  if text == "(" then return some (← parens g arrowAllowed none)
  if text == "#" then
    let (_, here) ← privateName
    return some (.privateName here)
  return none

def primary (g : Grammar) : Read Expr := do
  let start ← position
  let arrowAllowed := (← get).arrowStart == some start
  let found ←
    match ← current with
    | some (.word text) => wordValue? g start arrowAllowed text
    | some (.mark text) => markValue? g start arrowAllowed text
    | some (.string _ raw) =>
      bump
      pure (some (.text (← previous) raw))
    | some (.number ..) | some (.bigInt ..) =>
      bump
      pure (some (.literal (← previous)))
    | some (.bad _) =>
      discard required
      pure none
    | _ => pure none
  if let some e := found then return e
  let isLet ← is "let"
  if isLet || (← isName) then nameValue g start arrowAllowed
  else fail .expressionExpected

def beginsOperand : Read Bool := do
  match ← current with
  | none => return false
  | some (.word text) =>
    if text == "import" then
      return ← peekToken fun t => ["(", "<", "."].any (Token.spells · t)
    return ["this", "super", "null", "true", "false", "function", "class", "new", "delete",
      "typeof", "void", "await", "yield"].contains text || !isReserved text
  | some (.mark text) =>
    if text == "#" then return ← peekIsWord
    return ["`", "(", "[", braceOpen, "+", "-", "~", "!", "++", "--", "<"].contains text
  | some (.string ..) | some (.number ..) | some (.bigInt ..) | some (.regex ..) => return true
  | _ => return false

/-- Type arguments that nothing is called with. -/
def instantiation (g : Grammar) : Read (Option Unit) := do
  typeArguments g
  if ← isAny ["<", ">", "+", "-", "(", "`"] then return none
  if ← afterLineBreak then return some ()
  if ← isToken fun t => t.binaryPrecedence?.isSome then return some ()
  return if ← beginsOperand then none else some ()

def instantiated (g : Grammar) (start : Nat) (e : Expr) : Read Expr := do
  if ← is "<" then
    if (← attempt (instantiation g)).isSome then
      return .instantiation (Span.ofEnds start (← previous).hi) e
  return e

def taggedTemplate (g : Grammar) (start : Nat) (tag : Expr) : Read Expr := do
  discard <| templateValue g true
  let here ← spanFrom start
  if tag.isOptionalChain then noteAt here .taggedOptionalChain
  return .template here true

def typedCall (g : Grammar) (start : Nat) (e : Expr) (noCall : Bool) :
    Read (Option (Expr × Bool)) := do
  let possiblyAsync := match e with
    | .name here n => n == "async" && here.lo == start
    | _ => false
  if !noCall && possiblyAsync && (← get).arrowStart == some start then
    if let some arrow ← asyncArrow? g start then return some (arrow, true)
  typeArguments g
  let called ← is "("
  if !noCall && called then
    argumentList g
    let here ← spanFrom start
    return some (if e.isOptionalChain then .optionalChain here false else .call here, true)
  if ← is "`" then return some (← taggedTemplate g start e, true)
  unexpected (if noCall then "`" else "( or `")

def chained (e : Expr) : Bool :=
  match e with
  | .cast _ inner => inner.isOptionalChain
  | _ => e.isOptionalChain

def calleeStart : Callee → Nat
  | .expr e => e.span.lo
  | .super start | .dynamicImport start => start

def dotMember (g : Grammar) (start : Nat) (callee : Callee) (isOptional : Bool) :
    Read (Expr × Bool) := do
  let (text, _, hidden) ← memberName
  let here ← spanFrom start
  match callee with
  | .expr e =>
    let member := if isOptional || chained e then Expr.optionalChain here true else .member here e
    return (← instantiated g start member, true)
  | .super _ => return (.superMember here, true)
  | .dynamicImport _ =>
    if hidden then unexpected "meta"
    if text == "meta" then
      modify fun s => { s with metas := here :: s.metas }
      return (.importMeta here, true)
    argumentList g
    return (.call (← spanFrom start), true)

def computedMember (g : Grammar) (start : Nat) (callee : Callee) (isOptional : Bool) :
    Read (Expr × Bool) := do
  discard <| withIn (expressionList g)
  expect "]"
  let here ← spanFrom start
  match callee with
  | .expr e =>
    if isOptional || chained e then return (.optionalChain here true, true)
    return (.member here e, true)
  | .super _ => return (.superMember here, true)
  | .dynamicImport _ => return (.call here, true)

def callWith (g : Grammar) (start : Nat) (callee : Callee) (isOptional : Bool) :
    Read (Expr × Bool) := do
  if ← is "<" then typeArguments g
  argumentList g
  let here ← spanFrom start
  match callee with
  | .expr e =>
    if isOptional || chained e then return (.optionalChain here false, true)
    return (.call here, true)
  | _ => return (.call here, true)

def subscript (g : Grammar) (start : Nat) (callee : Callee) (noCall noComputed : Bool) :
    Read (Expr × Bool) := do
  let broken ← afterLineBreak
  let bang ← is "!"
  if !broken && bang then
    forbidOperand
    bump
    match callee with
    | .expr e => return (.cast (← spanFrom start) e, true)
    | .super _ => fail (.nonNullOf "super")
    | .dynamicImport _ => fail (.nonNullOf "import")
  if let .expr e := callee then
    if ← is "<" then
      if let some result ← attempt (typedCall g start e noCall) then return result
  let isOptional ← if ← is "?" then peekIs "." else pure false
  if isOptional then bump
  let bracketAfterDot ← if isOptional then peekIs "[" else pure false
  if !noComputed then
    if bracketAfterDot then
      bump
      bump
      return ← computedMember g start callee true
    if ← eat "[" then return ← computedMember g start callee isOptional
  let callAfterDot ←
    if isOptional then peekToken fun t => Token.spells "(" t || Token.spells "<" t else pure false
  if callAfterDot then
    bump
    return ← callWith g start callee true
  let called ← is "("
  if !noCall && called then return ← callWith g start callee isOptional
  if ← eat "." then return ← dotMember g start callee isOptional
  match callee with
  | .expr e =>
    if ← is "`" then
      return (← withFlags (fun f => { f with colonFollows := false }) (taggedTemplate g start e),
        true)
    return (e, false)
  | .super _ => fail (if noCall then .invalidSuperCall else .invalidSuper)
  | .dynamicImport _ => fail .invalidImport

def subscripts (g : Grammar) (callee : Callee) (noCall noComputed : Bool) : Read Expr :=
  let start := calleeStart callee
  iterate (fun callee => do
    match ← subscript g start callee noCall noComputed with
    | (e, true) => return .again (.expr e)
    | (e, false) => return .done e) callee

def importValue (g : Grammar) (start : Nat) (noCall : Bool) : Read Expr := do
  if ← eat "." then
    let (text, _) ← wordName
    match text with
    | "meta" =>
      let here ← spanFrom start
      modify fun s => { s with metas := here :: s.metas }
      subscripts g (.expr (.importMeta here)) noCall false
    | "defer" | "source" => subscripts g (.dynamicImport start) noCall false
    | _ => unexpected "meta"
  else subscripts g (.dynamicImport start) noCall false

def newTarget (g : Grammar) (start : Nat) : Read Expr := do
  unless ← eat "target" do unexpected "target"
  let here ← spanFrom start
  let f ← flags
  if !f.inOwnFunction && !f.inParameters && !f.inClass then noteAt here .newTargetOutside
  subscripts g (.expr (.literal here)) true false

def checkConstructed : Expr → Read Unit
  | .optionalChain here _ => failAt here .constructorOptionalChain
  | .member _ (.optionalChain here _) => failAt here .constructorOptionalChain
  | _ => pure ()

def callTypes (g : Grammar) : Read (Option Unit) := do
  typeArguments g
  return if ← is "(" then some () else none

def construction (g : Grammar) (start : Nat) (construct : Bool) : Read Expr := do
  let callee ← g.run (.memberOrNew construct)
  if callee.isArrow then return callee
  if construct then checkConstructed callee
  if ← isAny ["<", "<<"] then discard <| attempt (callTypes g)
  let called ← is "("
  if !construct || called then
    if called then argumentList g
    subscripts g (.expr (.construct (← spanFrom start) called)) true false
  else return .construct (← spanFrom start) false

def memberOrNew (g : Grammar) (construct : Bool) : Read Expr := do
  let start ← position
  if ← eat "new" then
    if ← eat "." then return ← newTarget g start
    return ← construction g start construct
  if ← eat "super" then return ← subscripts g (.super start) true false
  if ← eat "import" then return ← importValue g start true
  let e ← primary g
  if e.isArrow then return e
  let e ← instantiated g start e
  subscripts g (.expr e) true false

def leftHand (g : Grammar) : Read Expr := do
  let start ← position
  match ← required with
  | .elementText _ =>
    bump
    return .element (← previous)
  | .tagOpen => g.run .element
  | _ =>
    let angle ← if ← is "<" then pure !(← peekIs "!") else pure false
    if angle then return ← g.run .element
    if ← eat "super" then return ← subscripts g (.super start) false false
    if ← eat "import" then return ← importValue g start false
    let callee ← memberOrNew g true
    if callee.isArrow then return callee
    let typed ← if ← isAny ["<", "<<"] then pure (← attempt (callTypes g)).isSome else pure false
    match callee with
    | .construct _ false => return callee
    | _ =>
      if ← is "(" then
        argumentList g
        let here ← spanFrom start
        let e := if chained callee then Expr.optionalChain here false else .call here
        subscripts g (.expr e) false false
      else if typed then
        expect "("
        return callee
      else return callee

end ModuleHost.Syntax.Read
