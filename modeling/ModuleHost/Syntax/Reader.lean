import ModuleHost.Syntax.Scanner
import ModuleHost.Syntax.Tree

/-!
Reading a sequence of tokens. A token is cut only when it is first looked at, because the flags that
hold at that moment decide how; at most one more token is looked at ahead. A failed reading keeps its
state, so that a caller may go on behind a fault, and `attempt` takes everything back.
-/

namespace ModuleHost.Syntax

structure Reader where
  scanner : Scanner
  token : Option Lexeme
  ahead : Option Lexeme
  previous : Span
  flags : Flags
  labels : List String
  arrowStart : Option Nat
  trailingCommas : List (Nat × Span)
  metas : List Span
  /-- Object entries that are legal only if the object turns out to be a pattern. -/
  shortValues : List Nat
  size : Nat

def Reader.ofText (text : List Char) : Reader :=
  { scanner := Scanner.ofText text, token := none, ahead := none, previous := ⟨0, 0⟩, flags := {},
    labels := [], arrowStart := none, trailingCommas := [], metas := [], shortValues := [],
    size := Text.byteLength text }

abbrev Read := EStateM Fault Reader

namespace Read

def look : Read (Option Lexeme) := do
  let s ← get
  match s.token, s.ahead with
  | some l, _ => return some l
  | none, some l =>
    set { s with token := some l, ahead := none }
    return some l
  | none, none =>
    let (l, scanner) := s.scanner.next s.flags
    set { s with scanner, token := l }
    return l

def current : Read (Option Token) :=
  return (← look).map Lexeme.token

def peek : Read (Option Lexeme) := do
  discard look
  let s ← get
  match s.ahead with
  | some l => return some l
  | none =>
    let (l, scanner) := s.scanner.next s.flags
    set { s with scanner, ahead := l }
    return l

def previous : Read Span :=
  return (← get).previous

def position : Read Nat := do
  match ← look with
  | some l => return l.lo
  | none => return (← previous).hi

def span : Read Span := do
  match ← look with
  | some l => return ⟨l.lo, l.hi⟩
  | none => previous

def spanFrom (start : Nat) : Read Span :=
  return Span.ofEnds start (← previous).hi

def bump : Read Unit := do
  if let some l ← look then
    modify fun s => { s with token := none, previous := ⟨l.lo, l.hi⟩ }

def quoted : Read String :=
  return (← current).elim "<eof>" Token.text

def addFault (fault : Fault) : Read Unit :=
  modify fun s => { s with scanner := { s.scanner with faults := fault :: s.scanner.faults } }

def noteBadToken : Read Unit := do
  if let some (.bad fault) ← current then
    bump
    unless (← get).flags.quiet do addFault fault

def note (fault : Fault) : Read Unit := do
  unless (← get).flags.quiet do
    noteBadToken
    addFault fault

def noteAt (at' : Span) (cause : Cause) : Read Unit :=
  note ⟨at'.lo, cause⟩

def failAt {α : Type} (at' : Span) (cause : Cause) : Read α := do
  noteBadToken
  throw ⟨at'.lo, cause⟩

def fail {α : Type} (cause : Cause) : Read α := do
  failAt (← span) cause

def unexpected {α : Type} (expected : String) : Read α := do
  fail (.unexpected (← quoted) expected)

def required : Read Token := do
  match ← current with
  | some (.bad fault) =>
    bump
    throw fault
  | some t => return t
  | none => throw ⟨(← get).size, .endOfText⟩

def is (text : String) : Read Bool :=
  return (← current).any (Token.spells text)

def isAny (texts : List String) : Read Bool :=
  return (← current).any fun t => texts.any (Token.spells · t)

def isToken (p : Token → Bool) : Read Bool :=
  return (← current).any p

def isWord : Read Bool := isToken Token.isWord

def isName : Read Bool := isToken Token.isName

def isString : Read Bool := isToken fun | .string .. => true | _ => false

def isTagOpen : Read Bool := isToken (· == .tagOpen)

def atEnd : Read Bool :=
  return (← current).isNone

def peekToken (p : Token → Bool) : Read Bool :=
  return (← peek).any (p ·.token)

def peekIs (text : String) : Read Bool :=
  peekToken (Token.spells text)

def peekIsWord : Read Bool := peekToken Token.isWord

def peekIsName : Read Bool := peekToken Token.isName

/-- Whether a line break stands before the current token; the end of the text counts as one. -/
def afterLineBreak : Read Bool :=
  return (← look).all Lexeme.afterLineBreak

def lineBreakAhead : Read Bool :=
  return (← peek).all Lexeme.afterLineBreak

def eat (text : String) : Read Bool := do
  if ← is text then
    bump
    return true
  return false

def expect (text : String) : Read Unit := do
  unless ← eat text do fail (.expected text (← quoted))

def isSemicolon : Read Bool := do
  match ← current with
  | none => return true
  | some t =>
    if Token.spells ";" t || Token.spells braceClose t then return true
    afterLineBreak

def eatSemicolon : Read Bool := do
  if ← eat ";" then return true
  isSemicolon

def expectSemicolon : Read Unit := do
  unless ← eatSemicolon do fail (.expected ";" (← quoted))

def withFlags {α : Type} (change : Flags → Flags) (action : Read α) : Read α := fun s =>
  match action { s with flags := change s.flags } with
  | .ok a s' => .ok a { s' with flags := s.flags }
  | .error e s' => .error e { s' with flags := s.flags }

def flags : Read Flags :=
  return (← get).flags

def inType {α : Type} (action : Read α) : Read α :=
  withFlags (fun f => { f with inType := true }) action

def withIn {α : Type} (action : Read α) : Read α :=
  withFlags (fun f => { f with includeIn := true }) action

def takenBack (before after : Reader) : Reader :=
  -- comments in front of the end of the text stay known once it was reached
  { before with scanner := { before.scanner with settled := after.scanner.settled } }

/-- Reads on trial: without a result, and after a fault, the reading is taken back. Faults that could
be noted are not. -/
def attempt {α : Type} (action : Read (Option α)) : Read (Option α) := fun s =>
  match action { s with flags := { s.flags with quiet := true } } with
  | .ok (some a) s' => .ok (some a) { s' with flags := { s'.flags with quiet := s.flags.quiet } }
  | .ok none s' => .ok none (takenBack s s')
  | .error _ s' => .ok none (takenBack s s')

def lookAhead {α : Type} (action : Read α) : Read α := fun s =>
  match action { s with flags := { s.flags with quiet := true } } with
  | .ok a s' => .ok a (takenBack s s')
  | .error e s' => .error e (takenBack s s')

def inFreshScope {α : Type} (action : Read α) : Read α := fun s =>
  let leave (s' : Reader) : Reader := { s' with
    labels := s.labels
    arrowStart := s.arrowStart
    trailingCommas := s.trailingCommas
    shortValues := s.shortValues }
  -- labels and notes of a function body are its own
  match action { s with labels := [], arrowStart := none, trailingCommas := [] } with
  | .ok a s' => .ok a (leave s')
  | .error e s' => .error e (leave s')

inductive Step (σ β : Type) where
  | again (state : σ)
  | done (result : β)

def iterateN {σ β : Type} : Nat → (σ → Read (Step σ β)) → σ → Read β
  | 0, _, _ => do throw ⟨(← get).size, .depthExceeded⟩
  | n + 1, step, state => do
    match ← step state with
    | .done b => return b
    | .again state => iterateN n step state

/-- Repeats a step that takes at least one token each time it asks for another round. -/
def iterate {σ β : Type} (step : σ → Read (Step σ β)) (state : σ) : Read β := do
  let s ← get
  -- as many rounds as bytes are left, and some for steps at the end of the text
  iterateN (s.size - s.scanner.pos + 8) step state

def whileTrue (condition : Read Bool) (action : Read Unit) : Read Unit :=
  iterate (fun () => do
    if ← condition then
      action
      return .again ()
    return .done ()) ()

def collectWhile {α : Type} (condition : Read Bool) (action : Read α) : Read (List α) :=
  List.reverse <$> iterate (fun taken => do
    if ← condition then return .again ((← action) :: taken)
    return .done taken) []

end Read

end ModuleHost.Syntax
