import ModuleHost.Syntax.Items

/-!
Reading a whole module. Here every rule gets its production; `Grammar.ofDepth` ties the knot by
recursion on how deep constructs may still nest, which the length of the text bounds. A text is
refused for the fault that ended its reading or else for the first one that was noted on the way.
-/

namespace ModuleHost.Syntax

open Read in
def Grammar.produce (g : Grammar) : {α : Type} → Rule α → Read α
  | _, .assignment => assignment g
  | _, .assignmentBase => assignmentBase g
  | _, .binary => binary g
  | _, .unary => unary g
  | _, .leftHand => leftHand g
  | _, .memberOrNew construct => memberOrNew g construct
  | _, .operatorsAfter left precedence => operatorsAfter g left precedence
  | _, .subscripts callee noCall noComputed => subscripts g callee noCall noComputed
  | _, .element => element g
  | _, .bindingPattern noLet => bindingPattern g noLet
  | _, .asPattern use e => patternOf g use e
  | _, .formalParameters => formalParameters g
  | _, .decorators allowExport => decorators g allowExport
  | _, .type => conditionalType g
  | _, .unconditionalType => unconditionalType g
  | _, .typeOperator => typeOperator g
  | _, .block _ => block g
  | _, .statement declarations => statement g declarations
  | _, .ifStatement => ifStatement g
  | _, .moduleBlock => moduleBlock g

/-- The grammar for constructs that nest at most that deep. -/
def Grammar.ofDepth : Nat → Grammar
  | 0 => ⟨fun _ => Read.fail .depthExceeded⟩
  | depth + 1 => ⟨fun rule => (Grammar.ofDepth depth).produce rule⟩

def Read.items (g : Grammar) : Read (List Item) := do
  if ← isToken (· == .shebang) then bump
  collectWhile (return !(← atEnd)) do return (← item g).1

structure Refusal where
  position : Text.Position
  cause : Cause

def insertSorted (n : Nat) : List Nat → List Nat
  | [] => [n]
  | m :: rest => if n < m then n :: m :: rest else if n = m then m :: rest else m :: insertSorted n rest

def inOrder (numbers : List Nat) : List Nat :=
  numbers.foldl (fun found n => insertSorted n found) []

/-- A byte order mark in front does not belong to the text. -/
def withoutMark : List Char → List Char
  | c :: rest => if c.toNat = 0xFEFF then rest else c :: rest
  | [] => []

def Module.parse (code : String) : Except Refusal Module :=
  let text := withoutMark code.toList
  let refuse (fault : Fault) : Except Refusal Module :=
    .error ⟨Text.positionAt text fault.offset, fault.cause⟩
  match Read.items (Grammar.ofDepth (64 * (text.length + 2))) (Reader.ofText text) with
  | .error fault _ => refuse fault
  | .ok items s =>
    match s.scanner.faults.getLast? with
    | some fault => refuse fault
    | none => .ok
      { source := text
        items := items
        metas := s.metas.reverse
        lineComments := inOrder s.scanner.settle.settled }

end ModuleHost.Syntax
