import ModuleHost.Text.Position

/-!
Replacements in a text, addressed by byte offsets of the text as it was. They may be recorded in any
order. `Edit.applyAll` sorts them by place and refuses those that overlap; an insertion stands in
front of a replacement that starts at the same place.
-/

namespace ModuleHost.Wrap

open ModuleHost.Text

/-- The bytes from `start` to `stop` give way to `text`; an insertion replaces no bytes. -/
structure Edit where
  start : Nat
  stop : Nat
  text : String
  deriving DecidableEq

namespace Edit

def insert (at' : Nat) (text : String) : Edit :=
  ⟨at', at', text⟩

def remove (start stop : Nat) : Edit :=
  ⟨start, stop, ""⟩

inductive Fault where
  | misplaced (start stop : Nat)
  | insideCharacter (start : Nat)
  deriving DecidableEq

def Fault.message : Fault → String
  | .misplaced start stop =>
    "edit " ++ toString start ++ ".." ++ toString stop ++
      " overlaps a previous edit or falls outside the source"
  | .insideCharacter start => "edit at " ++ toString start ++ " splits a character"

def notAfter (a b : Edit) : Bool :=
  a.start < b.start || (a.start == b.start && a.stop ≤ b.stop)

/-- Applies edits in order of their place to what follows the first `cursor` bytes. -/
def applyFrom (source : List Char) (cursor : Nat) : List Edit → Except Fault (List Char)
  -- an end inside a character leaves nothing behind
  | [] => return (dropBytes? source cursor).getD []
  | e :: more => do
    if e.start < cursor || byteLength source < e.stop || e.stop < e.start then
      throw (.misplaced e.start e.stop)
    match slice? source cursor e.start with
    | none => throw (.insideCharacter e.start)
    | some kept => return kept ++ e.text.toList ++ (← applyFrom source e.stop more)

def applyAll (edits : List Edit) (source : List Char) : Except Fault (List Char) :=
  applyFrom source 0 (edits.mergeSort notAfter)

end Edit

end ModuleHost.Wrap
