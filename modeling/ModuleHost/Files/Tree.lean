import ModuleHost.Files.Path
import ModuleHost.Text.Utf8

/-!
A tree of files and directories. Paths are followed segment by segment from the root or from the
working directory; going up leads out of the directory that has been reached, so every directory on
the way has to be there.
-/

namespace ModuleHost.Files

inductive Node where
  | file (bytes : List UInt8)
  | directory
  deriving DecidableEq

abbrev Location := List String

structure Tree where
  workingDirectory : Location := []
  nodes : List (Location × Node) := []

inductive Fault where
  | notFound
  | notDirectory
  | isDirectory
  | notText
  deriving DecidableEq, Repr

def Fault.message : Fault → String
  | .notFound => "No such file or directory (os error 2)"
  | .notDirectory => "Not a directory (os error 20)"
  | .isDirectory => "Is a directory (os error 21)"
  | .notText => "stream did not contain valid UTF-8"

namespace Tree

def empty (workingDirectory : Location) : Tree :=
  { workingDirectory
    nodes := (List.range workingDirectory.length).map fun n =>
      (workingDirectory.take (n + 1), .directory) }

def node? (t : Tree) (l : Location) : Option Node :=
  if l.isEmpty then some .directory else (t.nodes.find? (·.1 = l)).map Prod.snd

def erase (t : Tree) (l : Location) : Tree :=
  { t with nodes := t.nodes.filter (·.1 ≠ l) }

def put (t : Tree) (l : Location) (n : Node) : Tree :=
  { t with nodes := (l, n) :: (t.erase l).nodes }

def follow (l : Location) (segment : String) : Location :=
  if Path.isBlank segment then l else if segment = ".." then l.dropLast else l ++ [segment]

def startOf (t : Tree) (p : Path) : Location :=
  if p.isAbsolute then [] else t.workingDirectory

/-- Where a path leads. What it leads to need not be there. -/
def resolveFrom (t : Tree) (l : Location) : List String → Except Fault Location
  | [] => return l
  | segment :: rest =>
    -- only a directory is left by a step, be it down or up
    match t.node? l with
    | some .directory => t.resolveFrom (follow l segment) rest
    | some (.file _) => throw .notDirectory
    | none => throw .notFound

def resolve (t : Tree) (p : Path) : Except Fault Location :=
  if p.text = "" then throw .notFound else t.resolveFrom (t.startOf p) p.segments

def lookup (t : Tree) (p : Path) : Except Fault Node := do
  match t.node? (← t.resolve p) with
  | some n => return n
  | none => throw .notFound

def exists? (t : Tree) (p : Path) : Bool :=
  (t.lookup p).isOk

def isDirectory (t : Tree) (p : Path) : Bool :=
  match t.lookup p with
  | .ok .directory => true
  | _ => false

def read (t : Tree) (p : Path) : Except Fault (List UInt8) := do
  match ← t.lookup p with
  | .file bytes => return bytes
  | .directory => throw .isDirectory

def readLossy (t : Tree) (p : Path) : Except Fault String :=
  return Text.Utf8.decodeLossy (← t.read p)

def readText (t : Tree) (p : Path) : Except Fault String := do
  match Text.Utf8.decode? (← t.read p) with
  | some text => return text
  | none => throw .notText

def makeFrom (t : Tree) (l : Location) : List String → Except Fault Tree
  | [] => return t
  | segment :: rest =>
    let next := follow l segment
    match t.node? next with
    | some .directory => t.makeFrom next rest
    | some (.file _) => throw .notDirectory
    | none => (t.put next .directory).makeFrom next rest

def makeDirectories (t : Tree) (p : Path) : Except Fault Tree :=
  t.makeFrom (t.startOf p) p.segments

/-- Puts bytes in the place of a file and makes the directories that it lies in. -/
def write (t : Tree) (p : Path) (bytes : List UInt8) : Except Fault Tree := do
  let t ← t.makeDirectories (p.parent?.getD ⟨["."]⟩)
  let l ← t.resolve p
  match t.node? l with
  | some .directory => throw .isDirectory
  | _ => return t.put l (.file bytes)

def remove (t : Tree) (p : Path) : Except Fault Tree := do
  let l ← t.resolve p
  match t.node? l with
  | some (.file _) => return t.erase l
  | some .directory => throw .isDirectory
  | none => throw .notFound

def files (t : Tree) : List (String × List UInt8) :=
  t.nodes.filterMap fun (l, n) =>
    match n with
    | .file bytes =>
      if t.workingDirectory.isPrefixOf l then
        some (String.intercalate "/" (l.drop t.workingDirectory.length), bytes)
      else none
    | .directory => none

end Tree

end ModuleHost.Files
