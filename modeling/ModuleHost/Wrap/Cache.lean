import ModuleHost.Digest.Blake3
import ModuleHost.Wrap.Transform

/-!
A transformer that remembers its last result for every path, together with the digest of the text
that it belongs to. Failures are not remembered.
-/

namespace ModuleHost.Wrap

structure Cached where
  digest : String
  output : Output

structure Transformer where
  config : Config
  results : List (String × Cached) := []

namespace Transformer

def find? (t : Transformer) (path : String) : Option Cached :=
  (t.results.find? (·.1 = path)).map Prod.snd

def hit? (t : Transformer) (path code : String) : Option Output :=
  ((t.find? path).filter fun c => c.digest = Digest.ofText code).map Cached.output

def forget (t : Transformer) (path : String) : Transformer :=
  { t with results := t.results.filter (·.1 ≠ path) }

def remember (t : Transformer) (path : String) (c : Cached) : Transformer :=
  { t with results := (path, c) :: (t.forget path).results }

/-- Transforms a module, or answers with the remembered result for the same text. -/
def transform (t : Transformer) (code path : String) :
    (Except TransformError Output × List Log.Event) × Transformer :=
  match t.hit? path code with
  | some output => ((.ok output, [⟨.trace, "transform cache hit", [("path", .text path)]⟩]), t)
  | none =>
    match Wrap.transform t.config code path with
    | (.ok output, events) =>
      ((.ok output, events), t.remember path ⟨Digest.ofText code, output⟩)
    -- a result for another text of the path stays
    | failed => (failed, t)

def isCached (t : Transformer) (path code : String) : Bool :=
  (t.hit? path code).isSome

def invalidate (t : Transformer) (path : String) : Bool × Transformer :=
  ((t.find? path).isSome, t.forget path)

def invalidateAll (t : Transformer) : Transformer :=
  { t with results := [] }

def size (t : Transformer) : Nat :=
  t.results.length

end Transformer

end ModuleHost.Wrap
