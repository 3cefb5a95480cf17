import ModuleHost.Proofs.Text.Tokens
import ModuleHost.Proofs.Wrap.Edits
import ModuleHost.Wrap.Convert

/-! Items by themselves. A piece is an item cut out of its module, with all places counted from its
own beginning, and its replacement is what the conversion makes of it where nothing else stands. -/

namespace ModuleHost.Syntax

/-- A stretch of a text as seen from `n` bytes on. -/
def Span.rebase (n : Nat) (span : Span) : Span := ⟨span.lo - n, span.hi - n⟩

def Span.within (inner outer : Span) : Bool := outer.lo ≤ inner.lo && inner.hi ≤ outer.hi

mutual

def Pattern.rebase (n : Nat) : Pattern → Pattern
  | .name span name => .name (span.rebase n) name
  | .object span fields => .object (span.rebase n) (rebaseFields n fields)
  | .array span elements => .array (span.rebase n) (rebaseElements n elements)
  | .withDefault span target => .withDefault (span.rebase n) (target.rebase n)
  | .rest span target => .rest (span.rebase n) (target.rebase n)
  | .place span => .place (span.rebase n)
  | .invalid span => .invalid (span.rebase n)

def PatternField.rebase (n : Nat) : PatternField Pattern → PatternField Pattern
  | .keyed value => .keyed (value.rebase n)
  | .short span name => .short (span.rebase n) name
  | .rest target => .rest (target.rebase n)

def rebaseFields (n : Nat) : List (PatternField Pattern) → List (PatternField Pattern)
  | [] => []
  | field :: more => field.rebase n :: rebaseFields n more

def rebaseElements (n : Nat) : List (Option Pattern) → List (Option Pattern)
  | [] => []
  | some element :: more => some (element.rebase n) :: rebaseElements n more
  | none :: more => none :: rebaseElements n more

end

def Declarator.rebase (n : Nat) (d : Declarator) : Declarator :=
  ⟨d.span.rebase n, d.target.rebase n, d.value.map (Span.rebase n)⟩

def ItemShape.rebase (n : Nat) : ItemShape → ItemShape
  | .exportDecl (.variable declare declarators) =>
    .exportDecl (.variable declare (declarators.map (Declarator.rebase n)))
  | shape => shape

@[simp] theorem Span.rebase_zero (span : Span) : span.rebase 0 = span := rfl

mutual

theorem Pattern.rebase_zero : (p : Pattern) → p.rebase 0 = p
  | .name _ _ | .place _ | .invalid _ => rfl
  | .object span fields => congrArg (Pattern.object span) (rebaseFields_zero fields)
  | .array span elements => congrArg (Pattern.array span) (rebaseElements_zero elements)
  | .withDefault span target => congrArg (Pattern.withDefault span) target.rebase_zero
  | .rest span target => congrArg (Pattern.rest span) target.rebase_zero

theorem PatternField.rebase_zero : (field : PatternField Pattern) → field.rebase 0 = field
  | .keyed value => congrArg PatternField.keyed value.rebase_zero
  | .short _ _ => rfl
  | .rest target => congrArg PatternField.rest target.rebase_zero

theorem rebaseFields_zero : (fields : List (PatternField Pattern)) → rebaseFields 0 fields = fields
  | [] => rfl
  | field :: more => congrArg₂ List.cons field.rebase_zero (rebaseFields_zero more)

theorem rebaseElements_zero : (elements : List (Option Pattern)) →
    rebaseElements 0 elements = elements
  | [] => rfl
  | some element :: more =>
    congrArg₂ (fun e es => some e :: es) element.rebase_zero (rebaseElements_zero more)
  | none :: more => congrArg (none :: ·) (rebaseElements_zero more)

end

theorem Declarator.rebase_zero (d : Declarator) : d.rebase 0 = d := by
  obtain ⟨span, target, value⟩ := d
  cases value <;> simp [Declarator.rebase, Pattern.rebase_zero]

end ModuleHost.Syntax

namespace ModuleHost.Wrap

open ModuleHost.Syntax ModuleHost.Text

/-- An item cut out of its module. -/
structure Piece where
  text : List Char
  shape : ItemShape
  metas : List Span

def pieceOf (m : Module) (item : Item) : Piece :=
  { text := (slice? m.source item.span.lo item.span.hi).getD []
    shape := item.shape.rebase item.span.lo
    metas := (m.metas.filter (·.within item.span)).map (Span.rebase item.span.lo) }

def metaEdits (config : Config) (metas : List Span) : List Edit :=
  metas.map fun span => ⟨span.lo, span.hi, config.importMetaIdent⟩

namespace Piece

def setting (config : Config) (p : Piece) : Setting :=
  { config, path := "", source := p.text, bodyLength := byteLength p.text }

def item (p : Piece) : Item := ⟨⟨0, byteLength p.text⟩, p.shape⟩

/-- What stands for a piece when it is converted; `first` temporaries are in use before it. -/
def replacement (config : Config) (first : Nat) (p : Piece) : Except EmitFault (List Char) := do
  let found ← (p.setting config).convertItem first p.item
  (Edit.applyAll (found.edits ++ metaEdits config p.metas) p.text).mapError .edit

end Piece

def temporariesIn (shape : ItemShape) : Nat :=
  match exportForm? shape with
  | some (.reexportList entries _) => (entries.filterMap ExportEntry.pair?).length
  | _ => 0

/-- Whether an item has no value at all, so that it is deleted: an import, or an export of types. -/
def erased : ItemShape → Bool
  | .importFrom .. => true
  | shape =>
    match exportForm? shape with
    | some .typeOnly => true
    | _ => false

def replacesItem : ExportForm → Bool
  | .localList _ | .reexportList .. | .wildcard _ => true
  | _ => false

def replacedWhole (shape : ItemShape) : Bool := (exportForm? shape).any replacesItem

def withoutLineBreak : List Char → List Char
  | '\r' :: '\n' :: rest => rest
  | '\n' :: rest => rest
  | text => text

/-- The text between two items; one that was deleted has taken the line break behind it along. -/
def between (m : Module) (lo hi : Nat) (behindErased : Bool) : List Char :=
  let text := (slice? m.source lo hi).getD []
  if behindErased then withoutLineBreak text else text

/-- A module in which every item has given way to its replacement. -/
def woven (config : Config) (m : Module) (bodyLength first cursor : Nat) (behindErased : Bool) :
    List Item → Except EmitFault (List Char)
  | [] => return between m cursor bodyLength behindErased
  | item :: more => do
    let text ← (pieceOf m item).replacement config first
    let rest ← woven config m bodyLength (first + temporariesIn item.shape) item.span.hi
      (erased item.shape) more
    return between m cursor item.span.lo behindErased ++ text ++ rest

/-- A text with each of some stretches, which come in order, replaced by a name. -/
def named (ident : List Char) (text : List Char) (cursor : Nat) : List Span → List Char
  | [] => (dropBytes? text cursor).getD []
  | span :: more => (slice? text cursor span.lo).getD [] ++ ident ++ named ident text span.hi more

def behindKeywords (form : ExportForm) (text : List Char) : Option (List Char) :=
  match form with
  | .default _ =>
    (dropStart? Setting.exportWord text).bind fun rest =>
      dropStart? "default".toList (trimStart rest)
  | _ => dropStart? Setting.exportWord text

def declaratorsOf : ExportForm → List Declarator
  | .variable declarators => declarators
  | _ => []

/-- Where a declarator gets its value and where it ends, no `import.meta` is open. -/
structure DeclaratorFits (text : List Char) (metas : List Span) (d : Declarator) : Prop where
  token : StartsToken text d.span.lo
  nonempty : d.span.lo ≤ d.span.hi
  cut : Boundary text d.span.hi
  value : ∀ value ∈ d.value, d.span.lo ≤ value.lo ∧ Boundary text value.lo
  metas : ∀ span ∈ metas, (d.span.hi ≤ span.lo ∨ span.hi ≤ d.span.hi) ∧
    ∀ value ∈ d.value, value.lo ≤ span.lo ∨ span.hi ≤ value.lo

structure KeywordsFirst (p : Piece) (form : ExportForm) (rest : List Char) : Prop where
  keywords : behindKeywords form p.text = some rest
  more : rest.any (!isBlank ·) = true
  metas : ∀ span ∈ p.metas, byteLength p.text ≤ span.lo + byteLength rest
  declarators : ∀ d ∈ declaratorsOf form, byteLength p.text ≤ d.span.lo + byteLength rest ∧
    DeclaratorFits p.text p.metas d

structure Piece.WellFormed (p : Piece) : Prop where
  token : StartsToken p.text 0
  metas : ∀ span ∈ p.metas, span.lo < span.hi ∧ StartsToken p.text span.lo ∧
    Boundary p.text span.hi
  apart : p.metas.Pairwise fun a b => a.hi ≤ b.lo ∨ b.hi ≤ a.lo
  keywords : ∀ form, exportForm? p.shape = some form → ∃ rest, KeywordsFirst p form rest

structure WellSpanned (m : Module) : Prop where
  ordered : m.items.Pairwise fun a b => a.span.hi ≤ b.span.lo
  cut : ∀ item ∈ m.items, item.span.lo ≤ item.span.hi ∧ Boundary m.source item.span.lo ∧
    Boundary m.source item.span.hi
  inside : ∀ span ∈ m.metas, ∃ item ∈ m.items, span.within item.span
  nested : ∀ item ∈ m.items, ∀ form, exportForm? item.shape = some form →
    ∀ d ∈ declaratorsOf form, item.span.lo ≤ d.span.lo ∧ d.span.lo ≤ d.span.hi ∧
      ∀ value ∈ d.value, item.span.lo ≤ value.lo
  pieces : ∀ item ∈ m.items, (pieceOf m item).WellFormed

end ModuleHost.Wrap
