import ModuleHost.Proofs.Syntax.Imports
import ModuleHost.Proofs.Wrap.Statements
import ModuleHost.Proofs.Wrap.Weave
import ModuleHost.Wrap.Wrapper

/-! The imports of a module are bound anew in the wrapper: each is resolved once, in order, and every
name that it bound is bound to what it stood for. -/

namespace ModuleHost.Wrap

open ModuleHost.Syntax ModuleHost.Text

/-! ### Statements for an import -/

def resolver (config : Config) (resolution : Resolution) (specifier : String) : String × String :=
  match resolution with
  | .generic => (config.resolveFn, specifier)
  | .hostNative => (config.hostImportFn, config.hostSpecifier specifier)

def keyOf (name : String) : Key := if isBareName name then .bare name else .literal name

def NamedBinding.field (b : NamedBinding) : Field :=
  if b.imported = b.name then ⟨none, b.name⟩ else ⟨some (keyOf b.imported), b.name⟩

def defaultField (name : String) : Field := ⟨some (.bare "default"), name⟩

namespace ImportRecord

def call (config : Config) (r : ImportRecord) : Expression :=
  .resolve (resolver config r.resolution r.source).1 (resolver config r.resolution r.source).2

def fromNamespace (r : ImportRecord) (name : String) : List Stmt :=
  (r.default.map fun d => Stmt.declare (.whole d) (.member name "default")).toList ++
    if r.named.isEmpty then [] else [Stmt.declare (.parts (r.named.map NamedBinding.field)) (.constant name)]

def group (config : Config) (r : ImportRecord) : List Stmt :=
  match r.bindingForm with
  | .sideEffectOnly => [.run (r.call config)]
  | .default => [.declare (.parts [defaultField (r.default.getD "")]) (r.call config)]
  | .namespaceForm =>
    .declare (.whole (r.namespaceName.getD "")) (r.call config) ::
      r.fromNamespace (r.namespaceName.getD "")
  | .named =>
    [.declare (.parts ((r.default.map defaultField).toList ++ r.named.map NamedBinding.field))
      (r.call config)]

def bindings (r : ImportRecord) (n : Nat) : List (String × Found) :=
  (r.namespaceName.map fun name => (name, (⟨n, []⟩ : Found))).toList ++
    ((r.default.map fun name => (name, (⟨n, ["default"]⟩ : Found))).toList ++
      r.named.map fun b => (b.name, ⟨n, [b.imported]⟩))

end ImportRecord

variable {config : Config} {path : String} {r : ImportRecord} {n : Nat}

theorem pattern_eq (b : NamedBinding) : b.pattern = b.field.text := by
  unfold NamedBinding.pattern NamedBinding.field
  split
  · rfl
  · unfold patternKey keyOf
    split
    · rfl
    · rfl

theorem namedPattern_eq (named : List NamedBinding) :
    namedPattern named = String.intercalate ", " ((named.map NamedBinding.field).map Field.text) := by
  rw [namedPattern, List.map_map]
  congr 1
  exact List.map_congr_left fun b _ => pattern_eq b

theorem call_text (config : Config) (r : ImportRecord) :
    (r.call config).text = "await " ++ resolutionCall config r.resolution r.source := by
  unfold ImportRecord.call resolver resolutionCall
  cases r.resolution <;> rfl

theorem textOf_single (stmt : Stmt) : textOf [stmt] = stmt.text := String.intercalate_singleton

theorem textOf_cons (stmt : Stmt) (group : List Stmt) :
    textOf (stmt :: group) = stmt.text ++ String.join (group.map fun next => " " ++ next.text) := by
  induction group generalizing stmt with
  | nil => rw [textOf_single, List.map_nil, String.join_nil, String.append_empty]
  | cons next group ih =>
    have hsplit : textOf (stmt :: next :: group) = stmt.text ++ " " ++ textOf (next :: group) :=
      String.intercalate_cons_cons
    rw [hsplit, ih next, List.map_cons, String.join_cons, String.append_assoc, String.append_assoc]

theorem parts_text (r : ImportRecord) (hsome : r.named ≠ []) :
    (Target.parts ((r.default.map defaultField).toList ++ r.named.map NamedBinding.field)).text =
      inBraces (String.intercalate ", "
        ((r.default.map ("default: " ++ ·)).toList ++ [namedPattern r.named])) := by
  rw [Target.text, namedPattern_eq]
  congr 1
  have hne : (r.named.map NamedBinding.field).map Field.text ≠ [] := by simpa using hsome
  cases r.default with
  | none =>
    show String.intercalate ", " ((r.named.map NamedBinding.field).map Field.text) = _
    exact String.intercalate_singleton.symm
  | some name =>
    show String.intercalate ", " ((defaultField name).text ::
      (r.named.map NamedBinding.field).map Field.text) = String.intercalate ", " [_, _]
    rw [String.intercalate_cons_of_ne_nil hne, String.intercalate_cons_cons,
      String.intercalate_singleton]
    rfl

theorem bindingForm_cases (r : ImportRecord) :
    (r.bindingForm = .sideEffectOnly ∧ r.namespaceName = none ∧ r.default = none ∧ r.named = []) ∨
    (r.bindingForm = .default ∧ r.namespaceName = none ∧ (∃ d, r.default = some d) ∧ r.named = []) ∨
    (r.bindingForm = .named ∧ r.namespaceName = none ∧ r.named ≠ []) ∨
    (r.bindingForm = .namespaceForm ∧ ∃ name, r.namespaceName = some name) := by
  obtain ⟨source, resolution, default, namespaceName, named⟩ := r
  cases namespaceName with
  | some name => exact .inr (.inr (.inr ⟨rfl, name, rfl⟩))
  | none =>
    cases named with
    | cons b named => exact .inr (.inr (.inl ⟨rfl, rfl, List.cons_ne_nil _ _⟩))
    | nil =>
      cases default with
      | none => exact .inl ⟨rfl, rfl, rfl, rfl⟩
      | some d => exact .inr (.inl ⟨rfl, rfl, ⟨d, rfl⟩, rfl⟩)

theorem statement_eq (config : Config) (r : ImportRecord) :
    r.statement config = textOf (r.group config) := by
  unfold ImportRecord.statement ImportRecord.group
  dsimp only
  rw [← call_text]
  cases hform : r.bindingForm with
  | sideEffectOnly =>
    rw [textOf_single]
    rfl
  | default =>
    rw [textOf_single]
    show _ = "const " ++ inBraces (String.intercalate ", " [(defaultField _).text]) ++ _ ++ _ ++ _
    rw [String.intercalate_singleton]
    rfl
  | named =>
    have hnamed : r.named ≠ [] := by
      rcases bindingForm_cases r with ⟨h, -⟩ | ⟨h, -⟩ | ⟨-, -, hnamed⟩ | ⟨h, -⟩
      · cases hform.symm.trans h
      · cases hform.symm.trans h
      · exact hnamed
      · cases hform.symm.trans h
    rw [textOf_single, Stmt.text, parts_text r hnamed]
  | namespaceForm =>
    have hnamed : String.join ((if r.named.isEmpty then []
        else [Stmt.declare (.parts (r.named.map NamedBinding.field))
          (.constant (r.namespaceName.getD ""))]).map fun next => " " ++ next.text) =
        if r.named.isEmpty then "" else " " ++ ("const " ++ inBraces (namedPattern r.named) ++ " = " ++
          r.namespaceName.getD "" ++ ";") := by
      split
      · rfl
      · rw [namedPattern_eq]
        exact String.join_cons.trans String.append_empty
    have hdefault : String.join ((r.default.map fun d =>
        Stmt.declare (.whole d) (.member (r.namespaceName.getD "") "default")).toList.map
          fun next => " " ++ next.text) = (r.default.map fun d => " " ++ ("const " ++ d ++ " = " ++
            (r.namespaceName.getD "" ++ ".default") ++ ";")).getD "" := by
      cases r.default with
      | none => rfl
      | some name =>
        have hdot : ".default" = "." ++ "default" := rfl
        rw [hdot, ← String.append_assoc]
        exact String.join_cons.trans String.append_empty
    rw [textOf_cons, ImportRecord.fromNamespace, List.map_append, String.join_append, hnamed,
      hdefault]
    exact String.append_assoc

/-! ### What an import binds -/

theorem field_binding (b : NamedBinding) : b.field.name = b.name ∧ b.field.property = b.imported := by
  unfold NamedBinding.field
  split
  · rename_i hsame
    exact ⟨rfl, hsame.symm⟩
  · refine ⟨rfl, ?_⟩
    unfold keyOf
    split <;> rfl

theorem named_bindings (named : List NamedBinding) (found : Found) :
    (Target.parts (named.map NamedBinding.field)).bindings found =
      named.map fun b => (b.name, ⟨found.call, found.path ++ [b.imported]⟩) := by
  rw [Target.bindings, List.map_map]
  refine List.map_congr_left fun b _ => ?_
  obtain ⟨hname, hproperty⟩ := field_binding b
  rw [Function.comp_apply, hname, hproperty]

open Scope in
/-- The statements for an import resolve it once and bind its names. -/
theorem group_adds (config : Config) (r : ImportRecord) : Adds Nothing (r.group config)
    [resolver config r.resolution r.source] r.bindings := by
  unfold ImportRecord.group ImportRecord.bindings
  rcases bindingForm_cases r with ⟨hform, hnamespace, hdefault, hnamed⟩ |
    ⟨hform, hnamespace, ⟨d, hdefault⟩, hnamed⟩ | ⟨hform, hnamespace, -⟩ | ⟨hform, name, hnamespace⟩
  · rw [hform, hnamespace, hdefault, hnamed]
    exact adds_run
  · rw [hform, hnamespace, hdefault, hnamed]
    exact adds_resolve _ _ _
  · -- without a namespace a single pattern binds all names
    have hbindings : ∀ n, (Target.parts ((r.default.map defaultField).toList ++
        r.named.map NamedBinding.field)).bindings ⟨n, []⟩ =
          (r.default.map fun name => (name, (⟨n, ["default"]⟩ : Found))).toList ++
            r.named.map fun b => (b.name, ⟨n, [b.imported]⟩) := by
      intro n
      have hparts := named_bindings r.named ⟨n, []⟩
      rw [Target.bindings] at hparts ⊢
      rw [List.map_append, hparts]
      cases r.default <;> rfl
    have hadds := adds_resolve (resolver config r.resolution r.source).1
      (resolver config r.resolution r.source).2
      (.parts ((r.default.map defaultField).toList ++ r.named.map NamedBinding.field))
    rw [hform, hnamespace]
    simp only [hbindings] at hadds
    exact hadds
  · -- the namespace is bound first, and the other names are taken from it
    have hdefault : Adds (Latest name) (r.default.map fun d =>
        Stmt.declare (.whole d) (.member name "default")).toList [] fun n =>
          (r.default.map fun d => (d, (⟨n - 1, ["default"]⟩ : Found))).toList := by
      cases r.default with
      | none => exact .nil
      | some d => exact adds_member (.whole d)
    have hnamed : Adds (Latest name) (if r.named.isEmpty then []
        else [.declare (.parts (r.named.map NamedBinding.field)) (.constant name)]) [] fun n =>
          r.named.map fun b => (b.name, (⟨n - 1, [b.imported]⟩ : Found)) := by
      split
      · rename_i hempty
        rw [List.isEmpty_iff.mp hempty]
        exact .nil
      · have hadds := adds_constant name (.parts (r.named.map NamedBinding.field))
        simp only [named_bindings] at hadds
        exact hadds
    have hbehind := hdefault.append hnamed fun s s' hk h => latest_kept hk h
    have hall := (adds_resolve (resolver config r.resolution r.source).1
      (resolver config r.resolution r.source).2 (.whole name)).append hbehind
      fun s s' _ h => latest_declared h
    rw [hform, hnamespace]
    exact hall

/-- The names that imports bind, of which the first one makes the call of number `n`. -/
def bindingsOf (records : List ImportRecord) (n : Nat) : List (String × Found) :=
  (records.zipIdx n).flatMap fun (r, i) => r.bindings i

open Scope in
theorem groups_add (config : Config) (records : List ImportRecord) :
    Adds Nothing (records.flatMap (ImportRecord.group config))
      (records.map fun r => resolver config r.resolution r.source) (bindingsOf records) := by
  induction records with
  | nil => exact .nil
  | cons r records ih =>
    have hall := (group_adds config r).append ih fun _ _ _ _ => trivial
    exact hall

/-- The calls that are written in statements. -/
def Expression.calls : Expression → List (String × String)
  | .resolve function specifier => [(function, specifier)]
  | _ => []

def Stmt.calls : Stmt → List (String × String)
  | .run value | .declare _ value => value.calls

theorem group_calls (config : Config) (r : ImportRecord) :
    (r.group config).flatMap Stmt.calls = [resolver config r.resolution r.source] := by
  have hnone : ∀ name, (r.fromNamespace name).flatMap Stmt.calls = [] := by
    intro name
    rw [ImportRecord.fromNamespace, List.flatMap_append]
    have hdefault : ((r.default.map fun d => Stmt.declare (.whole d)
        (.member name "default")).toList.flatMap Stmt.calls) = [] := by
      cases r.default <;> rfl
    rw [hdefault]
    split <;> rfl
  unfold ImportRecord.group
  cases r.bindingForm with
  | namespaceForm =>
    dsimp only
    rw [List.flatMap_cons, hnone]
    rfl
  | _ => rfl

/-! ### When the text is a program -/

/-- A name and the property it stands for can be written as they are. -/
def Writable (name : String) (path : List String) : Prop :=
  isIdentifierName name = true ∧ ∀ property ∈ path, property ≠ name → isBareName property = true →
    isIdentifierName property = true

instance (name : String) (path : List String) : Decidable (Writable name path) :=
  inferInstanceAs (Decidable (_ ∧ _))

theorem field_legal (b : NamedBinding) :
    b.field.legal = true ↔ Writable b.name [b.imported] := by
  unfold NamedBinding.field Writable
  rw [List.forall_mem_singleton]
  split
  · rename_i hsame
    simp [Field.legal, hsame]
  · rename_i hother
    unfold keyOf
    split
    · rename_i hbare
      simp [Field.legal, Key.legal, hother, hbare, and_comm]
    · rename_i hbare
      simp [Field.legal, Key.legal, hbare]

theorem default_identifier : isIdentifierName "default" = true := by decide +kernel

theorem default_writable (name : String) :
    Writable name ["default"] ↔ isIdentifierName name = true := by
  unfold Writable
  rw [List.forall_mem_singleton, default_identifier]
  simp

theorem whole_writable (name : String) : Writable name [] ↔ isIdentifierName name = true := by
  simp [Writable]

theorem defaults_legal (default : Option String) (n : Nat) :
    (∀ f ∈ (default.map defaultField).toList, f.legal = true) ↔
      ∀ binding ∈ (default.map fun name => (name, (⟨n, ["default"]⟩ : Found))).toList,
        Writable binding.1 binding.2.path := by
  cases default with
  | none => exact iff_of_true nofun nofun
  | some d =>
    have hlegal : (defaultField d).legal = true ↔ Writable d ["default"] := by
      rw [Field.legal, defaultField, Option.all_some, Key.legal, default_identifier,
        Bool.true_and, default_writable]
    show (∀ f ∈ [defaultField d], f.legal = true) ↔
      ∀ binding ∈ [(d, (⟨n, ["default"]⟩ : Found))], Writable binding.1 binding.2.path
    rw [List.forall_mem_singleton, List.forall_mem_singleton]
    exact hlegal

theorem named_legal (named : List NamedBinding) (n : Nat) :
    (∀ f ∈ named.map NamedBinding.field, f.legal = true) ↔
      ∀ binding ∈ named.map fun b => (b.name, (⟨n, [b.imported]⟩ : Found)),
        Writable binding.1 binding.2.path := by
  rw [List.forall_mem_map, List.forall_mem_map]
  exact forall₂_congr fun b _ => field_legal b

theorem fromNamespace_legal (r : ImportRecord) {name : String} (hname : isIdentifierName name = true)
    (n : Nat) : (∀ stmt ∈ r.fromNamespace name, stmt.legal = true) ↔
      ∀ binding ∈ (r.default.map fun name => (name, (⟨n, ["default"]⟩ : Found))).toList ++
        r.named.map fun b => (b.name, ⟨n, [b.imported]⟩), Writable binding.1 binding.2.path := by
  rw [ImportRecord.fromNamespace, List.forall_mem_append, List.forall_mem_append]
  refine and_congr ?_ ?_
  · cases r.default with
    | none => exact iff_of_true nofun nofun
    | some d =>
      have hlegal : (Stmt.declare (.whole d) (.member name "default")).legal = true ↔
          Writable d ["default"] := by
        simp [default_writable, Stmt.legal, Target.legal, Expression.legal, hname,
          default_identifier]
      simpa using hlegal
  · rw [← named_legal]
    split
    · rename_i hempty
      rw [List.isEmpty_iff.mp hempty]
      exact iff_of_true nofun nofun
    · rw [List.forall_mem_singleton, Stmt.legal, Expression.legal, hname, Bool.and_true]
      exact List.all_eq_true

/-- The statements for an import are a program exactly if its names and properties can be written as
they are. -/
theorem group_legal (config : Config) (r : ImportRecord) (n : Nat) :
    (∀ stmt ∈ r.group config, stmt.legal = true) ↔
      ∀ binding ∈ r.bindings n, Writable binding.1 binding.2.path := by
  have hparts : ∀ fields, (∀ stmt ∈ [Stmt.declare (.parts fields) (r.call config)],
      stmt.legal = true) ↔ ∀ f ∈ fields, f.legal = true := by
    intro fields
    rw [List.forall_mem_singleton, Stmt.legal, ImportRecord.call, Expression.legal, Bool.and_true]
    exact List.all_eq_true
  unfold ImportRecord.group ImportRecord.bindings
  rcases bindingForm_cases r with ⟨hform, hnamespace, hdefault, hnamed⟩ |
    ⟨hform, hnamespace, ⟨d, hdefault⟩, hnamed⟩ | ⟨hform, hnamespace, -⟩ | ⟨hform, name, hnamespace⟩
  · rw [hform, hnamespace, hdefault, hnamed]
    refine iff_of_true (fun stmt hstmt => ?_) nofun
    rw [List.mem_singleton.mp hstmt]
    rfl
  · rw [hform, hnamespace, hdefault, hnamed]
    exact (hparts _).trans (defaults_legal (some d) n)
  · rw [hform, hnamespace]
    refine (hparts _).trans ?_
    rw [List.forall_mem_append, defaults_legal _ n, named_legal _ n, ← List.forall_mem_append]
    rfl
  · rw [hform, hnamespace]
    have hwhole : (Stmt.declare (.whole name) (r.call config)).legal = true ↔
        isIdentifierName name = true := by
      rw [Stmt.legal, ImportRecord.call, Expression.legal, Bool.and_true]
      rfl
    show (∀ stmt ∈ Stmt.declare (.whole name) (r.call config) :: r.fromNamespace name, _) ↔
      ∀ binding ∈ (name, (⟨n, []⟩ : Found)) :: _, _
    rw [List.forall_mem_cons, List.forall_mem_cons, whole_writable, hwhole]
    exact and_congr_right fun hname => fromNamespace_legal r hname n

/-! ### The imports of a module -/

def boundBy? : ImportEntry → Option (String × List String)
  | .defaultAs name => some (name, ["default"])
  | .namespaceAs name => some (name, [])
  | .named imported name typeOnly => if typeOnly then none else some (name, [imported])

/-- An import that is evaluated, and not only there for types. -/
structure ValueImport where
  source : String
  entries : List ImportEntry

def valueImport? (item : Item) : Option ValueImport :=
  match item.shape with
  | .importFrom source entries typeOnly =>
    if typeOnly || (!entries.isEmpty && entries.all Setting.isTypeEntry) then none
    else some ⟨source, entries⟩
  | _ => none

def valueImports (m : Module) : List ValueImport := m.items.filterMap valueImport?

def resolutionFor (config : Config) (specifier : String) : Resolution :=
  if config.isHostNative specifier then .hostNative else .generic

namespace ValueImport

def bound (i : ValueImport) : List (String × List String) := i.entries.filterMap boundBy?

def call (config : Config) (i : ValueImport) : String × String :=
  resolver config (resolutionFor config i.source) i.source

def record (config : Config) (i : ValueImport) : ImportRecord :=
  Setting.importRecord i.source (resolutionFor config i.source) i.entries

end ValueImport

def promised (imports : List ValueImport) (n : Nat) : List (String × Found) :=
  (imports.zipIdx n).flatMap fun (i, call) => i.bound.map fun (name, path) => (name, ⟨call, path⟩)

section

variable {source : String} {resolution : Resolution} {entries : List ImportEntry} {m : Module}
  {s : Setting} {first : Nat} {item : Item} {c : Contribution}

def withEntry (record : ImportRecord) : ImportEntry → ImportRecord
  | .defaultAs name => { record with default := some name }
  | .namespaceAs name => { record with namespaceName := some name }
  | .named imported name typeOnly =>
    if typeOnly then record else { record with named := record.named ++ [⟨imported, name⟩] }

theorem importRecord_eq (source : String) (resolution : Resolution) (entries : List ImportEntry) :
    Setting.importRecord source resolution entries =
      entries.foldl withEntry { source, resolution } := rfl

def namedBy? : ImportEntry → Option NamedBinding
  | .named imported name typeOnly => if typeOnly then none else some ⟨imported, name⟩
  | _ => none

theorem foldl_named (h : ∀ e ∈ entries, Read.IsNamed e) (r : ImportRecord) :
    entries.foldl withEntry r = { r with named := r.named ++ entries.filterMap namedBy? } := by
  induction entries generalizing r with
  | nil => rw [List.filterMap_nil, List.append_nil]; rfl
  | cons e entries ih =>
    obtain ⟨⟨imported, name, typeOnly, rfl⟩, hmore⟩ := List.forall_mem_cons.mp h
    rw [List.foldl_cons, ih hmore]
    cases typeOnly with
    | true => rfl
    | false =>
      show ({ r with named := (r.named ++ [_]) ++ _ } : ImportRecord) = _
      rw [List.append_assoc]
      rfl

theorem boundBy?_named (h : ∀ e ∈ entries, Read.IsNamed e) :
    entries.filterMap boundBy? =
      (entries.filterMap namedBy?).map fun b => (b.name, [b.imported]) := by
  rw [List.map_filterMap]
  refine List.filterMap_congr fun e he => ?_
  obtain ⟨imported, name, typeOnly, rfl⟩ := h e he
  cases typeOnly <;> rfl

theorem importRecord_bindings (source : String) (resolution : Resolution)
    (h : ImportClause entries) (n : Nat) :
    ((Setting.importRecord source resolution entries).bindings n).Perm
      ((entries.filterMap boundBy?).map fun (name, path) => (name, (⟨n, path⟩ : Found))) := by
  obtain ⟨first, rest, rfl, hrest⟩ := h
  have hfirst : (first.map ImportEntry.defaultAs).toList.foldl withEntry { source, resolution } =
      { source, resolution, default := first } := by
    cases first <;> rfl
  have hdefault : (((first.map ImportEntry.defaultAs).toList.filterMap boundBy?).map
      fun (name, path) => (name, (⟨n, path⟩ : Found))) =
        (first.map fun name => (name, (⟨n, ["default"]⟩ : Found))).toList := by
    cases first <;> rfl
  rw [importRecord_eq, List.foldl_append, hfirst, List.filterMap_append, List.map_append, hdefault]
  rcases hrest with ⟨name, rfl⟩ | hnamed
  · have hbindings : ImportRecord.bindings
        { source, resolution, default := first, namespaceName := some name } n =
          (name, ⟨n, []⟩) :: (first.map fun name => (name, (⟨n, ["default"]⟩ : Found))).toList := by
      show _ :: (_ ++ []) = _
      rw [List.append_nil]
    show (ImportRecord.bindings { source, resolution, default := first, namespaceName := some name }
      n).Perm _
    rw [hbindings]
    exact (List.perm_append_singleton _ _).symm
  · rw [foldl_named hnamed, boundBy?_named hnamed, List.map_map]
    exact .refl _

theorem importRecord_source (source : String) (resolution : Resolution)
    (entries : List ImportEntry) :
    (Setting.importRecord source resolution entries).source = source ∧
      (Setting.importRecord source resolution entries).resolution = resolution := by
  have hkeep : ∀ r : ImportRecord, (entries.foldl withEntry r).source = r.source ∧
      (entries.foldl withEntry r).resolution = r.resolution := by
    induction entries with
    | nil => exact fun r => ⟨rfl, rfl⟩
    | cons e entries ih =>
      intro r
      have hentry : (withEntry r e).source = r.source ∧
          (withEntry r e).resolution = r.resolution := by
        cases e with
        | named imported name typeOnly => cases typeOnly <;> exact ⟨rfl, rfl⟩
        | _ => exact ⟨rfl, rfl⟩
      obtain ⟨hsource, hresolution⟩ := ih (withEntry r e)
      exact ⟨hsource.trans hentry.1, hresolution.trans hentry.2⟩
  rw [importRecord_eq]
  exact hkeep _

theorem sideEffectOnly_iff (r : ImportRecord) (n : Nat) :
    r.bindingForm = .sideEffectOnly ↔ r.bindings n = [] := by
  unfold ImportRecord.bindings
  rcases bindingForm_cases r with ⟨hform, hnamespace, hdefault, hnamed⟩ |
    ⟨hform, hnamespace, ⟨d, hdefault⟩, hnamed⟩ | ⟨hform, hnamespace, hnamed⟩ |
    ⟨hform, name, hnamespace⟩
  · simp [hform, hnamespace, hdefault, hnamed]
  · simp [hform, hnamespace, hdefault, hnamed]
  · simp [hform, hnamespace, hnamed]
  · simp [hform, hnamespace]

theorem erased_iff (source : String) (resolution : Resolution) (h : ImportClause entries) :
    (entries.any Setting.isTypeEntry &&
      (Setting.importRecord source resolution entries).bindingForm = .sideEffectOnly) =
        (!entries.isEmpty && entries.all Setting.isTypeEntry) := by
  have hnone : ∀ e, boundBy? e = none ↔ Setting.isTypeEntry e = true := by
    intro e
    cases e with
    | named imported name typeOnly => cases typeOnly <;> simp [boundBy?, Setting.isTypeEntry]
    | _ => simp [boundBy?, Setting.isTypeEntry]
  have hall : (Setting.importRecord source resolution entries).bindingForm = .sideEffectOnly ↔
      entries.all Setting.isTypeEntry = true := by
    have hlength := (importRecord_bindings source resolution h 0).length_eq
    rw [sideEffectOnly_iff _ 0, ← List.length_eq_zero_iff, hlength, List.length_map,
      List.length_eq_zero_iff, List.filterMap_eq_nil_iff, List.all_eq_true]
    exact forall₂_congr fun e _ => hnone e
  by_cases htypes : entries.all Setting.isTypeEntry = true
  · have hany : entries.any Setting.isTypeEntry = !entries.isEmpty := by
      cases entries with
      | nil => rfl
      | cons e entries =>
        have hfirst := List.all_eq_true.mp htypes e List.mem_cons_self
        rw [List.any_cons, hfirst]
        rfl
    rw [hany, decide_eq_true (hall.mpr htypes), htypes]
  · have hform : ¬(Setting.importRecord source resolution entries).bindingForm = .sideEffectOnly :=
      fun hform => htypes (hall.mp hform)
    rw [decide_eq_false hform, Bool.eq_false_iff.mpr htypes, Bool.and_false, Bool.and_false]

/-! ### The imports that are converted -/

theorem resolve_eq (s : Setting) (specifier : String) :
    (s.resolve specifier).1 = resolutionFor s.config specifier ∧
      (s.resolve specifier).2.imports = [] := by
  unfold Setting.resolve resolutionFor
  split
  · exact ⟨rfl, rfl⟩
  · split
    · exact ⟨rfl, rfl⟩
    · exact ⟨rfl, rfl⟩

theorem convertImport_imports (span : Span) (typeOnly : Bool) (h : ImportClause entries) :
    (s.convertImport span source entries typeOnly).imports =
      if typeOnly || (!entries.isEmpty && entries.all Setting.isTypeEntry) then []
      else [ValueImport.record s.config ⟨source, entries⟩] := by
  obtain ⟨hresolution, hfound⟩ := resolve_eq s source
  unfold Setting.convertImport
  cases hresolve : s.resolve source with
  | mk resolution found =>
    rw [hresolve] at hresolution hfound
    cases typeOnly with
    | true => rfl
    | false =>
      have herased := erased_iff source resolution h
      have hadded : (([] : List ImportRecord) ++ found.imports) ++
          (if (entries.any Setting.isTypeEntry && (Setting.importRecord source resolution
            entries).bindingForm = .sideEffectOnly) = true then []
          else [Setting.importRecord source resolution entries]) =
            if (!entries.isEmpty && entries.all Setting.isTypeEntry) = true then []
            else [Setting.importRecord source resolution entries] := by
        rw [hfound, herased, List.nil_append, List.nil_append]
      rw [ValueImport.record, ← hresolution]
      exact hadded

theorem convertExport_imports {span : Span} {form : ExportForm}
    (h : s.convertExport first span form = .ok c) : c.imports = [] := by
  have hbound : ∀ name, s.bindDeclaration span name = .ok c → c.imports = [] := by
    intro name h
    obtain ⟨keyword, -, h⟩ := bind_ok h
    cases h
    rfl
  have hcall : ∀ source, (s.resolutionOf source).2.imports = [] := fun source =>
    (resolve_eq s source).2
  cases form with
  | function name | classForm name => exact hbound name h
  | «variable» declarators =>
    obtain ⟨removal, -, h⟩ := bind_ok h
    cases h
    rfl
  | localList entries =>
    cases h
    rfl
  | reexportList entries source =>
    cases h
    unfold Setting.convertReexports
    dsimp only
    split
    · rfl
    · show (s.resolutionOf source).2.imports ++ [] = []
      rw [hcall, List.append_nil]
  | default name =>
    obtain ⟨replaced, -, h⟩ := bind_ok h
    cases h
    rfl
  | wildcard source =>
    cases h
    show (s.resolutionOf source).2.imports ++ [] = []
    rw [hcall, List.append_nil]
  | localDeclaration name =>
    obtain ⟨removal, -, h⟩ := bind_ok h
    cases h
    rfl
  | typeOnly =>
    cases h
    rfl

theorem convertItem_imports (hshape : ClauseShaped item.shape)
    (h : s.convertItem first item = .ok c) :
    c.imports = ((valueImport? item).map (ValueImport.record s.config)).toList := by
  cases hform : exportForm? item.shape with
  | some form =>
    have hnone : valueImport? item = none := by
      unfold valueImport?
      split
      · rename_i hsource
        rw [hsource] at hform
        cases hform
      · rfl
    rw [convertItem_export s first item hform] at h
    rw [convertExport_imports h, hnone]
    rfl
  | none =>
    obtain ⟨span, shape⟩ := item
    cases shape with
    | importFrom source entries typeOnly =>
      cases h
      rw [convertImport_imports span typeOnly (hshape source entries typeOnly rfl)]
      unfold valueImport?
      dsimp only
      split <;> rfl
    | statement | importEquals | exportAssignment =>
      cases h
      rfl
    | _ => cases hform

theorem convertItems_imports {items : List Item} {done all : Contribution}
    (hshapes : ∀ item ∈ items, ClauseShaped item.shape)
    (h : s.convertItems done items = (all, none)) :
    all.imports = done.imports ++
      (items.filterMap valueImport?).map (ValueImport.record s.config) := by
  induction items generalizing done with
  | nil =>
    cases h
    rw [List.filterMap_nil, List.map_nil, List.append_nil]
  | cons item items ih =>
    obtain ⟨hshape, hmore⟩ := List.forall_mem_cons.mp hshapes
    rw [Setting.convertItems] at h
    split at h
    · rename_i next hnext
      have happend : (done ++ next).imports = done.imports ++ next.imports := rfl
      rw [ih hmore h, happend, convertItem_imports hshape hnext, List.append_assoc]
      congr 1
      cases hvalue : valueImport? item with
      | none => rw [List.filterMap_cons_none hvalue]; rfl
      | some i => rw [List.filterMap_cons_some hvalue]; rfl
    · cases h

theorem valueImports_clause (hshapes : ∀ item ∈ m.items, ClauseShaped item.shape)
    {i : ValueImport} (hi : i ∈ valueImports m) : ImportClause i.entries := by
  obtain ⟨item, hitem, hvalue⟩ := List.mem_filterMap.mp hi
  unfold valueImport? at hvalue
  split at hvalue
  · rename_i hshape
    split at hvalue
    · cases hvalue
    · cases hvalue
      exact hshapes item hitem _ _ _ hshape
  · cases hvalue

theorem record_call (config : Config) (i : ValueImport) :
    resolver config (i.record config).resolution (i.record config).source = i.call config := by
  obtain ⟨hsource, hresolution⟩ :=
    importRecord_source i.source (resolutionFor config i.source) i.entries
  rw [ValueImport.record, hsource, hresolution, ValueImport.call]

theorem bindingsOf_perm (config : Config) {imports : List ValueImport}
    (h : ∀ i ∈ imports, ImportClause i.entries) (n : Nat) :
    (bindingsOf (imports.map (ValueImport.record config)) n).Perm (promised imports n) := by
  induction imports generalizing n with
  | nil => exact .refl _
  | cons i imports ih =>
    obtain ⟨hfirst, hmore⟩ := List.forall_mem_cons.mp h
    have hhead : ((i.record config).bindings n).Perm
        (i.bound.map fun (name, path) => (name, (⟨n, path⟩ : Found))) :=
      importRecord_bindings _ _ hfirst n
    exact hhead.append (ih hmore (n + 1))

end

/-! ### The section of imports in the wrapper -/

/-- The names that the head of the wrapper declares. -/
def headNames (config : Config) : List String :=
  [config.exportsIdent, config.moduleIdent, config.importMetaIdent]

def Declarable (config : Config) (imports : List ValueImport) : Prop :=
  ((promised imports 0).map Prod.fst).Nodup ∧ ∀ name ∈ (promised imports 0).map Prod.fst,
    name ∉ headNames config ++ (imports.map (ValueImport.call config)).map Prod.fst

instance (config : Config) (imports : List ValueImport) : Decidable (Declarable config imports) :=
  inferInstanceAs (Decidable (_ ∧ _))

/-- Groups of statements do what imports ask for. -/
structure Binds (config : Config) (imports : List ValueImport) (groups : List (List Stmt)) : Prop where
  resolves : List.Forall₂ (fun i group => group.flatMap Stmt.calls = [i.call config]) imports groups
  runs : Declarable config imports → ∃ bound, Scope.outcome (headNames config) groups.flatten =
    some ⟨imports.map (ValueImport.call config), bound⟩ ∧ bound.Perm (promised imports 0)
  stuck : ¬Declarable config imports → Scope.outcome (headNames config) groups.flatten = none

variable {imports : List ValueImport}

theorem outcome_eq (config : Config) (imports : List ValueImport) :
    Scope.outcome (headNames config)
        ((imports.map (ValueImport.record config)).flatMap (ImportRecord.group config)) =
      (Scope.extend ⟨[], []⟩ (imports.map (ValueImport.call config))
        (bindingsOf (imports.map (ValueImport.record config)) 0)).filter fun s =>
          (s.bound.map Prod.fst).all fun name => name ∉ headNames config ++ s.calls.map Prod.fst := by
  have hadds := groups_add config (imports.map (ValueImport.record config)) ⟨[], []⟩
    List.nodup_nil trivial
  rw [List.map_map] at hadds
  have hcalls : imports.map ((fun r : ImportRecord => resolver config r.resolution r.source) ∘
      ValueImport.record config) = imports.map (ValueImport.call config) :=
    List.map_congr_left fun i _ => record_call config i
  rw [Scope.outcome, hadds, hcalls]
  rfl

theorem declarable_iff (h : ∀ i ∈ imports, ImportClause i.entries) : Declarable config imports ↔
    ((bindingsOf (imports.map (ValueImport.record config)) 0).map Prod.fst).Nodup ∧
      ((bindingsOf (imports.map (ValueImport.record config)) 0).map Prod.fst).all (fun name =>
        name ∉ headNames config ++ (imports.map (ValueImport.call config)).map Prod.fst) = true := by
  have hnames := (bindingsOf_perm config h 0).map Prod.fst
  rw [Declarable, hnames.nodup_iff, List.all_eq_true]
  refine and_congr_right fun _ => forall_congr' fun name => ?_
  rw [hnames.mem_iff, decide_eq_true_eq]

theorem groups_bind (config : Config) (h : ∀ i ∈ imports, ImportClause i.entries) :
    Binds config imports (imports.map fun i => (i.record config).group config) := by
  have hflatten : (imports.map fun i => (i.record config).group config).flatten =
      (imports.map (ValueImport.record config)).flatMap (ImportRecord.group config) := by
    rw [List.flatMap_map, List.flatMap_def]
  refine ⟨?_, fun hfree => ?_, fun hfree => ?_⟩
  · rw [List.forall₂_map_right_iff, List.forall₂_same]
    intro i _
    rw [group_calls, record_call]
  · obtain ⟨hnodup, hapart⟩ := (declarable_iff h).mp hfree
    refine ⟨_, ?_, bindingsOf_perm config h 0⟩
    rw [hflatten, outcome_eq, Scope.extend, List.nil_append, List.nil_append, if_pos hnodup]
    exact Option.filter_some_pos hapart
  · rw [declarable_iff h] at hfree
    rw [hflatten, outcome_eq, Scope.extend, List.nil_append, List.nil_append]
    split
    · rename_i hnodup
      refine Option.filter_some_neg (Bool.eq_false_iff.mpr fun hapart => ?_)
      exact hfree ⟨hnodup, hapart⟩
    · rfl

theorem groups_legal (config : Config) (h : ∀ i ∈ imports, ImportClause i.entries) :
    (∀ group ∈ imports.map fun i => (i.record config).group config, ∀ stmt ∈ group,
      stmt.legal = true) ↔ ∀ i ∈ imports, ∀ binding ∈ i.bound, Writable binding.1 binding.2 := by
  rw [List.forall_mem_map]
  refine forall₂_congr fun i hi => ?_
  have hperm : ((i.record config).bindings 0).Perm
      (i.bound.map fun (name, path) => (name, (⟨0, path⟩ : Found))) :=
    importRecord_bindings _ _ (h i hi) 0
  rw [group_legal config _ 0]
  constructor
  · intro hall binding hbinding
    exact hall _ (hperm.mem_iff.mpr (List.mem_map_of_mem hbinding))
  · intro hall binding hbinding
    obtain ⟨named, hnamed, rfl⟩ := List.mem_map.mp (hperm.mem_iff.mp hbinding)
    exact hall named hnamed

/-- The text of groups, a line each, with an empty line behind them. -/
def sectionOf (groups : List (List Stmt)) : String :=
  String.join (groups.map fun group => textOf group ++ "\n") ++ if groups.isEmpty then "" else "\n"

theorem importSection_eq (config : Config) (records : List ImportRecord) :
    importSection config records = sectionOf (records.map (ImportRecord.group config)) := by
  have hlines : records.map (fun r => r.statement config ++ "\n") =
      (records.map (ImportRecord.group config)).map fun group => textOf group ++ "\n" := by
    rw [List.map_map]
    exact List.map_congr_left fun r _ => by rw [statement_eq]; rfl
  rw [importSection, sectionOf, hlines, List.isEmpty_map]

/-- In front of its body, the wrapper of a module has a group of statements for each import that is
evaluated. They are a program exactly if all names and properties can be written as they are. -/
theorem imports_bound {bodyLength : Nat} {code : String} {m : Module} {c : Converted}
    (hparse : Module.parse code = .ok m) (h : (convert config path bodyLength m).1 = .ok c) :
    ∃ groups, Binds config (valueImports m) groups ∧
      ((∀ group ∈ groups, ∀ stmt ∈ group, stmt.legal = true) ↔
        ∀ i ∈ valueImports m, ∀ binding ∈ i.bound, Writable binding.1 binding.2) ∧
      c.wrap config path = wrapperHead config path ++ sectionOf groups ++
        String.ofList (trimEnd c.body.toList) ++ "\n\n" ++
        registration config path c.hasExports ++
        "  return " ++ config.moduleIdent ++ ";\n\x7d)();\n" := by
  have hclauses : ∀ i ∈ valueImports m, ImportClause i.entries :=
    fun i hi => valueImports_clause (parse_clauses hparse) hi
  obtain ⟨done, hdone, -, hrecords⟩ := convert_done h
  have himports : c.imports = (valueImports m).map (ValueImport.record config) := by
    rw [hrecords, convertItems_imports (parse_clauses hparse) hdone]
    rfl
  refine ⟨_, groups_bind config hclauses, groups_legal config hclauses, ?_⟩
  rw [Converted.wrap, importSection_eq, himports, List.map_map]
  rfl

theorem imports_bound_mixed : ∃ m c groups,
    Module.parse "import d,\x7bp as q,'s t'as r,type V,t\x7dfrom'v';f()" = .ok m ∧
    (convert {} "/a.ts" 47 m).1 = .ok c ∧
    (∀ group ∈ groups, ∀ stmt ∈ group, Stmt.legal stmt = true) ∧
    ∃ bound, Scope.outcome (headNames {}) (List.flatten groups) =
      some ⟨[("__qjs_require", "v")], bound⟩ ∧
        bound.Perm [("d", ⟨0, ["default"]⟩), ("q", ⟨0, ["p"]⟩), ("r", ⟨0, ["s t"]⟩),
          ("t", ⟨0, ["t"]⟩)] := by
  obtain ⟨m, hparse, hm⟩ :
      ∃ m, Module.parse "import d,\x7bp as q,'s t'as r,type V,t\x7dfrom'v';f()" = .ok m ∧
        (decide ((valueImports m).map (ValueImport.call {}) = [("__qjs_require", "v")] ∧
          promised (valueImports m) 0 = [("d", ⟨0, ["default"]⟩), ("q", ⟨0, ["p"]⟩),
            ("r", ⟨0, ["s t"]⟩), ("t", ⟨0, ["t"]⟩)] ∧ Declarable {} (valueImports m) ∧
          ∀ i ∈ valueImports m, ∀ binding ∈ i.bound, Writable binding.1 binding.2) &&
            answers (fun _ => true) (convert {} "/a.ts" 47 m).1) = true :=
    exists_of_answers (by decide +kernel)
  obtain ⟨himports, hanswers⟩ := (Bool.and_eq_true _ _).mp hm
  obtain ⟨hcalls, hpromised, hfree, hwritable⟩ := of_decide_eq_true himports
  obtain ⟨c, hc, -⟩ := exists_of_answers hanswers
  obtain ⟨groups, hbinds, hlegal, -⟩ := imports_bound hparse hc
  obtain ⟨bound, houtcome, hperm⟩ := hbinds.runs hfree
  rw [hcalls] at houtcome
  rw [hpromised] at hperm
  exact ⟨m, c, groups, hparse, hc, hlegal.mpr hwritable, bound, houtcome, hperm⟩

/-- A name that is not one in the language becomes a key as it is. -/
theorem superscript_bare : ∃ m c, Module.parse "import \x7b 'a²' as x \x7d from 'm'" = .ok m ∧
    (valueImports m).map ValueImport.bound = [[("x", ["a²"])]] ∧
    (convert {} "/a.js" 30 m).1 = .ok c ∧
    importSection {} c.imports = "const \x7b a²: x \x7d = await __qjs_require(\"m\");\n\n" ∧
    isIdentifierName "a²" = false := by
  obtain ⟨m, hparse, hm⟩ :
      ∃ m, Module.parse "import \x7b 'a²' as x \x7d from 'm'" = .ok m ∧
        (decide ((valueImports m).map ValueImport.bound = [[("x", ["a²"])]]) &&
          answers (fun c => decide (c.imports = [⟨"m", .generic, none, none, [⟨"a²", "x"⟩]⟩]))
            (convert {} "/a.js" 30 m).1) = true :=
    exists_of_answers (by decide +kernel)
  obtain ⟨hbound, hanswers⟩ := (Bool.and_eq_true _ _).mp hm
  obtain ⟨c, hc, himports⟩ := exists_of_answers hanswers
  refine ⟨m, c, hparse, of_decide_eq_true hbound, hc, ?_, by decide +kernel⟩
  rw [of_decide_eq_true himports]
  decide +kernel

end ModuleHost.Wrap
