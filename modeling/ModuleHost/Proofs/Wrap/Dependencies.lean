import ModuleHost.Proofs.Wrap.Contributions

/-! The modules that a module depends on: which of its imports and of its exports from another module
the wrapper resolves, and for which of them it has a diagnostic. -/

namespace ModuleHost.Wrap

open ModuleHost.Syntax ModuleHost.Text ModuleHost.Wrap.Edit

/-- The specifier of an import or of an export from another module. -/
def specifier? : ItemShape → Option String
  | .importFrom source _ _ | .exportList _ (some source) _ | .exportAll source _ => some source
  | _ => none

def isTypeExport : ExportEntry → Bool
  | .named _ _ typeOnly => typeOnly
  | .namespaceAs _ => false

def importsTypes : ItemShape → Bool
  | .importFrom _ entries typeOnly =>
    !typeOnly && (!entries.isEmpty && entries.all Setting.isTypeEntry)
  | _ => false

/-- A declaration is for types as a whole, or its list has entries, all of them for types. -/
def forTypes : ItemShape → Bool
  | .importFrom _ entries typeOnly =>
    typeOnly || (!entries.isEmpty && entries.all Setting.isTypeEntry)
  | .exportList entries _ typeOnly => typeOnly || (!entries.isEmpty && entries.all isTypeExport)
  | .exportAll _ typeOnly => typeOnly
  | _ => false

def exportsNothing : ItemShape → Bool
  | .exportList entries _ _ => entries.isEmpty
  | _ => false

def Unrecognized (config : Config) (specifier : String) : Prop :=
  config.isHostNative specifier = false ∧ Config.begins config.toolingPrefix specifier = true ∧
    ∀ known ∈ config.knownTooling, Config.covers known specifier = false

instance (config : Config) (specifier : String) : Decidable (Unrecognized config specifier) :=
  inferInstanceAs (Decidable (_ ∧ _))

variable {s : Setting} {span : Span} {first : Nat} {item : Item} {part : Contribution}
  {parts : List Contribution} {config : Config} {path source : String}
  {entries : List ExportEntry} {bodyLength : Nat} {code : String} {m : Module} {c : Converted}

def warning (config : Config) (path specifier : String) : List Diagnostic :=
  if Unrecognized config specifier then [.unrecognizedInternal specifier path] else []

theorem unrecognized_iff (config : Config) (specifier : String) : Unrecognized config specifier ↔
    config.isHostNative specifier = false ∧ config.isUnknownTooling specifier = true := by
  rw [Unrecognized, Config.isUnknownTooling, Bool.and_eq_true, Bool.not_eq_true', List.any_eq_false]
  simp only [Bool.not_eq_true]

theorem resolve_reports (s : Setting) (specifier : String) :
    (s.resolve specifier).2.diagnostics = warning s.config s.path specifier ∧
      (s.resolve specifier).2.hasExports = false := by
  unfold Setting.resolve warning
  by_cases hnative : s.config.isHostNative specifier = true
  · simp [hnative, unrecognized_iff]
  · by_cases hunknown : s.config.isUnknownTooling specifier = true
    · simp [hnative, hunknown, unrecognized_iff]
    · simp [hnative, hunknown, unrecognized_iff]

theorem found_resolves (s : Setting) (source : String) {made : Contribution} {e : Edit}
    (he : e ∈ made.edits) (hoccurs : Occurs (s.resolutionOf source).1 e.text)
    (hnone : made.diagnostics = []) :
    ((s.resolutionOf source).2 ++ made).Resolves s.config source ∧
      ((s.resolutionOf source).2 ++ made).diagnostics = warning s.config s.path source := by
  have hfound := (resolutionOf_found s source made).1
  rw [resolutionOf_awaited] at hoccurs
  refine ⟨.inr ⟨e, hfound ▸ he, hoccurs⟩, ?_⟩
  have happend : ((s.resolutionOf source).2 ++ made).diagnostics =
      (s.resolve source).2.diagnostics ++ made.diagnostics := rfl
  rw [happend, hnone, List.append_nil, (resolve_reports s source).1]

theorem lists_nothing_iff (entries : List ExportEntry) :
    ((entries.filterMap ExportEntry.pair?).isEmpty &&
      (entries.filterMap ExportEntry.namespaceName?).isEmpty) = entries.all isTypeExport := by
  induction entries with
  | nil => rfl
  | cons entry entries ih =>
    cases entry with
    | namespaceAs name =>
      rw [List.filterMap_cons_some (f := ExportEntry.namespaceName?) rfl, List.isEmpty_cons,
        Bool.and_false]
      rfl
    | named listed exported typeOnly =>
      rw [List.filterMap_cons_none (f := ExportEntry.namespaceName?) rfl, List.all_cons, ← ih]
      cases typeOnly with
      | true =>
        rw [List.filterMap_cons_none (f := ExportEntry.pair?) rfl]
        rfl
      | false =>
        rw [List.filterMap_cons_some (f := ExportEntry.pair?) rfl]
        rfl

theorem convertReexports_types (s : Setting) (first : Nat) (item : Item) (source : String)
    (h : entries.all isTypeExport = true) :
    Erases s item (s.convertReexports first item.span entries source) ∧
      (s.convertReexports first item.span entries source).diagnostics = [] := by
  unfold Setting.convertReexports
  dsimp only
  rw [if_pos ((lists_nothing_iff entries).trans h)]
  exact ⟨erases_replaced s item, rfl⟩

theorem assignment_occurs (s : Setting) (name value : String) :
    Occurs value (s.assignment name value) := ((Occurs.refl value).append_left _).append_right ";"

theorem convertReexports_resolves (s : Setting) (first : Nat) (span : Span) (source : String)
    (h : entries.all isTypeExport = false) :
    (s.convertReexports first span entries source).Resolves s.config source ∧
      (s.convertReexports first span entries source).diagnostics =
        warning s.config s.path source := by
  obtain ⟨call, hcall⟩ : ∃ call, call = (s.resolutionOf source).1 := ⟨_, rfl⟩
  obtain ⟨pairs, hpairs⟩ : ∃ pairs, pairs = entries.filterMap ExportEntry.pair? := ⟨_, rfl⟩
  obtain ⟨namespaces, hnamespaces⟩ :
    ∃ namespaces, namespaces = entries.filterMap ExportEntry.namespaceName? := ⟨_, rfl⟩
  have hsome : ¬(pairs.isEmpty && namespaces.isEmpty) = true := by
    rw [hpairs, hnamespaces, lists_nothing_iff, h]
    exact Bool.false_ne_true
  -- one of the statements has the call: an assignment of the namespace, or else the block
  have hstatement : ∃ statement ∈ namespaces.map (fun name => s.assignment name call) ++
      (if pairs.isEmpty then [] else [s.reexportBlock call first pairs]), Occurs call statement := by
    cases namespaces with
    | cons name namespaces =>
      exact ⟨_, List.mem_append_left _ List.mem_cons_self, assignment_occurs s name call⟩
    | nil =>
      have hempty : ¬pairs.isEmpty = true := fun hempty => hsome (by rw [hempty]; rfl)
      rw [if_neg hempty]
      refine ⟨_, List.mem_singleton_self _, Occurs.inBraces ?_⟩
      exact (((Occurs.refl call).append_left _).append_right _).append_right _
  obtain ⟨statement, hmem, hoccurs⟩ := hstatement
  have hlist := hoccurs.intercalate hmem " "
  unfold Setting.convertReexports
  dsimp only
  rw [← hpairs, ← hnamespaces, if_neg hsome]
  rw [hcall] at hlist
  exact found_resolves s source (List.mem_singleton_self _) hlist rfl

theorem wildcard_resolves (h : s.convertExport first span (.wildcard source) = .ok part) :
    part.Resolves s.config source ∧ part.diagnostics = warning s.config s.path source := by
  have hoccurs : Occurs (s.resolutionOf source).1 ("Object.assign(" ++ s.config.exportsIdent ++
      ", " ++ (s.resolutionOf source).1 ++ ");") := ((Occurs.refl _).append_left _).append_right _
  cases h
  exact found_resolves s source (List.mem_singleton_self _) hoccurs rfl

def ExportForm.specifier? : ExportForm → Option String
  | .reexportList _ source | .wildcard source => some source
  | _ => none

theorem form_specifier {shape : ItemShape} {form : ExportForm} (h : specifier? shape = none)
    (hform : exportForm? shape = some form) : form.specifier? = none := by
  cases shape with
  | exportDecl decl =>
    cases hform
    cases decl with
    | function name declare hasBody => cases declare <;> cases hasBody <;> rfl
    | «variable» declare declarators => cases declare <;> rfl
    | classDecl name declare | enumeration name declare => cases declare <;> rfl
    | namespaceDecl name declare => cases declare <;> cases name <;> rfl
    | interface | typeAlias => rfl
  | exportList entries source typeOnly =>
    cases source with
    | some source => cases h
    | none =>
      cases hform
      cases typeOnly <;> rfl
  | exportDefaultDecl decl =>
    cases hform
    cases decl <;> rfl
  | exportAll source typeOnly => cases h
  | exportDefaultExpr | exportAsNamespace =>
    cases hform
    rfl
  | _ => cases hform

theorem convertExport_unreported {form : ExportForm} (h : s.convertExport first span form = .ok part)
    (hform : form.specifier? = none) : part.diagnostics = [] := by
  have hbound : ∀ name, s.bindDeclaration span name = .ok part → part.diagnostics = [] := by
    intro name h
    obtain ⟨keyword, -, h⟩ := bind_ok h
    cases h
    rfl
  cases form with
  | function name | classForm name => exact hbound name h
  | «variable» declarators | default name | localDeclaration name =>
    obtain ⟨replaced, -, h⟩ := bind_ok h
    cases h
    rfl
  | localList entries | typeOnly =>
    cases h
    rfl
  | reexportList entries source | wildcard source => cases hform

theorem convertImport_finds (s : Setting) (span : Span) (source : String)
    (entries : List ImportEntry) :
    (s.convertImport span source entries false).edits = [s.removeItem span] ∧
      (s.convertImport span source entries false).diagnostics = warning s.config s.path source ∧
      (s.convertImport span source entries false).hasExports = false := by
  obtain ⟨hreports, hexports⟩ := resolve_reports s source
  obtain ⟨imports, hresolved⟩ := convertImport_resolved s span source entries
  rw [hresolved]
  refine ⟨?_, ?_, ?_⟩
  · rw [append_edits, append_edits, (resolve_edits s source).1]
    rfl
  · show [] ++ (s.resolve source).2.diagnostics ++ [] = _
    rw [hreports, List.nil_append, List.append_nil]
  · show (false || (s.resolve source).2.hasExports || false) = false
    rw [hexports]
    rfl

/-- What becomes of a declaration and its specifier. -/
inductive Treated (s : Setting) (item : Item) (part : Contribution) : Prop where
  | unsourced : specifier? item.shape = none → part.diagnostics = [] → Treated s item part
  | erased {source : String} : specifier? item.shape = some source →
    (forTypes item.shape || exportsNothing item.shape) = true → Erases s item part →
    part.diagnostics = (if importsTypes item.shape then warning s.config s.path source else []) →
    Treated s item part
  | resolved {source : String} : specifier? item.shape = some source →
    (forTypes item.shape || exportsNothing item.shape) = false → part.Resolves s.config source →
    part.diagnostics = warning s.config s.path source → Treated s item part

theorem import_treated {entries : List ImportEntry} (hclause : ImportClause entries) :
    Treated s ⟨span, .importFrom source entries false⟩
      (s.convertImport span source entries false) := by
  obtain ⟨hedits, hreports, hexports⟩ := convertImport_finds s span source entries
  have himports : (s.convertImport span source entries false).imports = _ :=
    convertImport_imports span false hclause
  rw [Bool.false_or] at himports
  cases htypes : !entries.isEmpty && entries.all Setting.isTypeEntry with
  | true =>
    rw [htypes, if_pos rfl] at himports
    refine .erased rfl ?_ ⟨⟨_, .inr rfl, hedits⟩, himports, hexports⟩ ?_
    · rw [forTypes, htypes]
      rfl
    · rw [importsTypes, htypes]
      exact hreports
  | false =>
    rw [htypes, if_neg Bool.false_ne_true] at himports
    refine .resolved rfl ?_ (.inl ⟨_, by rw [himports]; exact List.mem_singleton_self _, ?_⟩) hreports
    · rw [forTypes, htypes]
      rfl
    · have hstatement := statement_resolves s.config (ValueImport.record s.config ⟨source, entries⟩)
      obtain ⟨hsource, hresolution⟩ :=
        importRecord_source source (resolutionFor s.config source) entries
      rwa [ValueImport.record, hsource, hresolution] at hstatement

theorem reexport_treated :
    Treated s ⟨span, .exportList entries (some source) false⟩
      (s.convertReexports first span entries source) := by
  have hlist : (forTypes (.exportList entries (some source) false) ||
      exportsNothing (.exportList entries (some source) false)) = entries.all isTypeExport := by
    cases entries <;> simp [forTypes, exportsNothing]
  cases htypes : entries.all isTypeExport with
  | true =>
    obtain ⟨herases, hnone⟩ :=
      convertReexports_types s first ⟨span, .exportList entries (some source) false⟩ source htypes
    exact .erased rfl (hlist.trans htypes) herases hnone
  | false =>
    obtain ⟨hresolves, hreports⟩ := convertReexports_resolves s first span source htypes
    exact .resolved rfl (hlist.trans htypes) hresolves hreports

theorem convertItem_treated (hclause : ClauseShaped item.shape)
    (h : s.convertItem first item = .ok part) : Treated s item part := by
  obtain ⟨span, shape⟩ := item
  cases hsource : specifier? shape with
  | none =>
    cases hform : exportForm? shape with
    | some form =>
      rw [convertItem_export s first ⟨span, shape⟩ hform] at h
      exact .unsourced hsource (convertExport_unreported h (form_specifier hsource hform))
    | none =>
      cases shape with
      | importFrom source entries typeOnly => cases hsource
      | statement | importEquals | exportAssignment =>
        cases h
        exact .unsourced rfl rfl
      | _ => cases hform
  | some source =>
    cases shape with
    | importFrom source entries typeOnly =>
      cases h
      cases typeOnly with
      | true => exact .erased rfl rfl (erases_removed _ _) rfl
      | false => exact import_treated (hclause source entries false rfl)
    | exportList entries source typeOnly =>
      cases source with
      | none => cases hsource
      | some source =>
        cases typeOnly with
        | true =>
          cases h
          exact .erased rfl rfl (erases_removed _ _) rfl
        | false =>
          cases h
          exact reexport_treated
    | exportAll source typeOnly =>
      cases typeOnly with
      | true =>
        cases h
        exact .erased rfl rfl (erases_removed _ _) rfl
      | false =>
        have hconvert : s.convertExport first span (.wildcard source) = .ok part := h
        obtain ⟨hresolves, hreports⟩ := wildcard_resolves hconvert
        exact .resolved rfl rfl hresolves hreports
    | _ => cases hsource

/-- What the wrapper does about a dependency: one for types and one with an empty list of exports come
to nothing, and every other one is resolved. -/
def Evaluated (s : Setting) (wrapper : String) (item : Item) (part : Contribution) : Prop :=
  ∀ source ∈ specifier? item.shape,
    if forTypes item.shape || exportsNothing item.shape then Erases s item part
    else part.Resolves s.config source ∧ Occurs (awaited s.config source) wrapper

theorem Treated.evaluated {wrapper : String} (h : Treated s item part)
    (hwrapper : ∀ source, part.Resolves s.config source → Occurs (awaited s.config source) wrapper) :
    Evaluated s wrapper item part := by
  intro source hsource
  cases h with
  | unsourced hnone _ =>
    rw [hnone] at hsource
    cases hsource
  | erased hsome hnothing herases _ =>
    obtain rfl := Option.some.inj (hsome.symm.trans hsource)
    rw [if_pos hnothing]
    exact herases
  | resolved hsome hsomething hresolves _ =>
    obtain rfl := Option.some.inj (hsome.symm.trans hsource)
    rw [if_neg (by rw [hsomething]; exact Bool.false_ne_true)]
    exact ⟨hresolves, hwrapper _ hresolves⟩

/-- What is reported of a declaration: a warning if its specifier is resolved, and also if that is
left out because all entries of an import are for types. -/
def reported (config : Config) (path : String) (item : Item) (part : Contribution) :
    List Diagnostic :=
  (specifier? item.shape).toList.flatMap fun source =>
    if part.Resolves config source ∨ importsTypes item.shape = true then warning config path source
    else []

theorem Treated.reports (h : Treated s item part) :
    part.diagnostics = reported s.config s.path item part := by
  unfold reported
  cases h with
  | unsourced hnone hreports => rw [hnone, hreports, Option.toList_none, List.flatMap_nil]
  | @erased source hsome _ herases hreports =>
    have hresolves : ¬part.Resolves s.config source := herases.not_resolves
    rw [hsome, hreports, Option.toList_some, List.flatMap_singleton]
    simp only [hresolves, false_or]
  | resolved hsome _ hresolves hreports =>
    rw [hsome, hreports, Option.toList_some, List.flatMap_singleton, if_pos (.inl hresolves)]

theorem flatMap_zip {α β γ : Type} {l : List α} {l' : List β} {f : β → List γ} {g : α → β → List γ}
    (h : List.Forall₂ (fun a b => f b = g a b) l l') :
    l'.flatMap f = (l.zip l').flatMap fun (a, b) => g a b := by
  induction h with
  | nil => rfl
  | cons hfirst _ ih => rw [List.flatMap_cons, List.zip_cons_cons, List.flatMap_cons, hfirst, ih]

/-- The wrapper of a module resolves the specifier of each import and of each export from another
module, unless it is for types, as a whole or in all entries of its list, or is an export with an
empty list; then nothing comes of it. -/
theorem dependencies_evaluated (hparse : Module.parse code = .ok m)
    (h : (convert config path bodyLength m).1 = .ok c) :
    ∃ parts, Composed config path bodyLength m c parts ∧
      List.Forall₂ (Evaluated (settingOf config path bodyLength m) (c.wrap config path)) m.items
        parts := by
  obtain ⟨parts, hcomposed⟩ := convert_composed h
  refine ⟨parts, hcomposed, hcomposed.items.forall₂ fun item hitem part hpart first hconvert => ?_⟩
  have htreated := convertItem_treated (parse_clauses hparse item hitem) hconvert
  exact htreated.evaluated fun source hresolves => hcomposed.resolved hpart hresolves

theorem dependencies_evaluated_namespace : ∃ m c,
    Module.parse "export*as n from'm';n.f()" = .ok m ∧
    (convert {} "/a.js" 25 m).1 = .ok c ∧
    Occurs "await __qjs_require(\"m\")" (c.wrap {} "/a.js") := by
  obtain ⟨m, hparse, hm⟩ : ∃ m, Module.parse "export*as n from'm';n.f()" = .ok m ∧
      (decide (∃ item ∈ m.items, specifier? item.shape = some "m" ∧
        (forTypes item.shape || exportsNothing item.shape) = false) &&
          answers (fun _ => true) (convert {} "/a.js" 25 m).1) = true :=
    exists_of_answers (by decide +kernel)
  obtain ⟨hitem, hanswers⟩ := (Bool.and_eq_true _ _).mp hm
  obtain ⟨item, hmem, hsource, hsomething⟩ := of_decide_eq_true hitem
  obtain ⟨c, hc, -⟩ := exists_of_answers hanswers
  obtain ⟨parts, -, hall⟩ := dependencies_evaluated hparse hc
  have hitems : List.Forall₂ (fun item _ => (∀ source ∈ specifier? item.shape,
      (forTypes item.shape || exportsNothing item.shape) = false →
        Occurs (awaited {} source) (c.wrap {} "/a.js")) ∧ True) m.items parts := by
    refine hall.imp fun item part hevaluated => ⟨fun source hsource hsomething => ?_, trivial⟩
    have hresolved := hevaluated source hsource
    rw [hsomething, if_neg Bool.false_ne_true] at hresolved
    exact hresolved.2
  have hcall : awaited {} "m" = "await __qjs_require(\"m\")" := by decide +kernel
  rw [List.forall₂_and_left] at hitems
  exact ⟨m, c, hparse, hc, hcall ▸ hitems.1 item hmem "m" hsource hsomething⟩

theorem not_occurs_wrap {call : String} (hbody : c.body = "") (himports : c.imports = [])
    (hexports : c.hasExports = false) (hpath : 'q' ∉ (Json.quote path).toList)
    (hcall : 'q' ∈ call.toList) : ¬Occurs call (c.wrap {} path) := by
  have hhead : 'q' ∉ (wrapperHead {} path).toList := by
    unfold wrapperHead inBraces
    simp only [String.toList_append, List.mem_append, hpath, or_false]
    decide +kernel
  intro hoccurs
  have hmem := hoccurs.subset hcall
  unfold Converted.wrap at hmem
  have hunregistered : registration {} path false = "" := rfl
  simp only [hbody, himports, hexports, hunregistered, String.toList_append, List.mem_append, hhead,
    false_or] at hmem
  exact absurd hmem (by decide +kernel)

/-- An export with an empty list is not for types, and is not resolved. -/
theorem empty_list_unresolved : ∃ m c, Module.parse "export \x7b\x7d from 'm'" = .ok m ∧
    m.items.map (fun item => (specifier? item.shape, forTypes item.shape)) = [(some "m", false)] ∧
    (convert {} "/a.js" 18 m).1 = .ok c ∧ ¬Occurs (awaited {} "m") (c.wrap {} "/a.js") := by
  obtain ⟨m, hparse, hm⟩ : ∃ m, Module.parse "export \x7b\x7d from 'm'" = .ok m ∧
      (decide (m.items.map (fun item => (specifier? item.shape, forTypes item.shape)) =
        [(some "m", false)]) && answers (fun c =>
          decide (c.body = "" ∧ c.imports = [] ∧ c.hasExports = false))
          (convert {} "/a.js" 18 m).1) = true :=
    exists_of_answers (by decide +kernel)
  obtain ⟨hitems, hanswers⟩ := (Bool.and_eq_true _ _).mp hm
  obtain ⟨c, hc, hnothing⟩ := exists_of_answers hanswers
  obtain ⟨hbody, himports, hexports⟩ := of_decide_eq_true hnothing
  exact ⟨m, c, hparse, of_decide_eq_true hitems, hc,
    not_occurs_wrap hbody himports hexports (by decide +kernel) (by decide +kernel)⟩

/-- The diagnostics of a module are, in the order of its declarations, one for each specifier that the
wrapper resolves and that is not recognized, and one for each such specifier of an import whose
entries are all for types. -/
theorem diagnostics_reported (hparse : Module.parse code = .ok m)
    (h : (convert config path bodyLength m).1 = .ok c) :
    ∃ parts, Composed config path bodyLength m c parts ∧
      c.diagnostics = (m.items.zip parts).flatMap fun (item, part) =>
        reported config path item part := by
  obtain ⟨parts, hcomposed⟩ := convert_composed h
  have hall : List.Forall₂ (fun item part => part.diagnostics = reported config path item part)
      m.items parts := hcomposed.items.forall₂ fun item hitem _ _ _ hconvert =>
    (convertItem_treated (parse_clauses hparse item hitem) hconvert).reports
  exact ⟨parts, hcomposed, hcomposed.diagnostics.trans (flatMap_zip hall)⟩

theorem diagnostics_reported_tooling : ∃ m c parts,
    Module.parse "export*from'/@x';f()" = .ok m ∧
    (convert {} "/a.js" 20 m).1 = .ok c ∧ c.diagnostics = [.unrecognizedInternal "/@x" "/a.js"] ∧
    c.diagnostics = (m.items.zip parts).flatMap fun (item, part) =>
      reported {} "/a.js" item part := by
  obtain ⟨m, hparse, hm⟩ : ∃ m,
      Module.parse "export*from'/@x';f()" = .ok m ∧
      answers (fun c => decide (c.diagnostics = [.unrecognizedInternal "/@x" "/a.js"]))
        (convert {} "/a.js" 20 m).1 = true := exists_of_answers (by decide +kernel)
  obtain ⟨c, hc, hone⟩ := exists_of_answers hm
  obtain ⟨parts, -, hreported⟩ := diagnostics_reported hparse hc
  exact ⟨m, c, parts, hparse, hc, of_decide_eq_true hone, hreported⟩

/-- An import of types is taken out, and is reported all the same. -/
theorem dropped_import_reported : ∃ m c,
    Module.parse "import \x7b type A \x7d from '/@vite/env'" = .ok m ∧
    m.items.map (fun item => (specifier? item.shape, forTypes item.shape)) =
      [(some "/@vite/env", true)] ∧
    (convert {} "/a.ts" 36 m).1 = .ok c ∧
    ¬Occurs (awaited {} "/@vite/env") (c.wrap {} "/a.ts") ∧
    c.diagnostics = [.unrecognizedInternal "/@vite/env" "/a.ts"] := by
  obtain ⟨m, hparse, hm⟩ : ∃ m,
      Module.parse "import \x7b type A \x7d from '/@vite/env'" = .ok m ∧
      (decide (m.items.map (fun item => (specifier? item.shape, forTypes item.shape)) =
        [(some "/@vite/env", true)]) && answers (fun c =>
          decide ((c.body = "" ∧ c.imports = [] ∧ c.hasExports = false) ∧
            c.diagnostics = [.unrecognizedInternal "/@vite/env" "/a.ts"]))
          (convert {} "/a.ts" 36 m).1) = true := exists_of_answers (by decide +kernel)
  obtain ⟨hitems, hanswers⟩ := (Bool.and_eq_true _ _).mp hm
  obtain ⟨c, hc, hdropped⟩ := exists_of_answers hanswers
  obtain ⟨⟨hbody, himports, hexports⟩, hone⟩ := of_decide_eq_true hdropped
  exact ⟨m, c, hparse, of_decide_eq_true hitems, hc,
    not_occurs_wrap hbody himports hexports (by decide +kernel) (by decide +kernel), hone⟩

end ModuleHost.Wrap
