import ModuleHost.Proofs.Wrap.Sheet
import ModuleHost.Proofs.Wrap.Weave
import ModuleHost.Syntax.Parse

/-! The names that a converted module assigns to its object of exports are the names that its items
export. -/

namespace ModuleHost.Wrap

open ModuleHost.Syntax ModuleHost.Text ModuleHost.Wrap.Edit

def Setting.exporting (s : Setting) (exports : String) : Setting :=
  { s with config := { s.config with exportsIdent := exports } }

def insideMark (d : Declarator) : Option Part :=
  match d.target with
  | .name _ name => some (.assignment name)
  | _ => none

def marksOf : ExportForm → List Part
  | .function name | .classForm name | .localDeclaration name => [.assignment name]
  | .variable declarators => declarators.filterMap insideMark ++
      (declarators.flatMap fun d => topLevelBindings d.target).map .assignment
  | .localList entries => (entries.filterMap ExportEntry.pair?).map fun pair => .assignment pair.2
  | .reexportList entries _ => (entries.filterMap ExportEntry.namespaceName?).map .assignment ++
      (entries.filterMap ExportEntry.pair?).map fun pair => .assignment pair.2
  | .default _ => [.assignment "default"]
  | .wildcard _ => [.copy]
  | .typeOnly => []

def marksIn (shape : ItemShape) : List Part := ((exportForm? shape).map marksOf).getD []

/-- A conversion does the same under every name of the object of exports. -/
def Renders (convert : String → Except EmitFault Contribution) (temporaries : Nat)
    (found : List Part) : Prop :=
  ∃ c : String → Contribution, (∀ exports, convert exports = .ok (c exports) ∧
    (c exports).temporaries = temporaries) ∧
    Writes (fun exports => (c exports).edits.map Edit.text) found

section

variable {s : Setting} {span : Span} {first : Nat} {c : Contribution} {form : ExportForm}

/-! ### Assignments -/

def assignmentParts (name value : String) : List Part :=
  [.assignment name, .plain (" " ++ value ++ ";")]

theorem assignment_spelled (s : Setting) (name value exports : String) :
    ((s.exporting exports).assignment name value).toList =
      spell exports (assignmentParts name value) := by
  simp [Setting.assignment, Setting.exportTarget, Setting.exporting, assignmentParts]

theorem assignment_ne_empty (s : Setting) (name value : String) : s.assignment name value ≠ "" := by
  intro h
  have hlength := congrArg String.length h
  simp [Setting.assignment] at hlength

theorem marks_cons_plain (text : String) (parts : List Part) :
    marks (.plain text :: parts) = marks parts := rfl

theorem append_writes {text : String → String} {parts : List Part} (s : Setting) (span : Span)
    (hne : ∀ exports, text exports ≠ "")
    (htext : ∀ exports, (text exports).toList = spell exports parts) :
    Writes (fun exports => ((s.exporting exports).append span (text exports)).map Edit.text)
      (marks parts) := by
  obtain ⟨closer, hcloser⟩ : ∃ closer, closer =
      if (Text.trimEnd (s.sourceUpTo span.hi)).getLast? = some ';' then "" else ";" := ⟨_, rfl⟩
  have hedits : ∀ exports, ((s.exporting exports).append span (text exports)).map Edit.text =
      [closer ++ (" " ++ text exports)] := by
    intro exports
    have hempty : (text exports).isEmpty = false := String.isEmpty_eq_false_iff.mpr (hne exports)
    show (if (_ ++ if (text exports).isEmpty then "" else _ : String).isEmpty then []
      else _).map _ = _
    simp only [hempty, Bool.false_eq_true, if_false]
    rw [hcloser, if_neg (by simp)]
    rfl
  simp only [hedits]
  refine Writes.single (.plain closer :: .plain " " :: parts) fun exports => ?_
  rw [spell_plain, spell_plain, ← htext, String.toList_append, String.toList_append]

theorem bindDeclaration_renders (name : String) (h : s.bindDeclaration span name = .ok c) :
    Renders (fun exports => (s.exporting exports).bindDeclaration span name) 0
      [.assignment name] := by
  obtain ⟨keyword, hkeyword, h⟩ := bind_ok h
  cases h
  refine ⟨fun exports =>
    { edits := ⟨keyword.lo, keyword.hi,
        "const " ++ name ++ " = " ++ (s.exporting exports).exportTarget name ++ " ="⟩ ::
          s.append span "", hasExports := true }, fun exports => ⟨?_, rfl⟩, ?_⟩
  · exact congrArg (· >>= _) hkeyword
  · have hdeclared : Writes (fun exports =>
        ["const " ++ name ++ " = " ++ (s.exporting exports).exportTarget name ++ " ="])
        [.assignment name] := by
      refine Writes.single [.plain ("const " ++ name ++ " = "), .assignment name]
        fun exports => ?_
      simp [Setting.exportTarget, Setting.exporting]
    exact hdeclared.append (.const _)

/-! ### Variables -/

section

variable {ι : Type} (s : Setting) (l : List ι) (name value : ι → String)

theorem assignments_spelled (exports : String) :
    (String.intercalate " " (l.map fun i =>
        (s.exporting exports).assignment (name i) (value i))).toList =
      spell exports ([Part.plain " "].intercalate (l.map fun i =>
        assignmentParts (name i) (value i))) := by
  rw [String.toList_intercalate, spell_intercalate, List.map_map, List.map_map]
  congr 1
  exact List.map_congr_left fun i _ => assignment_spelled s (name i) (value i) exports

theorem assignments_marks :
    marks ([Part.plain " "].intercalate (l.map fun i => assignmentParts (name i) (value i))) =
      l.map fun i => .assignment (name i) := by
  rw [marks_intercalate, List.flatMap_map]
  exact List.flatMap_pure_eq_map (fun i => Part.assignment (name i)) l

theorem assignments_ne_empty (hl : l ≠ []) :
    String.intercalate " " (l.map fun i => s.assignment (name i) (value i)) ≠ "" := by
  cases l with
  | nil => exact absurd rfl hl
  | cons i l =>
    have hfirst := assignment_ne_empty s (name i) (value i)
    rw [List.map_cons]
    cases l with
    | nil => rwa [List.map_nil, String.intercalate_singleton]
    | cons j l =>
      rw [List.map_cons, String.intercalate_cons_cons, ne_eq, String.append_eq_empty_iff,
        String.append_eq_empty_iff]
      exact fun hempty => hfirst hempty.1.1

end

theorem behind_writes (s : Setting) (span : Span) (names : List String) :
    Writes (fun exports => (if names.isEmpty then [] else
      (s.exporting exports).append span (String.intercalate " " (names.map fun name =>
        (s.exporting exports).assignment name name))).map Edit.text)
      (names.map .assignment) := by
  cases hnames : names.isEmpty with
  | true =>
    rw [List.isEmpty_iff.mp hnames]
    exact .const []
  | false =>
    have hne : names ≠ [] := List.isEmpty_eq_false_iff.mp hnames
    have happended := append_writes s span
      (fun exports => assignments_ne_empty (s.exporting exports) names id id hne)
      (assignments_spelled s names id id)
    rw [assignments_marks] at happended
    exact happended

theorem inside_writes (s : Setting) (declarators : List Declarator) :
    Writes (fun exports => (declarators.filterMap (assigned (s.exporting exports))).map Edit.text)
      (declarators.filterMap insideMark) := by
  have hone : ∀ d ∈ declarators, Writes
      (fun exports => (assigned (s.exporting exports) d).toList.map Edit.text)
      (insideMark d).toList := by
    intro d _
    unfold assigned insideMark
    cases d.target with
    | name nameSpan name =>
      unfold Setting.assignInside
      cases d.value with
      | some value =>
        refine Writes.single [.assignment name, .plain " "] fun exports => ?_
        simp [Edit.insert, Setting.exportTarget, Setting.exporting]
      | none =>
        refine Writes.single [.plain " = ", .assignment name, .plain " undefined"]
          fun exports => ?_
        simp [Edit.insert, Setting.exportTarget, Setting.exporting]
    | _ => exact .const []
  have hall := Writes.flatMap hone
  simp only [List.filterMap_eq_flatMap_toList, List.map_flatMap]
  exact hall

theorem convertVariables_renders (declarators : List Declarator)
    (h : s.convertVariables span declarators = .ok c) :
    Renders (fun exports => (s.exporting exports).convertVariables span declarators) 0
      (marksOf (.variable declarators)) := by
  obtain ⟨removal, hremoval, h⟩ := bind_ok h
  cases h
  have hinside := inside_writes s declarators
  have hbehind := behind_writes s span (declarators.flatMap fun d => topLevelBindings d.target)
  refine ⟨fun exports => _, fun exports => ⟨congrArg (· >>= _) hremoval, rfl⟩, ?_⟩
  have hall := (Writes.const [removal.text]).append (hinside.append hbehind)
  simp only [List.map_cons, List.map_append]
  exact hall

theorem replaceDefault_text {text : String} {e : Edit} (h : s.replaceDefault span text = .ok e)
    (text' : String) : s.replaceDefault span text' = .ok ⟨e.start, e.stop, text'⟩ := by
  obtain ⟨keyword, hkeyword, h⟩ := bind_ok h
  dsimp only at h
  split at h
  · cases h
  · rename_i hdefault
    cases h
    rw [Setting.replaceDefault, hkeyword]
    simp only [bind, Except.bind, hdefault]
    rfl

/-! ### Lists -/

theorem convertLocalList_renders (s : Setting) (span : Span) (entries : List ExportEntry) :
    Renders (fun exports => .ok ((s.exporting exports).convertLocalList span entries)) 0
      (marksOf (.localList entries)) := by
  refine ⟨_, fun exports => ⟨rfl, rfl⟩, ?_⟩
  have hlist := Writes.single _
    (assignments_spelled s (entries.filterMap ExportEntry.pair?) Prod.snd Prod.fst)
  rw [assignments_marks] at hlist
  exact hlist

def blockParts (opening : String) (numbered : List ((String × String) × Nat)) : List Part :=
  .plain opening :: ([Part.plain " "].intercalate (numbered.map fun i =>
    assignmentParts i.1.2 (Setting.temporary i.2)) ++ [Part.plain " \x7d"])

theorem blockParts_marks (opening : String) (first : Nat) (pairs : List (String × String)) :
    marks (blockParts opening (pairs.zipIdx first)) = pairs.map fun pair => .assignment pair.2 := by
  have hnumbered := assignments_marks (pairs.zipIdx first) (fun i => i.1.2)
    fun i => Setting.temporary i.2
  rw [blockParts, marks_cons_plain, marks_append, hnumbered]
  have hpairs : pairs.map (fun pair => Part.assignment pair.2) =
      ((pairs.zipIdx first).map Prod.fst).map fun pair => .assignment pair.2 := by
    rw [List.zipIdx_map_fst]
  rw [hpairs, List.map_map]
  exact List.append_nil _

theorem reexportBlock_spelled (s : Setting) (call : String) (first : Nat)
    (pairs : List (String × String)) : ∃ opening, ∀ exports,
      ((s.exporting exports).reexportBlock call first pairs).toList =
        spell exports (blockParts opening (pairs.zipIdx first)) := by
  refine ⟨"\x7b const " ++ inBraces (String.intercalate ", " ((pairs.zipIdx first).map
    fun i => patternKey i.1.1 ++ ": " ++ Setting.temporary i.2)) ++ " = " ++ call ++ "; ",
    fun exports => ?_⟩
  have hnumbered := assignments_spelled s (pairs.zipIdx first) (fun i => i.1.2)
    (fun i => Setting.temporary i.2) exports
  rw [blockParts, spell_plain, spell_append, ← hnumbered]
  simp [Setting.reexportBlock, inBraces]

def statements (s : Setting) (call : String) (first : Nat) (pairs : List (String × String))
    (namespaces : List String) : List String :=
  namespaces.map (fun name => s.assignment name call) ++
    (if pairs.isEmpty then [] else [s.reexportBlock call first pairs])

theorem statements_writes (s : Setting) (call : String) (first : Nat)
    (pairs : List (String × String)) (namespaces : List String) :
    Writes (fun exports => [String.intercalate " "
        (statements (s.exporting exports) call first pairs namespaces)])
      (namespaces.map Part.assignment ++ pairs.map fun pair => .assignment pair.2) := by
  obtain ⟨opening, hblock⟩ := reexportBlock_spelled s call first pairs
  obtain ⟨sheets, hsheets⟩ : ∃ sheets, sheets =
      namespaces.map (fun name => assignmentParts name call) ++
        (if pairs.isEmpty then [] else [blockParts opening (pairs.zipIdx first)]) := ⟨_, rfl⟩
  have hspelled : ∀ exports, (statements (s.exporting exports) call first pairs namespaces).map
      String.toList = sheets.map (spell exports) := by
    intro exports
    rw [hsheets, statements]
    cases pairs.isEmpty <;> simp [assignment_spelled, hblock]
  have hmarks : sheets.flatMap marks =
      namespaces.map Part.assignment ++ pairs.map fun pair => .assignment pair.2 := by
    rw [hsheets, List.flatMap_append, List.flatMap_map]
    congr 1
    · exact List.flatMap_pure_eq_map Part.assignment namespaces
    · cases pairs with
      | nil => rfl
      | cons pair pairs =>
        exact (List.flatMap_singleton _ _).trans (blockParts_marks opening first (pair :: pairs))
  rw [← hmarks, ← marks_intercalate " "]
  refine Writes.single _ fun exports => ?_
  rw [String.toList_intercalate, hspelled, spell_intercalate]

theorem convertReexports_renders (s : Setting) (first : Nat) (span : Span)
    (entries : List ExportEntry) (source : String) :
    Renders (fun exports => .ok ((s.exporting exports).convertReexports first span entries source))
      (entries.filterMap ExportEntry.pair?).length (marksOf (.reexportList entries source)) := by
  obtain ⟨pairs, hpairs⟩ : ∃ pairs, pairs = entries.filterMap ExportEntry.pair? := ⟨_, rfl⟩
  obtain ⟨namespaces, hnamespaces⟩ :
    ∃ namespaces, namespaces = entries.filterMap ExportEntry.namespaceName? := ⟨_, rfl⟩
  simp only [marksOf, Setting.convertReexports, ← hpairs, ← hnamespaces]
  cases hempty : pairs.isEmpty && namespaces.isEmpty with
  | true =>
    obtain ⟨hnone, hnone'⟩ := Bool.and_eq_true_iff.mp hempty
    rw [List.isEmpty_iff.mp hnone, List.isEmpty_iff.mp hnone']
    exact ⟨_, fun exports => ⟨rfl, rfl⟩, .const [""]⟩
  | false =>
    have hwritten := statements_writes s (s.resolutionOf source).1 first pairs namespaces
    refine ⟨fun exports => (s.resolutionOf source).2 ++
      { edits := [⟨span.lo, span.hi, String.intercalate " "
          (statements (s.exporting exports) (s.resolutionOf source).1 first pairs namespaces)⟩],
        hasExports := true, temporaries := pairs.length },
      fun exports => ⟨rfl, (resolutionOf_found _ _ _).2⟩, ?_⟩
    simp only [resolutionOf_found]
    exact hwritten

theorem wildcard_renders (s : Setting) (first : Nat) (span : Span) (source : String) :
    Renders (fun exports => (s.exporting exports).convertExport first span (.wildcard source)) 0
      [.copy] := by
  refine ⟨fun exports => (s.resolutionOf source).2 ++
    { edits := [⟨span.lo, span.hi,
        "Object.assign(" ++ exports ++ ", " ++ (s.resolutionOf source).1 ++ ");"⟩],
      hasExports := true },
    fun exports => ⟨rfl, (resolutionOf_found _ _ _).2⟩, ?_⟩
  simp only [resolutionOf_found]
  refine Writes.single [.copy, .plain ((s.resolutionOf source).1 ++ ");")]
    fun exports => ?_
  simp

theorem convertExport_renders (h : s.convertExport first span form = .ok c) :
    Renders (fun exports => (s.exporting exports).convertExport first span form)
      (temporariesOf form) (marksOf form) := by
  cases form with
  | function name | classForm name => exact bindDeclaration_renders name h
  | «variable» declarators => exact convertVariables_renders declarators h
  | localList entries => exact convertLocalList_renders s span entries
  | reexportList entries source => exact convertReexports_renders s first span entries source
  | default name =>
    obtain ⟨e, he, h⟩ := bind_ok h
    refine ⟨fun exports => _, fun exports =>
      ⟨congrArg (· >>= _) (replaceDefault_text (s := s) he _), rfl⟩, ?_⟩
    have hdefault : Writes (fun exports => [(name.elim "" fun n => "const " ++ n ++ " = ") ++
        ((s.exporting exports).exportTarget "default" ++ " = ")]) [.assignment "default"] := by
      refine Writes.single [.plain (name.elim "" fun n => "const " ++ n ++ " = "),
        .assignment "default", .plain " "] fun exports => ?_
      simp [Setting.exportTarget, Setting.exporting]
    exact hdefault.append (.const ((s.append span "").map Edit.text))
  | wildcard source => exact wildcard_renders s first span source
  | localDeclaration name =>
    obtain ⟨removal, hremoval, h⟩ := bind_ok h
    refine ⟨fun exports => _, fun exports => ⟨congrArg (· >>= _) hremoval, rfl⟩, ?_⟩
    have happended := append_writes s span (fun _ => assignment_ne_empty _ _ _)
      (assignment_spelled s name name)
    exact (Writes.const [removal.text]).append happended
  | typeOnly => exact ⟨_, fun exports => ⟨rfl, rfl⟩, .const [""]⟩

/-! ### Items -/

theorem exporting_self (s : Setting) : s.exporting s.config.exportsIdent = s := rfl

theorem convertItem_renders {item : Item} (h : s.convertItem first item = .ok c) :
    Renders (fun exports => (s.exporting exports).convertItem first item)
      (temporariesIn item.shape) (marksIn item.shape) := by
  cases hform : exportForm? item.shape with
  | some form =>
    have hmarks : marksIn item.shape = marksOf form := by rw [marksIn, hform]; rfl
    rw [convertItem_export s first item hform] at h
    obtain ⟨c, hc, hwrites⟩ := convertExport_renders h
    rw [hmarks, temporariesIn_eq hform]
    refine ⟨c, fun exports => ⟨?_, (hc exports).2⟩, hwrites⟩
    exact (convertItem_export _ first item hform).trans (hc exports).1
  | none =>
    have hmarks : marksIn item.shape = [] := by rw [marksIn, hform]; rfl
    have htemporaries : temporariesIn item.shape = 0 := by rw [temporariesIn, hform]
    rw [hmarks]
    cases herased : erased item.shape with
    | true =>
      have hitem := fun exports => item_erased (s.exporting exports) first item herased
      choose c hc hedits htemporaries using hitem
      refine ⟨c, fun exports => ⟨hc exports, htemporaries exports⟩, ?_⟩
      simp only [hedits]
      exact .const [""]
    | false =>
      have hitem := fun exports => convertItem_none (s.exporting exports) first item hform herased
      choose c hc hedits hzero using hitem
      refine ⟨c, fun exports => ⟨hc exports, (hzero exports).trans htemporaries.symm⟩, ?_⟩
      simp only [hedits]
      exact .const []

/-- If items are converted under one name of the object of exports they are under all names. -/
theorem convertItems_renders {items : List Item} (done : String → Contribution) {found : List Part}
    (name : String) (hfirst : ∀ exports, (done exports).temporaries = first)
    (hdone : Writes (fun exports => (done exports).edits.map Edit.text) found)
    (h : (s.exporting name).convertItems (done name) items = (c, none)) :
    ∃ all : String → Contribution,
      (∀ exports, (s.exporting exports).convertItems (done exports) items = (all exports, none)) ∧
      Writes (fun exports => (all exports).edits.map Edit.text)
        (found ++ items.flatMap fun item => marksIn item.shape) := by
  -- under every name the items before have left another text, but have used up as many temporaries
  induction items generalizing done found first with
  | nil => exact ⟨done, fun _ => rfl, by simpa using hdone⟩
  | cons item items ih =>
    rw [Setting.convertItems, hfirst] at h
    split at h
    · rename_i next hnext
      obtain ⟨each, heach, hwrites⟩ := convertItem_renders hnext
      have hsame : next = each name := Except.ok.inj (hnext.symm.trans (heach name).1)
      rw [hsame] at h
      have hnow := hdone.append hwrites
      simp only [← List.map_append] at hnow
      obtain ⟨all, hall, hrest⟩ := ih (fun exports => done exports ++ each exports)
        (fun exports => by rw [append_temporaries, hfirst, (heach exports).2]) hnow h
      refine ⟨all, fun exports => ?_, ?_⟩
      · rw [Setting.convertItems, hfirst]
        have hconverted : (s.exporting exports).convertItem first item = .ok (each exports) :=
          (heach exports).1
        rw [hconverted]
        exact hall exports
      · rw [List.flatMap_cons, ← List.append_assoc]
        exact hrest
    · cases h

end

/-! ### What items export -/

/-- A pattern is a name, with or without a default value. -/
inductive Names : Pattern → String → Prop where
  | name (span : Span) (name : String) : Names (.name span name) name
  | withDefault (span nameSpan : Span) (name : String) :
    Names (.withDefault span (.name nameSpan name)) name

/-- A pattern binds a name at its top level. -/
inductive BindsAtTop : Pattern → String → Prop where
  | keyed {span : Span} {fields : List (PatternField Pattern)} {value : Pattern} {name : String} :
    .keyed value ∈ fields → Names value name → BindsAtTop (.object span fields) name
  | short {span nameSpan : Span} {fields : List (PatternField Pattern)} {name : String} :
    .short nameSpan name ∈ fields → BindsAtTop (.object span fields) name
  | restField {span : Span} {fields : List (PatternField Pattern)} {target : Pattern}
    {name : String} :
    .rest target ∈ fields → Names target name → BindsAtTop (.object span fields) name
  | element {span : Span} {elements : List (Option Pattern)} {element : Pattern} {name : String} :
    some element ∈ elements → Names element name → BindsAtTop (.array span elements) name
  | restElement {span restSpan : Span} {elements : List (Option Pattern)} {target : Pattern}
    {name : String} :
    some (.rest restSpan target) ∈ elements → Names target name →
      BindsAtTop (.array span elements) name

/-- An item gives a value to an exported name. -/
inductive Exports : ItemShape → String → Prop where
  | function (name : String) : Exports (.exportDecl (.function name false true)) name
  | classDecl (name : String) : Exports (.exportDecl (.classDecl name false)) name
  | variable {declarators : List Declarator} {d : Declarator} {span : Span} {name : String} :
    d ∈ declarators → d.target = .name span name →
      Exports (.exportDecl (.variable false declarators)) name
  | destructured {declarators : List Declarator} {d : Declarator} {name : String} :
    d ∈ declarators → BindsAtTop d.target name →
      Exports (.exportDecl (.variable false declarators)) name
  | enumeration (name : String) : Exports (.exportDecl (.enumeration name false)) name
  | namespaceDecl (name : String) : Exports (.exportDecl (.namespaceDecl (.name name) false)) name
  | listed {entries : List ExportEntry} {source exported : Option String} {name : String} :
    .named name exported false ∈ entries →
      Exports (.exportList entries source false) (exported.getD name)
  | namespaceAs {entries : List ExportEntry} {source name : String} :
    .namespaceAs name ∈ entries → Exports (.exportList entries (some source) false) name
  | defaultFunction (name : Option String) :
    Exports (.exportDefaultDecl (.function name true)) "default"
  | defaultClass (name : Option String) : Exports (.exportDefaultDecl (.classDecl name)) "default"
  | defaultExpr : Exports .exportDefaultExpr "default"

/-- A default export of a function without a body, such as an overload, which gives it no value. -/
def isDefaultSignature : ItemShape → Bool
  | .exportDefaultDecl (.function _ hasBody) => !hasBody
  | _ => false

/-- An item is converted as if it gave a value to an exported name: it does, or it is the signature of
a default function. -/
def Counts (shape : ItemShape) (name : String) : Prop :=
  Exports shape name ∨ name = "default" ∧ isDefaultSignature shape = true

/-- An item exports all that another module exports. -/
def exportsAll : ItemShape → Bool
  | .exportAll _ typeOnly => !typeOnly
  | _ => false

section

variable {target : Pattern} {shape : ItemShape} {name : String}

theorem names_iff : simpleBinding target = some name ↔ Names target name := by
  constructor
  · intro h
    unfold simpleBinding at h
    split at h
    · cases h
      exact .name _ _
    · cases h
      exact .withDefault _ _ _
    · cases h
  · rintro (_ | _) <;> rfl

theorem bindsAtTop_iff : name ∈ topLevelBindings target ↔ BindsAtTop target name := by
  cases target with
  | object span fields =>
    simp only [topLevelBindings, List.mem_filterMap]
    constructor
    · rintro ⟨field, hfield, hname⟩
      cases field with
      | keyed value => exact .keyed hfield (names_iff.mp hname)
      | short nameSpan n =>
        cases hname
        exact .short hfield
      | rest target => exact .restField hfield (names_iff.mp hname)
    · intro h
      cases h with
      | keyed hfield hname => exact ⟨_, hfield, names_iff.mpr hname⟩
      | short hfield => exact ⟨_, hfield, rfl⟩
      | restField hfield hname => exact ⟨_, hfield, names_iff.mpr hname⟩
  | array span elements =>
    simp only [topLevelBindings, List.mem_filterMap, Option.bind_eq_some_iff]
    constructor
    · rintro ⟨_, helement, element, rfl, hname⟩
      unfold elementBinding at hname
      split at hname
      · exact .restElement helement (names_iff.mp hname)
      · exact .element helement (names_iff.mp hname)
    · intro h
      cases h with
      | element helement hname =>
        refine ⟨_, helement, _, rfl, ?_⟩
        cases hname <;> rfl
      | restElement helement hname => exact ⟨_, helement, _, rfl, names_iff.mpr hname⟩
  | _ =>
    constructor
    · rintro ⟨⟩
    · rintro ⟨⟩

theorem mem_variable {declarators : List Declarator} :
    .assignment name ∈ marksOf (.variable declarators) ↔
      Exports (.exportDecl (.variable false declarators)) name := by
  simp only [marksOf, List.mem_append, List.mem_filterMap, List.mem_map, List.mem_flatMap,
    Part.assignment.injEq, exists_eq_right]
  constructor
  · rintro (⟨d, hd, hmark⟩ | ⟨d, hd, hname⟩)
    · unfold insideMark at hmark
      split at hmark
      · rename_i htarget
        cases hmark
        exact .variable hd htarget
      · cases hmark
    · exact .destructured hd (bindsAtTop_iff.mp hname)
  · intro h
    cases h with
    | «variable» hd htarget => exact .inl ⟨_, hd, by rw [insideMark, htarget]⟩
    | destructured hd hname => exact .inr ⟨_, hd, bindsAtTop_iff.mpr hname⟩

theorem mem_pairs {entries : List ExportEntry} :
    (∃ pair ∈ entries.filterMap ExportEntry.pair?, pair.2 = name) ↔
      ∃ listed exported, .named listed exported false ∈ entries ∧ exported.getD listed = name := by
  constructor
  · rintro ⟨pair, hpair, rfl⟩
    obtain ⟨entry, hentry, hsome⟩ := List.mem_filterMap.mp hpair
    cases entry with
    | namespaceAs n => cases hsome
    | named listed exported typeOnly =>
      cases typeOnly with
      | true => cases hsome
      | false =>
        cases hsome
        exact ⟨listed, exported, hentry, rfl⟩
  · rintro ⟨listed, exported, hentry, rfl⟩
    exact ⟨_, List.mem_filterMap.mpr ⟨_, hentry, rfl⟩, rfl⟩

theorem mem_namespaces {entries : List ExportEntry} :
    name ∈ entries.filterMap ExportEntry.namespaceName? ↔ .namespaceAs name ∈ entries := by
  constructor
  · intro h
    obtain ⟨entry, hentry, hsome⟩ := List.mem_filterMap.mp h
    cases entry with
    | namespaceAs n =>
      cases hsome
      exact hentry
    | named listed exported typeOnly => cases hsome
  · exact fun h => List.mem_filterMap.mpr ⟨_, h, rfl⟩

theorem mem_list {entries : List ExportEntry} {source : Option String} :
    .assignment name ∈ marksIn (.exportList entries source false) ↔
      Exports (.exportList entries source false) name := by
  have hpairs : Part.assignment name ∈
      (entries.filterMap ExportEntry.pair?).map (fun pair => .assignment pair.2) ↔
        ∃ listed exported, .named listed exported false ∈ entries ∧
          exported.getD listed = name := by
    simp only [List.mem_map, Part.assignment.injEq, mem_pairs]
  cases source with
  | none =>
    refine hpairs.trans ⟨?_, ?_⟩
    · rintro ⟨listed, exported, hentry, rfl⟩
      exact .listed hentry
    · intro h
      cases h with
      | listed hentry => exact ⟨_, _, hentry, rfl⟩
  | some source =>
    refine List.mem_append.trans ⟨?_, ?_⟩
    · rintro (h | h)
      · obtain ⟨n, hn, heq⟩ := List.mem_map.mp h
        cases heq
        exact .namespaceAs (mem_namespaces.mp hn)
      · obtain ⟨listed, exported, hentry, rfl⟩ := hpairs.mp h
        exact .listed hentry
    · intro h
      cases h with
      | listed hentry => exact .inr (hpairs.mpr ⟨_, _, hentry, rfl⟩)
      | namespaceAs hentry => exact .inl (List.mem_map_of_mem (mem_namespaces.mpr hentry))

theorem exports_none (hmarks : marksIn shape = []) (h : ¬ Exports shape name) :
    .assignment name ∈ marksIn shape ↔ Exports shape name := by
  rw [hmarks]
  exact iff_of_false List.not_mem_nil h

theorem exports_one {n : String} (hmarks : marksIn shape = [.assignment n])
    (h : Exports shape name ↔ name = n) :
    .assignment name ∈ marksIn shape ↔ Exports shape name := by
  rw [hmarks, h, List.mem_singleton, Part.assignment.injEq]

theorem exports_decl {decl : Decl} :
    .assignment name ∈ marksIn (.exportDecl decl) ↔ Exports (.exportDecl decl) name := by
  cases decl with
  | function n declare hasBody =>
    cases declare with
    | true => exact exports_none rfl nofun
    | false =>
      cases hasBody with
      | false => exact exports_none rfl nofun
      | true => exact exports_one rfl ⟨fun | .function _ => rfl, fun h => h ▸ .function _⟩
  | classDecl n declare =>
    cases declare with
    | true => exact exports_none rfl nofun
    | false => exact exports_one rfl ⟨fun | .classDecl _ => rfl, fun h => h ▸ .classDecl _⟩
  | «variable» declare declarators =>
    cases declare with
    | true => exact exports_none rfl nofun
    | false => exact mem_variable
  | interface => exact exports_none rfl nofun
  | typeAlias => exact exports_none rfl nofun
  | enumeration n declare =>
    cases declare with
    | true => exact exports_none rfl nofun
    | false => exact exports_one rfl ⟨fun | .enumeration _ => rfl, fun h => h ▸ .enumeration _⟩
  | namespaceDecl n declare =>
    cases declare with
    | true => exact exports_none rfl nofun
    | false =>
      cases n with
      | string => exact exports_none rfl nofun
      | name n =>
        exact exports_one rfl ⟨fun | .namespaceDecl _ => rfl, fun h => h ▸ .namespaceDecl _⟩

theorem counts_exports (h : isDefaultSignature shape = false) :
    Counts shape name ↔ Exports shape name := by
  simp [Counts, h]

/-- What is assigned for an item is what it counts as exporting. -/
theorem counts_iff : .assignment name ∈ marksIn shape ↔ Counts shape name := by
  cases shape with
  | exportDefaultDecl decl =>
    cases decl with
    | function n hasBody =>
      cases hasBody with
      | true =>
        rw [counts_exports rfl]
        exact exports_one rfl ⟨fun | .defaultFunction _ => rfl, fun h => h ▸ .defaultFunction _⟩
      | false =>
        -- the name is assigned although there is no value to assign
        have hmarks : .assignment name ∈ marksIn (.exportDefaultDecl (.function n false)) ↔
            name = "default" := List.mem_singleton.trans (Part.assignment.injEq _ _).to_iff
        rw [hmarks]
        exact ⟨fun h => .inr ⟨h, rfl⟩, fun | .inr h => h.1⟩
    | classDecl n =>
      rw [counts_exports rfl]
      exact exports_one rfl ⟨fun | .defaultClass _ => rfl, fun h => h ▸ .defaultClass _⟩
    | interface =>
      rw [counts_exports rfl]
      exact exports_none rfl nofun
  | exportDecl decl =>
    rw [counts_exports rfl]
    exact exports_decl
  | exportList entries source typeOnly =>
    rw [counts_exports rfl]
    cases typeOnly with
    | false => exact mem_list
    | true => exact exports_none rfl nofun
  | exportDefaultExpr =>
    rw [counts_exports rfl]
    exact exports_one rfl ⟨fun | .defaultExpr => rfl, fun h => h ▸ .defaultExpr⟩
  | exportAll source typeOnly =>
    rw [counts_exports rfl]
    cases typeOnly with
    | true => exact exports_none rfl nofun
    | false =>
      refine iff_of_false ?_ nofun
      simp [marksIn, exportForm?, marksOf]
  | _ =>
    rw [counts_exports rfl]
    exact exports_none rfl nofun

theorem copy_notMem {form : ExportForm} (h : ∀ source, form ≠ .wildcard source) :
    Part.copy ∉ marksOf form := by
  cases form with
  | «variable» declarators =>
    simp only [marksOf, List.mem_append, List.mem_filterMap, List.mem_map, insideMark]
    rintro (⟨d, -, hd⟩ | ⟨n, -, hn⟩)
    · split at hd <;> cases hd
    · cases hn
  | wildcard source => exact absurd rfl (h source)
  | _ => simp [marksOf]

theorem formOfDecl_ne (decl : Decl) (source : String) : formOfDecl decl ≠ .wildcard source := by
  cases decl with
  | function n declare hasBody => cases declare <;> cases hasBody <;> exact nofun
  | «variable» declare declarators => cases declare <;> exact nofun
  | classDecl n declare | enumeration n declare => cases declare <;> exact nofun
  | namespaceDecl n declare => cases declare <;> cases n <;> exact nofun
  | interface | typeAlias => exact nofun

theorem count_copy : (marksIn shape).count .copy = if exportsAll shape then 1 else 0 := by
  have hnone : (∀ source, exportForm? shape ≠ some (.wildcard source)) →
      (marksIn shape).count .copy = 0 := by
    intro h
    rw [List.count_eq_zero, marksIn]
    cases hform : exportForm? shape with
    | none => exact List.not_mem_nil
    | some form => exact copy_notMem fun source hsource => h source (hform.trans (hsource ▸ rfl))
  cases shape with
  | exportAll source typeOnly => cases typeOnly <;> rfl
  | exportDecl decl => exact hnone fun other h => formOfDecl_ne decl other (Option.some.inj h)
  | exportList entries source typeOnly =>
    exact hnone fun other => by cases typeOnly <;> cases source <;> exact nofun
  | exportDefaultDecl decl => exact hnone fun other => by cases decl <;> exact nofun
  | _ => exact hnone nofun

theorem count_copies (items : List Item) :
    (items.flatMap fun item => marksIn item.shape).count .copy =
      items.countP (exportsAll ·.shape) := by
  induction items with
  | nil => rfl
  | cons item items ih =>
    rw [List.flatMap_cons, List.count_append, count_copy, ih, List.countP_cons, Nat.add_comm]

end

/-! ### Modules -/

/-- The edits of a module when its object of exports has this name. -/
def editsUnder (config : Config) (path : String) (bodyLength : Nat) (m : Module)
    (exports : String) : List Edit :=
  let s : Setting :=
    { config, path, source := m.source, bodyLength := min bodyLength (byteLength m.source) }
  ((s.exporting exports).convertItems {} m.items).1.edits ++ metaEdits config m.metas

/-- Edits assign to a name of the object of exports, whatever that is called. What only looks like
an assignment under one name, as in the specifier of an import, is none under another. -/
def Assigns (edits : String → List Edit) (name : String) : Prop :=
  ∀ exports, ∃ e ∈ edits exports, assignmentStart exports name <:+: e.text.toList

/-- How often edits seem to copy a whole module into the object of exports. -/
def copies (edits : List Edit) (exports : String) : Nat :=
  (edits.map fun e => occurrences (copyStart exports) e.text.toList).sum

theorem editsUnder_applied {config : Config} {path : String} {bodyLength : Nat} {m : Module}
    {c : Converted} (h : (convert config path bodyLength m).1 = .ok c) :
    applyAll (editsUnder config path bodyLength m config.exportsIdent)
      ((takeBytes? m.source (min bodyLength (byteLength m.source))).getD m.source) =
        .ok c.body.toList := by
  obtain ⟨done, hdone, happlied⟩ := convert_inv h
  have hself : editsUnder config path bodyLength m config.exportsIdent =
      done.edits ++ metaEdits config m.metas := by rw [editsUnder, exporting_self, hdone]
  rwa [hself]

theorem editsUnder_writes {config : Config} {path : String} {bodyLength : Nat} {m : Module}
    {c : Converted} (h : (convert config path bodyLength m).1 = .ok c) :
    Writes (fun exports => (editsUnder config path bodyLength m exports).map Edit.text)
      (m.items.flatMap fun item => marksIn item.shape) := by
  obtain ⟨done, hdone, -⟩ := convert_inv h
  rw [← exporting_self ⟨config, path, m.source, _⟩] at hdone
  obtain ⟨all, hall, hitems⟩ := convertItems_renders (fun _ => {}) config.exportsIdent
    (fun _ => rfl) (Writes.const []) hdone
  have hedits : ∀ exports, (editsUnder config path bodyLength m exports).map Edit.text =
      (all exports).edits.map Edit.text ++ (metaEdits config m.metas).map Edit.text := by
    intro exports
    rw [editsUnder, hall, List.map_append]
  simp only [hedits]
  rw [← List.append_nil (m.items.flatMap _)]
  exact hitems.append (.const _)

theorem editsUnder_assigns {config : Config} {path : String} {bodyLength : Nat} {m : Module}
    {c : Converted} (h : (convert config path bodyLength m).1 = .ok c) (name : String) :
    Assigns (editsUnder config path bodyLength m) name ↔
      ∃ item ∈ m.items, Counts item.shape name := by
  have hassigned := (editsUnder_writes h).assigned_iff name
  simp only [List.mem_map, exists_exists_and_eq_and, List.mem_flatMap, counts_iff] at hassigned
  exact hassigned

theorem editsUnder_copies {config : Config} {path : String} {bodyLength : Nat} {m : Module}
    {c : Converted} (h : (convert config path bodyLength m).1 = .ok c) :
    IsLeast (Set.range fun exports => copies (editsUnder config path bodyLength m exports) exports)
      (m.items.countP (exportsAll ·.shape)) := by
  have hleast := (editsUnder_writes h).copied_least
  simp only [List.map_map, count_copies] at hleast
  exact hleast

/-- A converted module assigns to its object of exports exactly the names that its items export, and
copies a module into it once for each item that exports all of one. Whether the signature of a default
function is an export is left open. -/
theorem exports_assigned {config : Config} {path : String} {bodyLength : Nat} {m : Module}
    {c : Converted} (h : (convert config path bodyLength m).1 = .ok c) :
    applyAll (editsUnder config path bodyLength m config.exportsIdent)
      ((takeBytes? m.source (min bodyLength (byteLength m.source))).getD m.source) =
        .ok c.body.toList ∧
    (∀ item ∈ m.items, ∀ name, Exports item.shape name →
      Assigns (editsUnder config path bodyLength m) name) ∧
    (∀ name, Assigns (editsUnder config path bodyLength m) name →
      (∃ item ∈ m.items, Exports item.shape name) ∨
        name = "default" ∧ ∃ item ∈ m.items, isDefaultSignature item.shape = true) ∧
    IsLeast (Set.range fun exports => copies (editsUnder config path bodyLength m exports) exports)
      (m.items.countP (exportsAll ·.shape)) := by
  refine ⟨editsUnder_applied h, fun item hitem name hname =>
    (editsUnder_assigns h name).mpr ⟨item, hitem, .inl hname⟩, fun name hname => ?_,
    editsUnder_copies h⟩
  obtain ⟨item, hitem, hexports | ⟨hdefault, hsignature⟩⟩ := (editsUnder_assigns h name).mp hname
  · exact .inl ⟨item, hitem, hexports⟩
  · exact .inr ⟨hdefault, item, hitem, hsignature⟩

def patterned : Module where
  source :=
    ['e', 'x', 'p', 'o', 'r', 't', ' ', 'l', 'e', 't', '{', 'a', ',', 'b', ':', '[', 'c', ']', ',',
      '.', '.', '.', 'd', '}', '=', 'f', '(', ')', ',', 'e', ';',
      'e', 'x', 'p', 'o', 'r', 't', '*', 'f', 'r', 'o', 'm', '\'', 'm', '\'']
  items :=
    [⟨⟨0, 31⟩, .exportDecl (.variable false
        [⟨⟨10, 28⟩, .object ⟨10, 24⟩ [.short ⟨11, 12⟩ "a",
            .keyed (.array ⟨15, 18⟩ [some (.name ⟨16, 17⟩ "c")]), .rest (.name ⟨22, 23⟩ "d")],
            some ⟨25, 28⟩⟩,
          ⟨⟨29, 30⟩, .name ⟨29, 30⟩ "e", none⟩])⟩,
      ⟨⟨31, 45⟩, .exportAll "m" false⟩]
  metas := []
  lineComments := []

theorem patterned_converts : ∃ c, (convert {} "/a.js" 45 patterned).1 = .ok c := by
  have hlength : 45 = min 45 (byteLength patterned.source) := by decide +kernel
  have hdone : (Setting.convertItems ⟨{}, "/a.js", patterned.source, 45⟩ {} patterned.items).2 =
      none := by decide +kernel
  have hsorted : (editsUnder {} "/a.js" 45 patterned "exports").Pairwise fun a b =>
      Edit.notAfter a b = true := by decide +kernel
  have happly : (applyFrom patterned.source 0
      (editsUnder {} "/a.js" 45 patterned "exports")).toBool = true := by decide +kernel
  cases htext : applyFrom patterned.source 0 (editsUnder {} "/a.js" 45 patterned "exports") with
  | error fault =>
    rw [htext] at happly
    cases happly
  | ok text =>
    rw [← List.mergeSort_of_pairwise hsorted] at htext
    obtain ⟨c, hc, -⟩ := convert_ok hlength (Prod.ext rfl hdone) (by decide +kernel) htext
    exact ⟨c, hc⟩

theorem exports_assigned_patterned : ∃ c, (convert {} "/a.js" 45 patterned).1 = .ok c ∧
    Assigns (editsUnder {} "/a.js" 45 patterned) "d" ∧
    ¬ Assigns (editsUnder {} "/a.js" 45 patterned) "c" ∧
    IsLeast (Set.range fun exports => copies (editsUnder {} "/a.js" 45 patterned exports) exports)
      1 := by
  obtain ⟨c, hconvert⟩ := patterned_converts
  obtain ⟨-, hassigned, honly, hcopied⟩ := exports_assigned hconvert
  refine ⟨c, hconvert, hassigned _ List.mem_cons_self "d" ?_, fun hc => ?_, hcopied⟩
  · refine .destructured List.mem_cons_self ?_
    exact .restField (List.mem_cons_of_mem _ (List.mem_cons_of_mem _ List.mem_cons_self))
      (.name _ _)
  · obtain ⟨item, hitem, hname⟩ | ⟨hdefault, -⟩ := honly "c" hc
    · have hnone : ∀ item ∈ patterned.items, .assignment "c" ∉ marksIn item.shape := by decide
      exact hnone item hitem (counts_iff.mpr (.inl hname))
    · exact absurd hdefault (by decide)

/-- The names in the patterns of an exported declaration, however deep. -/
def namesInside : ItemShape → List String
  | .exportDecl (.variable false declarators) =>
    declarators.flatMap fun d => d.target.bound.map Prod.fst
  | _ => []

/-- A name in a pattern inside a pattern is not assigned. -/
theorem nested_unassigned : ∃ m c,
    Module.parse "export const \x7b a: \x7b b \x7d \x7d = f();" = .ok m ∧
    (convert {} "/a.js" (byteLength m.source) m).1 = .ok c ∧
    (∃ item ∈ m.items, "b" ∈ namesInside item.shape) ∧
    ¬ Assigns (editsUnder {} "/a.js" (byteLength m.source) m) "b" := by
  have hrun : (match Module.parse "export const \x7b a: \x7b b \x7d \x7d = f();" with
      | .error _ => false
      | .ok m => (convert {} "/a.js" (byteLength m.source) m).1.toBool &&
          m.items.any (fun item => decide ("b" ∈ namesInside item.shape)) &&
          (editsUnder {} "/a.js" (byteLength m.source) m "exports").all fun e =>
            !decide (assignmentStart "exports" "b" <:+: e.text.toList)) = true := by decide +kernel
  split at hrun
  · cases hrun
  · rename_i m hm
    simp only [Bool.and_eq_true, List.any_eq_true, decide_eq_true_eq, List.all_eq_true,
      Bool.not_eq_true', decide_eq_false_iff_not] at hrun
    obtain ⟨⟨hok, hname⟩, hnone⟩ := hrun
    cases hconvert : (convert {} "/a.js" (byteLength m.source) m).1 with
    | error fault =>
      rw [hconvert] at hok
      cases hok
    | ok c =>
      refine ⟨m, c, hm, hconvert, hname, fun hassigned => ?_⟩
      obtain ⟨e, he, hinfix⟩ := hassigned "exports"
      exact hnone e he hinfix

end ModuleHost.Wrap
