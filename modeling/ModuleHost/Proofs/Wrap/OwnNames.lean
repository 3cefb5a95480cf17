import ModuleHost.Proofs.Wrap.Bindings
import ModuleHost.Proofs.Wrap.Declared

/-! What the wrapper declares at the top level of its function: its own names, what imports bind, and
what the items of the module declare. A name of its own is declared once as long as the module leaves
it alone. -/

namespace ModuleHost.Wrap

open ModuleHost.Syntax ModuleHost.Text ModuleHost.Wrap.Edit

/-! ### The code that is written into a module -/

inductive Effect where
  | assign (exported value : String)
  | copy (call : String)
  | block (fields : List Field) (call : String) (assigned : List (String × String))

/-- What an edit puts into the text of a module. -/
inductive Code where
  | run (closes spaced : Bool) (effects : List Effect)
  | constant (name exported : String) (spaced : Bool)
  | assigning (exported : String)
  | unassigned (exported : String)

def Code.declares : Code → List String
  | .constant name _ _ => [name]
  | _ => []

section

variable (exports : String)

def assignText (exported value : String) : String := member exports exported ++ " = " ++ value ++ ";"

def Effect.text : Effect → String
  | .assign exported value => assignText exports exported value
  | .copy call => "Object.assign(" ++ exports ++ ", " ++ call ++ ");"
  | .block fields call assigned =>
    inBraces ("const " ++ (Target.parts fields).text ++ " = " ++ call ++ "; " ++
      String.intercalate " " (assigned.map fun (exported, value) =>
        assignText exports exported value))

def Code.text : Code → String
  | .run closes spaced effects => (if closes then ";" else "") ++ (if spaced then " " else "") ++
      String.intercalate " " (effects.map (Effect.text exports))
  | .constant name exported spaced =>
    "const " ++ name ++ " = " ++ member exports exported ++ " =" ++ if spaced then " " else ""
  | .assigning exported => member exports exported ++ " = "
  | .unassigned exported => " = " ++ member exports exported ++ " = undefined"

theorem Code.statements_text (effects : List Effect) : (Code.run false false effects).text exports =
    String.intercalate " " (effects.map (Effect.text exports)) := by
  rw [Code.text, if_neg Bool.false_ne_true, if_neg Bool.false_ne_true, String.append_empty,
    String.empty_append]

/-- Edits put code into a text that declares some names. -/
def Puts (edits : List Edit) (names : List String) : Prop := ∃ codes : List Code,
  edits.map Edit.text = codes.map (Code.text exports) ∧ codes.flatMap Code.declares = names

end

variable {s : Setting} {span : Span} {first : Nat} {c : Contribution} {form : ExportForm}
  {item : Item} {E F : List Edit} {declared more : List String} {exports path : String}
  {config : Config}

namespace Puts

theorem nil : Puts exports [] [] := ⟨[], rfl, rfl⟩

theorem single {e : Edit} (code : Code) (h : e.text = code.text exports) :
    Puts exports [e] code.declares :=
  ⟨[code], congrArg (· :: []) h, List.append_nil _⟩

theorem append (hE : Puts exports E declared) (hF : Puts exports F more) :
    Puts exports (E ++ F) (declared ++ more) := by
  obtain ⟨codes, hcodes, rfl⟩ := hE
  obtain ⟨others, hothers, rfl⟩ := hF
  exact ⟨codes ++ others, by rw [List.map_append, List.map_append, hcodes, hothers],
    List.flatMap_append⟩

theorem statements {e : Edit} (effects : List Effect)
    (h : e.text = String.intercalate " " (effects.map (Effect.text exports))) :
    Puts exports [e] [] :=
  single (.run false false effects) (h.trans (Code.statements_text exports effects).symm)

theorem removal {e : Edit} (h : e.text = "") : Puts exports [e] [] := statements [] h

end Puts

theorem assignments_text (s : Setting) {ι : Type} (l : List ι) (name value : ι → String) :
    String.intercalate " " (l.map fun i => s.assignment (name i) (value i)) =
      String.intercalate " " ((l.map fun i => Effect.assign (name i) (value i)).map
        (Effect.text s.config.exportsIdent)) := by
  rw [List.map_map]
  rfl

theorem append_puts (s : Setting) (span : Span) (effects : List Effect) :
    Puts s.config.exportsIdent (s.append span
      (String.intercalate " " (effects.map (Effect.text s.config.exportsIdent)))) [] := by
  obtain ⟨exports, hexports⟩ : ∃ exports, exports = s.config.exportsIdent := ⟨_, rfl⟩
  rw [← hexports]
  obtain ⟨text, htext⟩ :
    ∃ text, text = String.intercalate " " (effects.map (Effect.text exports)) := ⟨_, rfl⟩
  obtain ⟨closes, hcloses⟩ : ∃ closes : Bool, (if (trimEnd (s.sourceUpTo span.hi)).getLast? = some ';'
      then "" else ";") = if closes then ";" else "" := by
    by_cases hlast : (trimEnd (s.sourceUpTo span.hi)).getLast? = some ';'
    · exact ⟨false, if_pos hlast⟩
    · exact ⟨true, if_neg hlast⟩
  have hcode : ∃ spaced effects, (if closes then ";" else "") ++
      (if text.isEmpty then "" else " " ++ text) = (Code.run closes spaced effects).text exports := by
    cases hempty : text.isEmpty with
    | true => exact ⟨false, [], by rw [Code.text, String.append_assoc]; rfl⟩
    | false => exact ⟨true, effects, by rw [Code.text, ← htext, String.append_assoc]; rfl⟩
  obtain ⟨spaced, written, hcode⟩ := hcode
  have happend : s.append span text =
      if ((Code.run closes spaced written).text exports).isEmpty then []
      else [.insert span.hi ((Code.run closes spaced written).text exports)] := by
    rw [← hcode, ← hcloses]
    rfl
  rw [← htext, happend]
  split
  · exact .nil
  · exact .single (.run closes spaced written) rfl

theorem bindDeclaration_puts {name : String} (h : s.bindDeclaration span name = .ok c) :
    Puts s.config.exportsIdent c.edits [name] := by
  obtain ⟨keyword, -, h⟩ := bind_ok h
  cases h
  have hconstant : Puts s.config.exportsIdent [⟨keyword.lo, keyword.hi,
      "const " ++ name ++ " = " ++ s.exportTarget name ++ " ="⟩] [name] :=
    .single (.constant name name false) String.append_empty.symm
  exact hconstant.append (append_puts s span [])

theorem inside_puts (s : Setting) (declarators : List Declarator) :
    Puts s.config.exportsIdent (declarators.filterMap (assigned s)) [] := by
  induction declarators with
  | nil => exact .nil
  | cons d declarators ih =>
    cases hassigned : assigned s d with
    | none => rwa [List.filterMap_cons_none hassigned]
    | some e =>
      rw [List.filterMap_cons_some hassigned]
      have hinside : ∃ code : Code, e.text = code.text s.config.exportsIdent ∧
          code.declares = [] := by
        unfold assigned at hassigned
        split at hassigned
        · rename_i name htarget
          obtain rfl := Option.some.inj hassigned
          unfold Setting.assignInside
          split
          · exact ⟨.assigning name, rfl, rfl⟩
          · exact ⟨.unassigned name, rfl, rfl⟩
        · cases hassigned
      obtain ⟨code, htext, hnone⟩ := hinside
      exact (hnone ▸ Puts.single code htext).append ih

theorem convertVariables_puts {declarators : List Declarator}
    (h : s.convertVariables span declarators = .ok c) : Puts s.config.exportsIdent c.edits [] := by
  obtain ⟨removal, hremoval, h⟩ := bind_ok h
  obtain ⟨keyword, -, hremoved⟩ := bind_ok hremoval
  cases h
  cases hremoved
  obtain ⟨names, hnames⟩ : ∃ names, names = declarators.flatMap fun d => topLevelBindings d.target :=
    ⟨_, rfl⟩
  have hbehind : Puts s.config.exportsIdent (if names.isEmpty then [] else s.append span
      (String.intercalate " " (names.map fun name => s.assignment name name))) [] := by
    split
    · exact .nil
    · rw [assignments_text s names (fun name => name) fun name => name]
      exact append_puts s span _
  rw [hnames] at hbehind
  exact (Puts.removal rfl).append ((inside_puts s declarators).append hbehind)

theorem convertLocalList_puts (s : Setting) (span : Span) (entries : List ExportEntry) :
    Puts s.config.exportsIdent (s.convertLocalList span entries).edits [] :=
  .statements _ (assignments_text s (entries.filterMap ExportEntry.pair?) Prod.snd Prod.fst)

def blockOf (call : String) (first : Nat) (pairs : List (String × String)) : Effect :=
  .block ((pairs.zipIdx first).map fun i => ⟨some (keyOf i.1.1), Setting.temporary i.2⟩) call
    ((pairs.zipIdx first).map fun i => (i.1.2, Setting.temporary i.2))

theorem reexportBlock_text (s : Setting) (call : String) (first : Nat)
    (pairs : List (String × String)) :
    s.reexportBlock call first pairs = (blockOf call first pairs).text s.config.exportsIdent := by
  have hkeys : ∀ i : (String × String) × Nat, patternKey i.1.1 ++ ": " ++ Setting.temporary i.2 =
      (Field.mk (some (keyOf i.1.1)) (Setting.temporary i.2)).text := by
    intro i
    unfold patternKey keyOf
    split <;> rfl
  have hfields : (pairs.zipIdx first).map (fun i =>
      patternKey i.1.1 ++ ": " ++ Setting.temporary i.2) = ((pairs.zipIdx first).map fun i =>
        Field.mk (some (keyOf i.1.1)) (Setting.temporary i.2)).map Field.text := by
    rw [List.map_map]
    exact List.map_congr_left fun i _ => hkeys i
  have hassigned : (pairs.zipIdx first).map (fun i =>
      s.assignment i.1.2 (Setting.temporary i.2)) = ((pairs.zipIdx first).map fun i =>
        (i.1.2, Setting.temporary i.2)).map fun (exported, value) =>
          assignText s.config.exportsIdent exported value := by
    rw [List.map_map]
    rfl
  unfold blockOf Effect.text Target.text
  dsimp only
  rw [← hfields, ← hassigned]
  rfl

theorem convertReexports_puts (s : Setting) (first : Nat) (span : Span) (entries : List ExportEntry)
    (source : String) :
    Puts s.config.exportsIdent (s.convertReexports first span entries source).edits [] := by
  obtain ⟨pairs, hpairs⟩ : ∃ pairs, pairs = entries.filterMap ExportEntry.pair? := ⟨_, rfl⟩
  obtain ⟨namespaces, hnamespaces⟩ :
    ∃ namespaces, namespaces = entries.filterMap ExportEntry.namespaceName? := ⟨_, rfl⟩
  obtain ⟨call, hcall⟩ : ∃ call, call = (s.resolutionOf source).1 := ⟨_, rfl⟩
  have hstatements : namespaces.map (fun name => s.assignment name call) ++
      (if pairs.isEmpty then [] else [s.reexportBlock call first pairs]) =
        (namespaces.map (fun name => Effect.assign name call) ++
          (if pairs.isEmpty then [] else [blockOf call first pairs])).map
            (Effect.text s.config.exportsIdent) := by
    rw [List.map_append, List.map_map, reexportBlock_text]
    congr 1
    split <;> rfl
  unfold Setting.convertReexports
  dsimp only
  rw [← hpairs, ← hnamespaces]
  split
  · exact .removal rfl
  · rw [(resolutionOf_found s source _).1]
    exact .statements _ (congrArg (String.intercalate " ") (hcall ▸ hstatements))

theorem replaceDefault_writes {text : String} {e : Edit} (h : s.replaceDefault span text = .ok e) :
    e.text = text := by
  obtain ⟨keyword, -, h⟩ := bind_ok h
  dsimp only at h
  split at h
  · cases h
  · cases h
    rfl

theorem convertExport_puts (h : s.convertExport first span form = .ok c) :
    Puts s.config.exportsIdent c.edits form.constant?.toList := by
  cases form with
  | function name | classForm name => exact bindDeclaration_puts h
  | «variable» declarators => exact convertVariables_puts h
  | localList entries =>
    cases h
    exact convertLocalList_puts s span entries
  | reexportList entries source =>
    cases h
    exact convertReexports_puts s first span entries source
  | default name =>
    obtain ⟨e, he, h⟩ := bind_ok h
    cases h
    have htext := replaceDefault_writes he
    cases name with
    | some name =>
      have hcode : e.text = (Code.constant name "default" true).text s.config.exportsIdent := by
        have hspace : " = " = " =" ++ " " := rfl
        rw [htext, Code.text, if_pos rfl, ← String.append_assoc]
        nth_rewrite 2 [hspace]
        exact String.append_assoc.symm
      exact (Puts.single _ hcode).append (append_puts s span [])
    | none =>
      exact (Puts.single (.assigning "default") htext).append (append_puts s span [])
  | wildcard source =>
    obtain ⟨call, hcall⟩ : ∃ call, call = (s.resolutionOf source).1 := ⟨_, rfl⟩
    have hedits : c.edits = [⟨span.lo, span.hi,
        "Object.assign(" ++ s.config.exportsIdent ++ ", " ++ call ++ ");"⟩] := by
      obtain rfl := Except.ok.inj h
      rw [hcall]
      exact (resolutionOf_found s source _).1
    rw [hedits]
    exact .statements [.copy call] String.intercalate_singleton.symm
  | localDeclaration name =>
    obtain ⟨removal, hremoval, h⟩ := bind_ok h
    obtain ⟨keyword, -, hremoved⟩ := bind_ok hremoval
    cases h
    cases hremoved
    exact (Puts.removal rfl).append (append_puts s span [.assign name name])
  | typeOnly =>
    cases h
    exact .removal rfl

theorem convertItem_puts (h : s.convertItem first item = .ok c) :
    Puts s.config.exportsIdent c.edits (constantOf item).toList := by
  unfold constantOf
  cases hform : exportForm? item.shape with
  | some form =>
    rw [convertItem_export s first item hform] at h
    exact convertExport_puts h
  | none =>
    cases herased : erased item.shape with
    | true =>
      obtain ⟨removed, hremoved, hedits, -⟩ := item_erased s first item herased
      obtain rfl : removed = c := Except.ok.inj (hremoved.symm.trans h)
      rw [hedits]
      exact .removal rfl
    | false =>
      obtain ⟨same, hsame, hedits, -⟩ := convertItem_none s first item hform herased
      obtain rfl : same = c := Except.ok.inj (hsame.symm.trans h)
      rw [hedits]
      exact .nil

/-- The code for some items, one list for each, declares the constants that they become. -/
def DeclaresFor (items : List Item) (codes : List (List Code)) : Prop :=
  List.Forall₂ (fun item code => code.flatMap Code.declares = (constantOf item).toList) items codes

theorem convertItems_puts {items : List Item} {done all : Contribution}
    (h : s.convertItems done items = (all, none)) : ∃ edits codes,
      all.edits = done.edits ++ edits ∧
        edits.map Edit.text = codes.flatten.map (Code.text s.config.exportsIdent) ∧
        DeclaresFor items codes := by
  induction items generalizing done with
  | nil =>
    cases h
    exact ⟨[], [], (List.append_nil _).symm, rfl, .nil⟩
  | cons item items ih =>
    rw [Setting.convertItems] at h
    split at h
    · rename_i next hnext
      obtain ⟨code, hcode, hdeclares⟩ := convertItem_puts hnext
      obtain ⟨edits, codes, hedits, htexts, hmore⟩ := ih h
      refine ⟨next.edits ++ edits, code :: codes, ?_, ?_, .cons hdeclares hmore⟩
      · rw [hedits, append_edits, List.append_assoc]
      · rw [List.map_append, List.flatten_cons, List.map_append, hcode, htexts]
    · cases h

theorem DeclaresFor.names {items : List Item} {codes : List (List Code)} (h : DeclaresFor items codes) :
    codes.flatten.flatMap Code.declares = items.flatMap fun item => (constantOf item).toList := by
  induction h with
  | nil => rfl
  | cons hcode _ ih => rw [List.flatten_cons, List.flatMap_append, List.flatMap_cons, hcode, ih]

/-! ### The names of statements for imports -/

def Target.names : Target → List String
  | .whole name => [name]
  | .parts fields => fields.map Field.name

def Stmt.names : Stmt → List String
  | .run _ => []
  | .declare target _ => target.names

theorem named_names (named : List NamedBinding) :
    (named.map NamedBinding.field).map Field.name = named.map NamedBinding.name := by
  rw [List.map_map]
  exact List.map_congr_left fun b _ => (field_binding b).1

theorem defaults_names (default : Option String) :
    (default.map defaultField).toList.map Field.name = default.toList := by
  cases default <;> rfl

theorem bindings_names (r : ImportRecord) (n : Nat) : (r.bindings n).map Prod.fst =
    r.namespaceName.toList ++ (r.default.toList ++ r.named.map NamedBinding.name) := by
  have hone : ∀ (o : Option String) (found : Found),
      (o.map fun name => (name, found)).toList.map Prod.fst = o.toList := by
    intro o found
    cases o <;> rfl
  rw [ImportRecord.bindings, List.map_append, List.map_append, hone, hone, List.map_map]
  rfl

theorem fromNamespace_names (r : ImportRecord) (name : String) :
    (r.fromNamespace name).flatMap Stmt.names =
      r.default.toList ++ r.named.map NamedBinding.name := by
  rw [ImportRecord.fromNamespace, List.flatMap_append]
  congr 1
  · cases r.default <;> rfl
  · split
    · rename_i hempty
      rw [List.isEmpty_iff.mp hempty]
      rfl
    · exact (List.append_nil _).trans (named_names r.named)

theorem group_names (config : Config) (r : ImportRecord) (n : Nat) :
    (r.group config).flatMap Stmt.names = (r.bindings n).map Prod.fst := by
  rw [bindings_names]
  unfold ImportRecord.group
  rcases bindingForm_cases r with ⟨hform, hnamespace, hdefault, hnamed⟩ |
    ⟨hform, hnamespace, ⟨d, hdefault⟩, hnamed⟩ | ⟨hform, hnamespace, -⟩ | ⟨hform, name, hnamespace⟩
  · rw [hform, hnamespace, hdefault, hnamed]
    rfl
  · rw [hform, hnamespace, hdefault, hnamed]
    rfl
  · rw [hform, hnamespace, ← named_names, ← defaults_names r.default, Option.toList_none,
      List.nil_append, ← List.map_append]
    exact List.append_nil _
  · rw [hform, hnamespace, ← fromNamespace_names r name]
    rfl

theorem record_names (config : Config) (i : ValueImport) (h : ImportClause i.entries) :
    (((i.record config).group config).flatMap Stmt.names).Perm (i.bound.map Prod.fst) := by
  have hperm := (importRecord_bindings i.source (resolutionFor config i.source) h 0).map Prod.fst
  rw [List.map_map] at hperm
  rw [group_names config _ 0]
  exact hperm

/-! ### The head of the wrapper -/

def headConstants (config : Config) (path : String) : List (String × String) :=
  [(config.exportsIdent, "\x7b\x7d"),
    (config.moduleIdent, inBraces ("exports: " ++ config.exportsIdent)),
    (config.importMetaIdent, inBraces ("url: " ++ Json.quote path ++ ", hot: null"))]

def constantLine : String × String → String
  | (name, value) => "  const " ++ name ++ " = " ++ value ++ ";\n"

theorem wrapperHead_eq (config : Config) (path : String) : wrapperHead config path =
    "(async function() \x7b\n" ++ String.join ((headConstants config path).map constantLine) ++
      "\n" := by
  show "(async function() \x7b\n" ++
    "  const " ++ config.exportsIdent ++ (" = " ++ "\x7b\x7d" ++ ";\n") ++
    "  const " ++ config.moduleIdent ++ " = " ++ inBraces ("exports: " ++ config.exportsIdent) ++
      ";\n" ++
    "  const " ++ config.importMetaIdent ++ " = " ++
      inBraces ("url: " ++ Json.quote path ++ ", hot: null") ++ (";\n" ++ "\n") = _
  simp only [headConstants, List.map_cons, List.map_nil, constantLine, String.join_cons,
    String.join_nil, String.append_empty, String.append_assoc, -String.reduceAppend]

theorem headConstants_names (config : Config) (path : String) :
    (headConstants config path).map Prod.fst = headNames config := rfl

/-! ### The whole wrapper -/

/-- The text that a conversion edits. -/
def bodyText (m : Module) (bodyLength : Nat) : List Char :=
  (takeBytes? m.source (min bodyLength (byteLength m.source))).getD m.source

/-- A wrapper consists of its head, groups of statements for imports, and a body into which code has
been put. -/
structure Assembled (config : Config) (path : String) (bodyLength : Nat) (m : Module) (c : Converted)
    (groups : List (List Stmt)) (codes : List (List Code)) : Prop where
  text : c.wrap config path = "(async function() \x7b\n" ++
    String.join ((headConstants config path).map constantLine) ++ "\n" ++ sectionOf groups ++
    String.ofList (trimEnd c.body.toList) ++ "\n\n" ++ registration config path c.hasExports ++
    "  return " ++ config.moduleIdent ++ ";\n\x7d)();\n"
  imports : List.Forall₂ (fun i group => (group.flatMap Stmt.names).Perm (i.bound.map Prod.fst))
    (valueImports m) groups
  items : DeclaresFor m.items codes
  body : ∃ edits, edits.map Edit.text = codes.flatten.map (Code.text config.exportsIdent) ∧
    applyAll (edits ++ metaEdits config m.metas) (bodyText m bodyLength) = .ok c.body.toList

/-- The names that are declared at the top level of the function: in its head, for imports, by code
that was put into the body, and by what is left of the declarations there. -/
def declaredNames (config : Config) (path : String) (m : Module) (groups : List (List Stmt))
    (codes : List (List Code)) : List String :=
  (headConstants config path).map Prod.fst ++ (groups.flatten.flatMap Stmt.names ++
    (codes.flatten.flatMap Code.declares ++ m.items.flatMap (keptBy m.source)))

theorem convert_assembled {bodyLength : Nat} {code : String} {m : Module} {c : Converted}
    (hparse : Module.parse code = .ok m) (h : (convert config path bodyLength m).1 = .ok c) :
    ∃ groups codes, Assembled config path bodyLength m c groups codes := by
  have hclauses := parse_clauses hparse
  obtain ⟨done, hdone, happly, hrecords⟩ := convert_done h
  obtain ⟨edits, codes, hedits, htexts, hdeclares⟩ := convertItems_puts hdone
  have himports : c.imports = (valueImports m).map (ValueImport.record config) := by
    rw [hrecords, convertItems_imports hclauses hdone]
    rfl
  refine ⟨(valueImports m).map fun i => (i.record config).group config, codes, ?_, ?_, hdeclares,
    edits, htexts, ?_⟩
  · rw [Converted.wrap, wrapperHead_eq, importSection_eq, himports, List.map_map]
    rfl
  · rw [List.forall₂_map_right_iff, List.forall₂_same]
    exact fun i hi => record_names config i (valueImports_clause hclauses hi)
  · obtain rfl : done.edits = edits := hedits
    exact happly

theorem forall_groups {imports : List ValueImport} {groups : List (List Stmt)} {p : String → Prop}
    (h : List.Forall₂ (fun i group => (group.flatMap Stmt.names).Perm (i.bound.map Prod.fst))
      imports groups) :
    (∀ name ∈ groups.flatten.flatMap Stmt.names, p name) ↔
      ∀ i ∈ imports, ∀ binding ∈ i.bound, p binding.1 := by
  induction h with
  | nil => exact iff_of_true nofun nofun
  | @cons i group imports groups hgroup _ ih =>
    have hfirst : (∀ name ∈ group.flatMap Stmt.names, p name) ↔
        ∀ binding ∈ i.bound, p binding.1 := by
      rw [← List.forall_mem_map (P := p) (f := Prod.fst)]
      exact forall_congr' fun name => by rw [hgroup.mem_iff]
    rw [List.flatten_cons, List.flatMap_append, List.forall_mem_append, List.forall_mem_cons, ih,
      hfirst]

theorem forall_declared {items : List Item} {codes : List (List Code)} {p : String → Prop}
    (h : DeclaresFor items codes) (source : List Char) :
    (∀ name ∈ codes.flatten.flatMap Code.declares ++ items.flatMap (keptBy source), p name) ↔
      ∀ item ∈ items, ∀ name ∈ declaredBy source item, p name := by
  rw [h.names, List.forall_mem_append, List.forall_mem_flatMap, List.forall_mem_flatMap,
    ← forall₂_and]
  exact forall₂_congr fun item _ => by rw [declaredBy_eq, List.forall_mem_append]

theorem count_own_iff (own others : List String) :
    (∀ name ∈ own, (own ++ others).count name = 1) ↔ own.Nodup ∧ ∀ name ∈ others, name ∉ own := by
  have hcount : ∀ name ∈ own, ((own ++ others).count name = 1 ↔
      own.count name = 1 ∧ name ∉ others) := by
    intro name hname
    have hpos := List.count_pos_iff.mpr hname
    rw [List.count_append, ← List.count_eq_zero]
    omega
  rw [forall₂_congr hcount, forall₂_and, List.nodup_iff_count_eq_one]
  exact and_congr_right fun _ =>
    ⟨fun h name hother hown => h name hown hother, fun h name hown hother => h name hother hown⟩

/-- The wrapper declares each of its own names once exactly if these names differ, no import binds one
of them, and no item of the module declares one. -/
theorem own_names_declared_once {bodyLength : Nat} {code : String} {m : Module} {c : Converted}
    (hparse : Module.parse code = .ok m) (h : (convert config path bodyLength m).1 = .ok c) :
    ∃ groups codes, Assembled config path bodyLength m c groups codes ∧
      ((∀ name ∈ headNames config, (declaredNames config path m groups codes).count name = 1) ↔
        (headNames config).Nodup ∧
        (∀ i ∈ valueImports m, ∀ binding ∈ i.bound, binding.1 ∉ headNames config) ∧
        ∀ item ∈ m.items, ∀ name ∈ declaredBy m.source item, name ∉ headNames config) := by
  obtain ⟨groups, codes, hassembled⟩ := convert_assembled hparse h
  refine ⟨groups, codes, hassembled, ?_⟩
  rw [declaredNames, headConstants_names, count_own_iff, List.forall_mem_append,
    forall_groups hassembled.imports, forall_declared hassembled.items]

theorem own_names_declared_once_mixed : ∃ m c groups codes,
    Module.parse "import d,\x7ba as b\x7dfrom'm';const\x7bx,y:[z]\x7d=b()" = .ok m ∧
    (convert {} "/a.js" 43 m).1 = .ok c ∧ Assembled {} "/a.js" 43 m c groups codes ∧
    m.items.flatMap (declaredBy m.source) = ["x", "z"] ∧
    ∀ name ∈ ["exports", "module", "__import_meta"],
      (declaredNames {} "/a.js" m groups codes).count name = 1 := by
  obtain ⟨m, hparse, hm⟩ : ∃ m,
      Module.parse "import d,\x7ba as b\x7dfrom'm';const\x7bx,y:[z]\x7d=b()" = .ok m ∧
      (decide (m.items.flatMap (declaredBy m.source) = ["x", "z"] ∧
        ∀ i ∈ valueImports m, ∀ binding ∈ i.bound, binding.1 ∉ headNames {}) &&
          answers (fun _ => true) (convert {} "/a.js" 43 m).1) = true :=
    exists_of_answers (by decide +kernel)
  obtain ⟨hnames, hanswers⟩ := (Bool.and_eq_true _ _).mp hm
  obtain ⟨hitems, himports⟩ := of_decide_eq_true hnames
  obtain ⟨c, hc, -⟩ := exists_of_answers hanswers
  have hapart : ∀ name ∈ m.items.flatMap (declaredBy m.source), name ∉ headNames {} := by
    rw [hitems]
    decide
  rw [List.forall_mem_flatMap] at hapart
  obtain ⟨groups, codes, hassembled, honce⟩ := own_names_declared_once hparse hc
  exact ⟨m, c, groups, codes, hparse, hc, hassembled, hitems,
    honce.mpr ⟨by decide, himports, hapart⟩⟩

def collision : String :=
  "(async function() \x7b\n  const exports = \x7b\x7d;\n  const module = \x7b exports: exports \x7d;\n" ++
  "  const __import_meta = \x7b url: \"/a.js\", hot: null \x7d;\n\nconst module = 1;\n\n" ++
  "  return module;\n\x7d)();\n"

/-- A module may declare a name of the wrapper. -/
theorem module_declared_twice : ∃ m c, Module.parse "const module = 1;" = .ok m ∧
    m.items.flatMap (declaredBy m.source) = ["module"] ∧ "module" ∈ headNames {} ∧
    (convert {} "/a.js" 17 m).1 = .ok c ∧ c.wrap {} "/a.js" = collision := by
  obtain ⟨m, hparse, hm⟩ : ∃ m, Module.parse "const module = 1;" = .ok m ∧
      (decide (m.items.flatMap (declaredBy m.source) = ["module"]) &&
        answers (fun c => decide (c.wrap {} "/a.js" = collision))
          (convert {} "/a.js" 17 m).1) = true :=
    exists_of_answers (by decide +kernel)
  obtain ⟨hitems, hanswers⟩ := (Bool.and_eq_true _ _).mp hm
  obtain ⟨c, hc, htext⟩ := exists_of_answers hanswers
  exact ⟨m, c, hparse, of_decide_eq_true hitems, by decide, hc, of_decide_eq_true htext⟩

end ModuleHost.Wrap
