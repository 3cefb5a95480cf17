import ModuleHost.Proofs.Wrap.Dependencies
import ModuleHost.Proofs.Wrap.Exported

/-! Exports that have no value when the module runs are taken out, and every other export is assigned.
A default function counts as one with a value even if it has no body. -/

namespace ModuleHost.Wrap

open ModuleHost.Syntax ModuleHost.Text ModuleHost.Wrap.Edit

/-- The shape of an export tells that it has no value when the module runs. -/
inductive Valueless : ItemShape → Prop where
  | interface : Valueless (.exportDecl .interface)
  | typeAlias : Valueless (.exportDecl .typeAlias)
  | declared (decl : Decl) : Valueless (.exportDecl decl.declared)
  | signature (name : String) (declare : Bool) :
    Valueless (.exportDecl (.function name declare false))
  | foreignModule (declare : Bool) : Valueless (.exportDecl (.namespaceDecl .string declare))
  | defaultSignature (name : Option String) : Valueless (.exportDefaultDecl (.function name false))
  | defaultInterface : Valueless (.exportDefaultDecl .interface)
  | list (entries : List ExportEntry) (source : Option String) :
    Valueless (.exportList entries source true)
  | typeList {entries : List ExportEntry} (source : Option String) (typeOnly : Bool) :
    entries ≠ [] → (∀ entry ∈ entries, isTypeExport entry = true) →
      Valueless (.exportList entries source typeOnly)
  | all (source : String) : Valueless (.exportAll source true)
  | asNamespace : Valueless .exportAsNamespace

variable {s : Setting} {span : Span} {first : Nat} {item : Item} {part : Contribution}
  {form : ExportForm} {shape : ItemShape} {name : String}

theorem formOfDecl_declared (decl : Decl) : formOfDecl decl.declared = .typeOnly := by
  cases decl <;> rfl

theorem pairs_nil {entries : List ExportEntry}
    (h : ∀ entry ∈ entries, isTypeExport entry = true) : entries.filterMap ExportEntry.pair? = [] := by
  refine List.filterMap_eq_nil_iff.mpr fun entry hentry => ?_
  cases entry with
  | namespaceAs name => cases h _ hentry
  | named listed exported typeOnly =>
    obtain rfl : typeOnly = true := h _ hentry
    rfl

theorem typeOnly_erased (hform : exportForm? item.shape = some .typeOnly) :
    ∃ part, s.convertItem first item = .ok part ∧ Erases s item part :=
  ⟨_, convertItem_export s first item hform, erases_removed s item⟩

theorem typeList_erased {entries : List ExportEntry} (source : Option String)
    (h : ∀ entry ∈ entries, isTypeExport entry = true) :
    ∃ part, s.convertItem first ⟨span, .exportList entries source false⟩ = .ok part ∧
      Erases s ⟨span, .exportList entries source false⟩ part := by
  cases source with
  | none =>
    refine ⟨s.convertLocalList span entries, rfl, ?_⟩
    unfold Setting.convertLocalList
    rw [pairs_nil h]
    exact erases_replaced s ⟨span, .exportList entries none false⟩
  | some source =>
    exact ⟨s.convertReexports first span entries source, rfl,
      (convertReexports_types s first ⟨span, _⟩ source (List.all_eq_true.mpr h)).1⟩

theorem Valueless.erased (h : Valueless item.shape) (hbody : isDefaultSignature item.shape = false) :
    ∃ part, s.convertItem first item = .ok part ∧ Erases s item part := by
  obtain ⟨span, shape⟩ := item
  cases h with
  | defaultSignature name => cases hbody
  | declared decl => exact typeOnly_erased (congrArg some (formOfDecl_declared decl))
  | signature name declare | foreignModule declare => cases declare <;> exact typeOnly_erased rfl
  | typeList source typeOnly _ htypes =>
    cases typeOnly with
    | true => exact typeOnly_erased rfl
    | false => exact typeList_erased source htypes
  | _ => exact typeOnly_erased rfl

theorem marks_visible {mark : Part} (h : mark ∈ marksOf form) :
    (∃ name, mark = .assignment name) ∨ mark = .copy := by
  cases form with
  | «variable» declarators =>
    rcases List.mem_append.mp h with h | h
    · obtain ⟨d, -, hd⟩ := List.mem_filterMap.mp h
      unfold insideMark at hd
      split at hd
      · exact .inl ⟨_, (Option.some.inj hd).symm⟩
      · cases hd
    · obtain ⟨name, -, rfl⟩ := List.mem_map.mp h
      exact .inl ⟨name, rfl⟩
  | localList entries =>
    obtain ⟨pair, -, rfl⟩ := List.mem_map.mp h
    exact .inl ⟨pair.2, rfl⟩
  | reexportList entries source =>
    rcases List.mem_append.mp h with h | h
    · obtain ⟨name, -, rfl⟩ := List.mem_map.mp h
      exact .inl ⟨name, rfl⟩
    · obtain ⟨pair, -, rfl⟩ := List.mem_map.mp h
      exact .inl ⟨pair.2, rfl⟩
  | wildcard source => exact .inr (List.mem_singleton.mp h)
  | typeOnly => cases h
  | _ => exact .inl ⟨_, List.mem_singleton.mp h⟩

theorem isEmpty_append {α : Type} (l l' : List α) :
    (l ++ l').isEmpty = (l.isEmpty && l'.isEmpty) := by
  cases l <;> rfl

theorem inside_isEmpty (s : Setting) (declarators : List Declarator) :
    (declarators.filterMap (assigned s)).isEmpty = (declarators.filterMap insideMark).isEmpty := by
  induction declarators with
  | nil => rfl
  | cons d declarators ih =>
    cases htarget : d.target with
    | name nameSpan name =>
      have hassigned : assigned s d = some (s.assignInside d name) := by rw [assigned, htarget]
      have hmark : insideMark d = some (.assignment name) := by rw [insideMark, htarget]
      rw [List.filterMap_cons_some hassigned, List.filterMap_cons_some hmark]
      rfl
    | _ =>
      have hassigned : assigned s d = none := by rw [assigned, htarget]
      have hmark : insideMark d = none := by rw [insideMark, htarget]
      rw [List.filterMap_cons_none hassigned, List.filterMap_cons_none hmark, ih]

theorem convertExport_hasExports (h : s.convertExport first span form = .ok part) :
    part.hasExports = !(marksOf form).isEmpty := by
  cases form with
  | function name | classForm name | default name | localDeclaration name =>
    obtain ⟨replaced, -, h⟩ := bind_ok h
    cases h
    rfl
  | «variable» declarators =>
    obtain ⟨removal, -, h⟩ := bind_ok h
    cases h
    have hinside := inside_isEmpty s declarators
    show (!(declarators.filterMap (assigned s)).isEmpty || !_) = _
    rw [hinside, marksOf, isEmpty_append, List.isEmpty_map, Bool.not_and]
  | localList entries =>
    cases h
    show (!((entries.filterMap ExportEntry.pair?).map _).isEmpty) = _
    rw [marksOf, List.isEmpty_map, List.isEmpty_map]
  | reexportList entries source =>
    cases h
    unfold Setting.convertReexports
    dsimp only
    rw [marksOf, isEmpty_append, List.isEmpty_map, List.isEmpty_map, Bool.and_comm]
    split
    · rename_i hempty
      rw [hempty]
      rfl
    · rename_i hempty
      rw [Bool.eq_false_iff.mpr hempty]
      exact Bool.or_true _
  | wildcard source =>
    cases h
    exact Bool.or_true _
  | typeOnly =>
    cases h
    rfl

theorem convertItem_hasExports (h : s.convertItem first item = .ok part) :
    part.hasExports = !(marksIn item.shape).isEmpty := by
  unfold marksIn
  cases hform : exportForm? item.shape with
  | some form =>
    rw [convertItem_export s first item hform] at h
    exact convertExport_hasExports h
  | none =>
    obtain ⟨span, shape⟩ := item
    cases shape with
    | importFrom source entries typeOnly =>
      cases h
      cases typeOnly with
      | true => rfl
      | false => exact (convertImport_finds s span source entries).2.2
    | statement | importEquals | exportAssignment =>
      cases h
      rfl
    | _ => cases hform

theorem marks_exports : (marksIn shape).isEmpty = false ↔
    (∃ name, Counts shape name) ∨ exportsAll shape = true := by
  have hcopy : .copy ∈ marksIn shape ↔ exportsAll shape = true := by
    rw [← List.count_pos_iff, count_copy]
    split <;> simp_all
  simp only [← counts_iff, ← hcopy]
  constructor
  · intro hsome
    obtain ⟨mark, hmark⟩ := List.exists_mem_of_ne_nil _ (List.isEmpty_eq_false_iff.mp hsome)
    unfold marksIn at hmark ⊢
    cases hform : exportForm? shape with
    | none =>
      rw [hform] at hmark
      cases hmark
    | some form =>
      rw [hform] at hmark
      rcases marks_visible hmark with ⟨name, rfl⟩ | rfl
      · exact .inl ⟨name, hmark⟩
      · exact .inr hmark
  · rintro (⟨name, hmark⟩ | hmark)
    · exact List.isEmpty_eq_false_iff.mpr (List.ne_nil_of_mem hmark)
    · exact List.isEmpty_eq_false_iff.mpr (List.ne_nil_of_mem hmark)

/-- What is written into the object of exports for an item, whatever that object is called. -/
structure Assigned (s : Setting) (first : Nat) (item : Item) (part : Contribution) : Prop where
  edits : part.edits = itemEdits s first item
  names : ∀ name, Assigns (fun exports => itemEdits (s.exporting exports) first item) name ↔
    Counts item.shape name
  copied : IsLeast (Set.range fun exports => copies (itemEdits (s.exporting exports) first item)
    exports) (if exportsAll item.shape then 1 else 0)
  hasExports : part.hasExports = true ↔
    (∃ name, Counts item.shape name) ∨ exportsAll item.shape = true

theorem convertItem_assigned (h : s.convertItem first item = .ok part) :
    Assigned s first item part := by
  obtain ⟨each, heach, hwrites⟩ := convertItem_renders h
  have hedits : ∀ exports, itemEdits (s.exporting exports) first item = (each exports).edits := by
    intro exports
    have hconvert : (s.exporting exports).convertItem first item = .ok (each exports) :=
      (heach exports).1
    rw [itemEdits, hconvert]
  refine ⟨by rw [itemEdits, h], fun name => ?_, ?_, ?_⟩
  · have hassigned := hwrites.assigned_iff name
    simp only [List.mem_map, exists_exists_and_eq_and, counts_iff] at hassigned
    simp only [Assigns, hedits]
    exact hassigned
  · have hleast := hwrites.copied_least
    simp only [List.map_map, count_copy] at hleast
    simp only [copies, hedits]
    exact hleast
  · rw [convertItem_hasExports h, Bool.not_eq_true', marks_exports]

theorem defaultSignature_valueless (h : isDefaultSignature shape = true) :
    Valueless shape ∧ Counts shape "default" := by
  refine ⟨?_, .inr ⟨rfl, h⟩⟩
  unfold isDefaultSignature at h
  split at h
  · rename_i name hasBody
    obtain rfl : hasBody = false := by simpa using h
    exact .defaultSignature name
  · cases h

/-- An export without a value is taken out and nothing else comes of it, except for a default function
without a body, which counts as an export. Whatever is converted is assigned: each name that the item
exports or counts as exporting, and all names of a module if it exports all of one. -/
theorem valueless_erased (s : Setting) (first : Nat) (item : Item) :
    (Valueless item.shape → isDefaultSignature item.shape = false →
      ∃ part, s.convertItem first item = .ok part ∧ Erases s item part) ∧
    (isDefaultSignature item.shape = true → Valueless item.shape ∧ Counts item.shape "default") ∧
    ∀ part, s.convertItem first item = .ok part → Assigned s first item part :=
  ⟨Valueless.erased, defaultSignature_valueless, fun _ => convertItem_assigned⟩

theorem valueless_erased_signature :
    (∃ part, Setting.convertItem ⟨{}, "/a.ts", "export function f(): void;".toList, 26⟩ 0
        ⟨⟨0, 26⟩, .exportDecl (.function "f" false false)⟩ = .ok part ∧ part.hasExports = false) ∧
    ∃ part, Setting.convertItem ⟨{}, "/a.ts", "export default function f() \x7b\x7d".toList, 30⟩ 0
        ⟨⟨0, 30⟩, .exportDefaultDecl (.function (some "f") true)⟩ = .ok part ∧ part.hasExports = true := by
  constructor
  · obtain ⟨part, hpart, herases⟩ := (valueless_erased ⟨{}, "/a.ts",
      "export function f(): void;".toList, 26⟩ 0
        ⟨⟨0, 26⟩, .exportDecl (.function "f" false false)⟩).1 (.signature "f" false) rfl
    exact ⟨part, hpart, herases.hasExports⟩
  · obtain ⟨part, hpart, -⟩ := exists_of_answers (p := fun _ => true) (r := Setting.convertItem
      ⟨{}, "/a.ts", "export default function f() \x7b\x7d".toList, 30⟩ 0
        ⟨⟨0, 30⟩, .exportDefaultDecl (.function (some "f") true)⟩) (by decide +kernel)
    have hassigned := (valueless_erased _ _ _).2.2 part hpart
    exact ⟨part, hpart, hassigned.hasExports.mpr (.inl ⟨_, .inl (.defaultFunction _)⟩)⟩

/-- A default function is assigned although it has no body. -/
theorem default_signature_assigned : ∃ m c,
    Module.parse "export default function f(): void;" = .ok m ∧
    (∃ item ∈ m.items, isDefaultSignature item.shape = true) ∧
    (convert {} "/a.ts" 34 m).1 = .ok c ∧
    c.body = "const f = exports.default = function f(): void;" ∧ c.hasExports = true := by
  obtain ⟨m, hparse, hm⟩ : ∃ m, Module.parse "export default function f(): void;" = .ok m ∧
      (decide (∃ item ∈ m.items, isDefaultSignature item.shape = true) && answers (fun c =>
        decide (c.body = "const f = exports.default = function f(): void;" ∧ c.hasExports = true))
          (convert {} "/a.ts" 34 m).1) = true := exists_of_answers (by decide +kernel)
  obtain ⟨hitem, hanswers⟩ := (Bool.and_eq_true _ _).mp hm
  obtain ⟨c, hc, hassigned⟩ := exists_of_answers hanswers
  obtain ⟨hbody, hexports⟩ := of_decide_eq_true hassigned
  exact ⟨m, c, hparse, of_decide_eq_true hitem, hc, hbody, hexports⟩

end ModuleHost.Wrap
