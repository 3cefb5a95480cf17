import ModuleHost.Proofs.Text.Ends
import ModuleHost.Proofs.Wrap.OwnNames

/-! A converted module is composed of what its items contribute, one after the other. What a text is
found in that one of them puts into the module is found in the wrapper. -/

namespace ModuleHost.Wrap

open ModuleHost.Syntax ModuleHost.Text ModuleHost.Wrap.Edit

namespace Contribution

def join (parts : List Contribution) : Contribution where
  edits := parts.flatMap edits
  imports := parts.flatMap imports
  diagnostics := parts.flatMap diagnostics
  events := parts.flatMap events
  hasExports := parts.any hasExports
  temporaries := parts.foldr (fun part count => part.temporaries + count) 0

theorem append_empty (a : Contribution) : a ++ join [] = a := by
  show append a (join []) = a
  simp [append, join]

theorem append_join (a part : Contribution) (parts : List Contribution) :
    a ++ part ++ join parts = a ++ join (part :: parts) := by
  show append (append a part) (join parts) = append a (join (part :: parts))
  simp [append, join, Nat.add_assoc, Bool.or_assoc]

end Contribution

/-- Items contribute in their order, each one behind the temporaries of those before it. -/
inductive Contributes (s : Setting) : Nat → List Item → List Contribution → Prop where
  | nil (first : Nat) : Contributes s first [] []
  | cons {first : Nat} {item : Item} {items : List Item} {part : Contribution}
    {parts : List Contribution} : s.convertItem first item = .ok part →
      Contributes s (first + part.temporaries) items parts →
      Contributes s first (item :: items) (part :: parts)

variable {s : Setting} {span : Span} {first : Nat} {item : Item} {items : List Item}
  {part done all : Contribution} {parts : List Contribution} {config : Config}
  {path source : String} {bodyLength : Nat} {m : Module} {c : Converted}

theorem convertItems_contributes (h : s.convertItems done items = (all, none)) :
    ∃ parts, Contributes s done.temporaries items parts ∧ all = done ++ .join parts := by
  induction items generalizing done with
  | nil =>
    cases h
    exact ⟨[], .nil _, (Contribution.append_empty _).symm⟩
  | cons item items ih =>
    rw [Setting.convertItems] at h
    split at h
    · rename_i part hpart
      obtain ⟨parts, hparts, rfl⟩ := ih h
      exact ⟨part :: parts, .cons hpart hparts, Contribution.append_join done part parts⟩
    · cases h

theorem Contributes.forall₂ (h : Contributes s first items parts) {P : Item → Contribution → Prop}
    (hitem : ∀ item ∈ items, ∀ part ∈ parts, ∀ first, s.convertItem first item = .ok part →
      P item part) : List.Forall₂ P items parts := by
  induction h with
  | nil => exact .nil
  | cons hpart _ ih =>
    refine .cons (hitem _ List.mem_cons_self _ List.mem_cons_self _ hpart) (ih ?_)
    exact fun item hmem part hmem' =>
      hitem item (List.mem_cons_of_mem _ hmem) part (List.mem_cons_of_mem _ hmem')

def settingOf (config : Config) (path : String) (bodyLength : Nat) (m : Module) : Setting :=
  { config, path, source := m.source, bodyLength := min bodyLength (byteLength m.source) }

/-- A converted module consists of what its items contribute. -/
structure Composed (config : Config) (path : String) (bodyLength : Nat) (m : Module) (c : Converted)
    (parts : List Contribution) : Prop where
  items : Contributes (settingOf config path bodyLength m) 0 m.items parts
  body : applyAll (parts.flatMap Contribution.edits ++ metaEdits config m.metas)
    (bodyText m bodyLength) = .ok c.body.toList
  imports : c.imports = parts.flatMap Contribution.imports
  diagnostics : c.diagnostics = parts.flatMap Contribution.diagnostics
  hasExports : c.hasExports = parts.any Contribution.hasExports

theorem convert_composed (h : (convert config path bodyLength m).1 = .ok c) :
    ∃ parts, Composed config path bodyLength m c parts := by
  unfold convert at h
  dsimp only at h
  split at h
  · cases h
  · rename_i done hdone
    obtain ⟨parts, hparts, rfl⟩ := convertItems_contributes hdone
    split at h
    · cases h
    · rename_i text happly
      cases h
      refine ⟨parts, hparts, ?_, rfl, rfl, rfl⟩
      rw [String.toList_ofList]
      exact happly

/-- An item is deleted, perhaps with the line break behind it, and nothing comes of it. -/
structure Erases (s : Setting) (item : Item) (part : Contribution) : Prop where
  edits : ∃ stop, (stop = item.span.hi ∨ stop = item.span.hi + s.lineBreakAt item.span.hi) ∧
    part.edits = [.remove item.span.lo stop]
  imports : part.imports = []
  hasExports : part.hasExports = false

theorem erases_removed (s : Setting) (item : Item) :
    Erases s item { edits := [s.removeItem item.span] } := ⟨⟨_, .inr rfl, rfl⟩, rfl, rfl⟩

theorem erases_replaced (s : Setting) (item : Item) :
    Erases s item { edits := [⟨item.span.lo, item.span.hi, ""⟩] } := ⟨⟨_, .inl rfl, rfl⟩, rfl, rfl⟩

theorem prefix_of_prefix_append {α : Type} {l kept rest : List α} {last : α}
    (h : l <+: kept ++ rest) (hlast : l.getLast? = some last) (hnot : last ∉ rest) : l <+: kept := by
  rcases List.prefix_or_prefix_of_prefix h (List.prefix_append kept rest) with hprefix | hreach
  · exact hprefix
  · -- what of `l` stands behind `kept` would begin the rest, and end with the last element
    obtain ⟨beyond, rfl⟩ := hreach
    have hbegins : beyond <+: rest := (List.prefix_append_right_inj kept).mp h
    cases hend : beyond.getLast? with
    | none =>
      obtain rfl := List.getLast?_eq_none_iff.mp hend
      exact ⟨[], by rw [List.append_nil, List.append_nil]⟩
    | some d =>
      rw [List.getLast?_append, hend, Option.some_or] at hlast
      obtain rfl : d = last := Option.some.inj hlast
      exact absurd (hbegins.subset (List.mem_of_getLast? hend)) hnot

def Occurs (needle text : String) : Prop := needle.toList <:+: text.toList

instance (needle text : String) : Decidable (Occurs needle text) :=
  inferInstanceAs (Decidable (_ <:+: _))

namespace Occurs

variable {needle text : String}

theorem refl (text : String) : Occurs text text := List.infix_refl _

theorem append_left (h : Occurs needle text) (before : String) : Occurs needle (before ++ text) := by
  rw [Occurs, String.toList_append]
  exact List.infix_append_of_infix_right h

theorem append_right (h : Occurs needle text) (behind : String) :
    Occurs needle (text ++ behind) := by
  rw [Occurs, String.toList_append]
  exact List.infix_append_of_infix_left h

theorem inBraces (h : Occurs needle text) : Occurs needle (inBraces text) :=
  (h.append_left _).append_right _

theorem join (h : Occurs needle text) {texts : List String} (hmem : text ∈ texts) :
    Occurs needle (String.join texts) := by
  obtain ⟨before, behind, rfl⟩ := List.append_of_mem hmem
  rw [String.join_append, String.join_cons]
  exact (h.append_right _).append_left _

theorem intercalate (h : Occurs needle text) {texts : List String} (hmem : text ∈ texts)
    (sep : String) : Occurs needle (String.intercalate sep texts) := by
  induction texts with
  | nil => cases hmem
  | cons head texts ih =>
    cases texts with
    | nil =>
      rw [String.intercalate_singleton, ← List.mem_singleton.mp hmem]
      exact h
    | cons next texts =>
      rw [String.intercalate_cons_cons]
      rcases List.mem_cons.mp hmem with rfl | hmem
      · exact (h.append_right _).append_right _
      · exact (ih hmem).append_left _

theorem trimEnd (h : Occurs needle text) {last : Char} (hlast : needle.toList.getLast? = some last)
    (hvisible : isBlank last = false) : Occurs needle (String.ofList (trimEnd text.toList)) := by
  obtain ⟨kept, hkept⟩ : ∃ kept, kept = Text.trimEnd text.toList := ⟨_, rfl⟩
  obtain ⟨blanks, hsplit, hblanks⟩ : ∃ blanks, text.toList = kept ++ blanks ∧
      ∀ c ∈ blanks, isBlank c = true := hkept ▸ dropEndWhile_split isBlank text.toList
  obtain ⟨before, behind, hfound⟩ := h
  have hwhole : before ++ needle.toList <+: kept ++ blanks := hsplit ▸ ⟨behind, hfound⟩
  have hends : (before ++ needle.toList).getLast? = some last := by
    rw [List.getLast?_append, hlast, Option.some_or]
  have hvisible' : last ∉ blanks := by
    intro hmem
    rw [hblanks last hmem] at hvisible
    cases hvisible
  have hinside := prefix_of_prefix_append hwhole hends hvisible'
  rw [Occurs, String.toList_ofList, ← hkept]
  exact (List.suffix_append before needle.toList).isInfix.trans hinside.isInfix

end Occurs

theorem applyFrom_contains {text t : List Char} {n : Nat} {E : List Edit} (h : applyFrom text n E = .ok t)
    {e : Edit} (he : e ∈ E) : e.text.toList <:+: t := by
  induction E generalizing n t with
  | nil => cases he
  | cons head E ih =>
    obtain ⟨-, -, -, kept, more, -, hmore, rfl⟩ := applyFrom_cons_ok h
    rcases List.mem_cons.mp he with rfl | he
    · exact List.infix_append kept e.text.toList more
    · exact List.infix_append_of_infix_right (ih hmore he)

/-- The awaited call that resolves a specifier. -/
def awaited (config : Config) (specifier : String) : String :=
  "await " ++ resolutionCall config (resolutionFor config specifier) specifier

/-- The call for a specifier stands in a statement for an import or in a text for the body. -/
def Contribution.Resolves (config : Config) (specifier : String) (part : Contribution) : Prop :=
  (∃ r ∈ part.imports, Occurs (awaited config specifier) (r.statement config)) ∨
    ∃ e ∈ part.edits, Occurs (awaited config specifier) e.text

instance (config : Config) (specifier : String) (part : Contribution) :
    Decidable (part.Resolves config specifier) := inferInstanceAs (Decidable (_ ∨ _))

theorem awaited_getLast (config : Config) (specifier : String) :
    (awaited config specifier).toList.getLast? = some ')' := by
  have hcall : ∀ resolution, (resolutionCall config resolution specifier).toList.getLast? =
      some ')' := by
    intro resolution
    cases resolution <;> exact getLast?_joined _ rfl
  exact getLast?_joined _ (hcall _)

theorem Erases.not_resolves (h : Erases s item part) : ¬part.Resolves config source := by
  obtain ⟨stop, -, hedits⟩ := h.edits
  unfold Contribution.Resolves
  rw [h.imports, hedits]
  rintro (⟨r, hr, -⟩ | ⟨e, he, hoccurs⟩)
  · cases hr
  · have hlast := awaited_getLast config source
    rw [List.mem_singleton.mp he] at hoccurs
    have hempty : (awaited config source).toList = [] := List.infix_nil.mp hoccurs
    rw [hempty] at hlast
    cases hlast

theorem statement_resolves (config : Config) (r : ImportRecord) :
    Occurs ("await " ++ resolutionCall config r.resolution r.source) (r.statement config) := by
  have hconstant : ∀ pattern call, Occurs call ("const " ++ pattern ++ " = " ++ call ++ ";") :=
    fun _ call => ((Occurs.refl call).append_left _).append_right ";"
  unfold ImportRecord.statement
  dsimp only
  split
  · exact (Occurs.refl _).append_right ";"
  · exact hconstant _ _
  · exact ((hconstant _ _).append_right _).append_right _
  · exact hconstant _ _

theorem resolutionOf_awaited (s : Setting) (specifier : String) :
    (s.resolutionOf specifier).1 = awaited s.config specifier := resolutionOf_call s specifier

theorem Composed.resolved (h : Composed config path bodyLength m c parts) (hpart : part ∈ parts)
    (hresolves : part.Resolves config source) :
    Occurs (awaited config source) (c.wrap config path) := by
  obtain ⟨behind, hwrap⟩ : ∃ behind, c.wrap config path = wrapperHead config path ++
      importSection config c.imports ++ String.ofList (trimEnd c.body.toList) ++ behind :=
    ⟨"\n\n" ++ (registration config path c.hasExports ++ ("  return " ++ (config.moduleIdent ++
      ";\n\x7d)();\n"))), by simp only [Converted.wrap, String.append_assoc, -String.reduceAppend]⟩
  rw [hwrap]
  rcases hresolves with ⟨r, hr, hoccurs⟩ | ⟨e, he, hoccurs⟩
  · have hmem : r ∈ c.imports := h.imports ▸ List.mem_flatMap_of_mem hpart hr
    have hline : r.statement config ++ "\n" ∈ c.imports.map fun r => r.statement config ++ "\n" :=
      List.mem_map.mpr ⟨r, hmem, rfl⟩
    have hsection : Occurs (awaited config source) (importSection config c.imports) :=
      ((hoccurs.append_right "\n").join hline).append_right _
    exact ((hsection.append_left _).append_right _).append_right behind
  · have hmem : e ∈ parts.flatMap Contribution.edits ++ metaEdits config m.metas :=
      List.mem_append_left _ (List.mem_flatMap_of_mem hpart he)
    have hbody : Occurs (awaited config source) c.body :=
      hoccurs.trans (applyFrom_contains h.body (mem_sorted.mpr hmem))
    have hkept := hbody.trimEnd (awaited_getLast config source) (by decide)
    exact (hkept.append_left _).append_right behind

end ModuleHost.Wrap
