import Mathlib.Algebra.GroupWithZero.Nat
import Mathlib.Algebra.Order.BigOperators.Group.List
import Mathlib.Algebra.Order.Group.Nat
import Mathlib.Order.Bounds.Basic
import ModuleHost.Proofs.Json.Literals
import ModuleHost.Proofs.Wrap.Stencil
import ModuleHost.Wrap.Name

/-! Generated code in which the object of exports occurs only where a name of it is assigned and
where the names of a module are copied into it. -/

namespace ModuleHost.Wrap

open ModuleHost.Json

def assignmentStart (exports name : String) : List Char :=
  (member exports name ++ " =").toList

def copyStart (exports : String) : List Char :=
  ("Object.assign(" ++ exports ++ ", ").toList

/-- What stands between the object and the value in an assignment. -/
def access (name : String) : List Char :=
  if isBareName name then '.' :: (name.toList ++ [' ', '='])
  else '[' :: (quoteChars name.toList ++ [']', ' ', '='])

inductive Part where
  | plain (text : String)
  | assignment (name : String)
  | copy
  deriving DecidableEq

def Part.stencil : Part → Stencil
  | plain text => Stencil.solid text.toList
  | assignment name => none :: Stencil.solid (access name)
  | copy => Stencil.solid "Object.assign(".toList ++ none :: Stencil.solid [',', ' ']

def sheet (parts : List Part) : Stencil := parts.flatMap Part.stencil

section

variable {a b name : String} {c : Char} {needle t : Stencil} {text : List Char} {parts : List Part}

theorem assignmentStart_eq (exports name : String) : assignmentStart exports name =
    Stencil.fill exports.toList (Part.assignment name).stencil := by
  unfold assignmentStart member
  rw [Part.stencil, Stencil.fill_open, Stencil.fill_solid, access]
  split <;> simp [quote]

theorem copyStart_eq (exports : String) :
    copyStart exports = Stencil.fill exports.toList Part.copy.stencil := by
  rw [Part.stencil, Stencil.fill_append, Stencil.fill_open, Stencil.fill_solid, Stencil.fill_solid]
  simp [copyStart]

theorem bare_notMem (h : isBareName name = true) (hstart : isNameStart c = false)
    (hpart : isNamePart c = false) : c ∉ name.toList := by
  intro hmem
  unfold isBareName at h
  split at h
  · rename_i hnil
    rw [hnil] at hmem
    cases hmem
  · rename_i d rest hcons
    obtain ⟨hd, hrest⟩ := Bool.and_eq_true_iff.mp h
    rw [hcons] at hmem
    rcases List.mem_cons.mp hmem with rfl | hmem
    · rw [hstart] at hd
      cases hd
    · rw [List.all_eq_true.mp hrest c hmem] at hpart
      cases hpart

theorem access_visible : ∀ c ∈ access name, c ≠ '\n' ∧ c ≠ '\r' := by
  have hbare : isBareName name = true → ∀ c ∈ name.toList, c ≠ '\n' ∧ c ≠ '\r' := by
    intro h c hc
    exact ⟨fun hline => bare_notMem h rfl rfl (hline ▸ hc),
      fun hreturn => bare_notMem h rfl rfl (hreturn ▸ hc)⟩
  have hquoted : ∀ c ∈ quoteChars name.toList, c ≠ '\n' ∧ c ≠ '\r' := by
    intro c hc
    have hvisible := quote_visible c hc
    constructor <;> rintro rfl <;> exact absurd hvisible (by decide)
  intro c hc
  unfold access at hc
  split at hc <;> simp only [List.mem_cons, List.mem_append, List.not_mem_nil, or_false] at hc
  · rename_i h
    rcases hc with rfl | hc | rfl | rfl
    · decide
    · exact hbare h c hc
    · decide
    · decide
  · rcases hc with rfl | hc | rfl | rfl | rfl
    · decide
    · exact hquoted c hc
    · decide
    · decide
    · decide

theorem eq_of_space {u v r s : List Char} (hu : ' ' ∉ u) (hv : ' ' ∉ v)
    (h : u ++ ' ' :: r = v ++ ' ' :: s) : u = v := by
  rcases List.append_eq_append_iff.mp h with ⟨w, rfl, hw⟩ | ⟨w, rfl, hw⟩
  · cases w with
    | nil => simp
    | cons c w =>
      cases hw
      simp at hv
  · cases w with
    | nil => simp
    | cons c w =>
      cases hw
      simp at hu

theorem access_inj (h : access a <+: access b) : a = b := by
  unfold access at h
  split at h <;> split at h
  · rename_i ha hb
    obtain ⟨t, h⟩ := (List.cons_prefix_cons.mp h).2
    rw [List.append_assoc] at h
    exact String.toList_inj.mp (eq_of_space (bare_notMem ha rfl rfl) (bare_notMem hb rfl rfl) h)
  · cases (List.cons_prefix_cons.mp h).1
  · cases (List.cons_prefix_cons.mp h).1
  · obtain ⟨t, h⟩ := (List.cons_prefix_cons.mp h).2
    rw [List.append_assoc] at h
    exact (quote_inj h).1

theorem access_cons (name : String) : ∃ c u, access name = c :: u ∧ c ≠ ',' := by
  unfold access
  split
  · exact ⟨_, _, rfl, by decide⟩
  · exact ⟨_, _, rfl, by decide⟩

theorem occurrences_solid : occurrences (none :: needle) (Stencil.solid text ++ t) =
    occurrences (none :: needle) t := by
  induction text with
  | nil => rfl
  | cons c text ih =>
    have hhead : ¬ none :: needle <+: some c :: (Stencil.solid text ++ t) :=
      fun h => nomatch (List.cons_prefix_cons.mp h).1
    exact (occurrences_skip hhead).trans ih

theorem open_infix_solid :
    none :: needle <:+: Stencil.solid text ++ t ↔ none :: needle <:+: t := by
  rw [← occurrences_pos, occurrences_solid, occurrences_pos]

theorem solid_isPrefix {u : List Char} : Stencil.solid text <+: Stencil.solid u ↔ text <+: u :=
  List.prefix_map_iff_of_injective fun _ _ => Option.some.inj

theorem sheet_copy : sheet (.copy :: parts) = Stencil.solid "Object.assign(".toList ++
    none :: (Stencil.solid [',', ' '] ++ sheet parts) := by
  rw [← List.cons_append, ← List.append_assoc]
  rfl

theorem assignment_found :
    (Part.assignment name).stencil <:+: sheet parts ↔ Part.assignment name ∈ parts := by
  induction parts with
  | nil => simp [sheet, Part.stencil]
  | cons part parts ih =>
    rw [List.mem_cons, ← ih]
    cases part with
    | plain text =>
      rw [or_iff_right (by simp)]
      exact open_infix_solid
    | assignment other =>
      refine List.infix_cons_iff.trans (or_congr ?_ open_infix_solid)
      rw [Part.assignment.injEq]
      refine ⟨fun h => ?_, fun h => h ▸ List.prefix_append _ _⟩
      have hprefix := (List.cons_prefix_cons.mp h).2
      rcases List.prefix_or_prefix_of_prefix hprefix (List.prefix_append _ _) with h | h
      · exact access_inj (solid_isPrefix.mp h)
      · exact (access_inj (solid_isPrefix.mp h)).symm
    | copy =>
      obtain ⟨c, u, haccess, hc⟩ := access_cons name
      have hhead : ¬ (Part.assignment name).stencil <+:
          none :: (Stencil.solid [',', ' '] ++ sheet parts) := by
        intro h
        have hprefix := (List.cons_prefix_cons.mp h).2
        rw [haccess] at hprefix
        exact hc (Option.some.inj (List.cons_prefix_cons.mp hprefix).1)
      rw [or_iff_right (by simp), sheet_copy]
      refine open_infix_solid.trans (List.infix_cons_iff.trans ?_)
      exact (or_iff_right hhead).trans open_infix_solid

theorem occurrences_comma :
    occurrences (none :: Stencil.solid [',', ' ']) (sheet parts) = parts.count .copy := by
  induction parts with
  | nil => exact occurrences_nil (List.cons_ne_nil _ _)
  | cons part parts ih =>
    cases part with
    | plain text =>
      rw [List.count_cons_of_ne (by simp), ← ih]
      exact occurrences_solid
    | assignment name =>
      obtain ⟨c, u, haccess, hc⟩ := access_cons name
      have hhead : ¬ none :: Stencil.solid [',', ' '] <+:
          none :: (Stencil.solid (access name) ++ sheet parts) := by
        intro h
        have hprefix := (List.cons_prefix_cons.mp h).2
        rw [haccess] at hprefix
        exact hc (Option.some.inj (List.cons_prefix_cons.mp hprefix).1).symm
      rw [List.count_cons_of_ne (by simp), ← ih]
      exact (occurrences_skip hhead).trans occurrences_solid
    | copy =>
      have hhead : none :: Stencil.solid [',', ' '] <+:
          none :: (Stencil.solid [',', ' '] ++ sheet parts) := List.prefix_append _ _
      rw [List.count_cons_self, ← ih, sheet_copy, occurrences_solid, occurrences_cons,
        occurrences_solid, if_pos hhead]

theorem copy_found : occurrences Part.copy.stencil (sheet parts) = parts.count .copy := by
  refine Nat.le_antisymm (occurrences_comma ▸ occurrences_append_le) ?_
  induction parts with
  | nil => exact Nat.zero_le _
  | cons part parts ih =>
    have hcons : sheet (part :: parts) = part.stencil ++ sheet parts := rfl
    by_cases hcopy : part = .copy
    · subst hcopy
      obtain ⟨c, u, hstencil⟩ : ∃ c u, Part.copy.stencil = c :: u := ⟨_, _, rfl⟩
      have hhead : Part.copy.stencil <+: c :: (u ++ sheet parts) :=
        hstencil ▸ List.prefix_append _ _
      rw [List.count_cons_self, hcons]
      nth_rewrite 2 [hstencil]
      rw [List.cons_append, occurrences_cons, if_pos hhead]
      exact Nat.succ_le_succ (ih.trans occurrences_le_append)
    · rw [List.count_cons_of_ne hcopy, hcons]
      exact ih.trans occurrences_le_append

end

section

variable {exports name : String} {parts parts' : List Part}

def spell (exports : String) (parts : List Part) : List Char :=
  (sheet parts).fill exports.toList

@[simp] theorem spell_nil : spell exports [] = [] := rfl

@[simp] theorem spell_append :
    spell exports (parts ++ parts') = spell exports parts ++ spell exports parts' := by
  rw [spell, sheet, List.flatMap_append, Stencil.fill_append]
  rfl

theorem spell_cons (part : Part) : spell exports (part :: parts) =
    part.stencil.fill exports.toList ++ spell exports parts := Stencil.fill_append

@[simp] theorem spell_plain (text : String) :
    spell exports (.plain text :: parts) = text.toList ++ spell exports parts := by
  rw [spell_cons, Part.stencil, Stencil.fill_solid]

@[simp] theorem spell_assignment : spell exports (.assignment name :: parts) =
    (member exports name ++ " =").toList ++ spell exports parts := by
  rw [spell_cons, ← assignmentStart_eq, assignmentStart]

@[simp] theorem spell_copy : spell exports (.copy :: parts) =
    ("Object.assign(" ++ exports ++ ", ").toList ++ spell exports parts := by
  rw [spell_cons, ← copyStart_eq, copyStart]

theorem spell_intercalate (sep : String) (sheets : List (List Part)) :
    spell exports ([Part.plain sep].intercalate sheets) =
      sep.toList.intercalate (sheets.map (spell exports)) := by
  induction sheets with
  | nil => rfl
  | cons parts sheets ih =>
    cases sheets with
    | nil => simp
    | cons next sheets =>
      simp only [List.intercalate_cons_cons, List.map_cons, spell_append, spell_plain, spell_nil,
        List.append_nil] at ih ⊢
      rw [ih]

/-- The assignments and copies in generated code. -/
def marks (parts : List Part) : List Part := parts.filter fun
  | .plain _ => false
  | _ => true

theorem marks_append : marks (parts ++ parts') = marks parts ++ marks parts' :=
  List.filter_append ..

theorem marks_intercalate (sep : String) (sheets : List (List Part)) :
    marks ([Part.plain sep].intercalate sheets) = sheets.flatMap marks := by
  induction sheets with
  | nil => rfl
  | cons parts sheets ih =>
    cases sheets with
    | nil => simp
    | cons next sheets =>
      rw [List.intercalate_cons_cons, marks_append, marks_append, ih]
      simp [marks]

end

/-- Texts hold exactly these assignments and copies, whatever the object of exports is called. -/
def Writes (texts : String → List String) (found : List Part) : Prop :=
  ∃ sheets : List (List Part),
    (∀ exports, (texts exports).map String.toList = sheets.map (spell exports)) ∧
    sheets.flatMap marks = found

namespace Writes

variable {texts texts' : String → List String} {found found' : List Part}

theorem const (texts : List String) : Writes (fun _ => texts) [] := by
  refine ⟨texts.map fun text => [.plain text], fun exports => ?_, ?_⟩
  · simp
  · simp [List.flatMap_map, marks]

theorem single {text : String → String} (parts : List Part)
    (h : ∀ exports, (text exports).toList = spell exports parts) :
    Writes (fun exports => [text exports]) (marks parts) :=
  ⟨[parts], fun exports => by simp [h exports], by simp⟩

theorem append (h : Writes texts found) (h' : Writes texts' found') :
    Writes (fun exports => texts exports ++ texts' exports) (found ++ found') := by
  obtain ⟨sheets, hsheets, rfl⟩ := h
  obtain ⟨sheets', hsheets', rfl⟩ := h'
  refine ⟨sheets ++ sheets', fun exports => ?_, List.flatMap_append⟩
  rw [List.map_append, List.map_append, hsheets, hsheets']

theorem flatMap {ι : Type} {texts : ι → String → List String} {found : ι → List Part} {l : List ι}
    (h : ∀ i ∈ l, Writes (texts i) (found i)) :
    Writes (fun exports => l.flatMap fun i => texts i exports) (l.flatMap found) := by
  induction l with
  | nil => exact const []
  | cons i l ih =>
    obtain ⟨hi, hl⟩ := List.forall_mem_cons.mp h
    exact hi.append (ih hl)

theorem visible_stencil {part : Part} (h : ∀ text, part ≠ .plain text) :
    some '\n' ∉ part.stencil ∧ some '\r' ∉ part.stencil := by
  cases part with
  | plain text => exact absurd rfl (h text)
  | assignment name =>
    simp only [Part.stencil, Stencil.solid, List.mem_cons, reduceCtorEq, false_or,
      List.mem_map, Option.some.injEq, exists_eq_right]
    exact ⟨fun hc => (access_visible _ hc).1 rfl, fun hc => (access_visible _ hc).2 rfl⟩
  | copy => decide

/-- There is a name under which only the assignments and copies of some sheets look like ones. -/
theorem exists_name (sheets : List (List Part)) : ∃ exports, ∀ part : Part,
    (∀ text, part ≠ .plain text) → ∀ parts ∈ sheets,
      occurrences (part.stencil.fill exports.toList) (spell exports parts) =
        occurrences part.stencil (sheet parts) := by
  -- long enough for every one of the sheets
  obtain ⟨n, hn⟩ : ∃ n, ∀ parts ∈ sheets, (sheet parts).count (some '\r') < n := by
    refine ⟨(sheets.map fun parts => (sheet parts).count (some '\r')).sum + 1, fun parts h => ?_⟩
    exact Nat.lt_succ_of_le (List.single_le_sum (fun _ _ => Nat.zero_le _) _
      (List.mem_map_of_mem h))
  refine ⟨String.ofList (Stencil.longName n), fun part hpart parts hparts => ?_⟩
  obtain ⟨hline, hreturn⟩ := visible_stencil hpart
  rw [spell, String.toList_ofList]
  refine Stencil.occurrences_fill (hn parts hparts) ?_ hline hreturn
  cases part with
  | plain text => exact absurd rfl (hpart text)
  | assignment name => exact List.cons_ne_nil _ _
  | copy => exact List.append_ne_nil_of_right_ne_nil _ (List.cons_ne_nil _ _)

theorem assigned_iff (h : Writes texts found) (name : String) :
    (∀ exports, ∃ text ∈ texts exports, assignmentStart exports name <:+: text.toList) ↔
      Part.assignment name ∈ found := by
  obtain ⟨sheets, hsheets, rfl⟩ := h
  have hmarks : Part.assignment name ∈ sheets.flatMap marks ↔
      ∃ parts ∈ sheets, (Part.assignment name).stencil <:+: sheet parts := by
    simp only [List.mem_flatMap, marks, List.mem_filter, and_true, assignment_found]
  have htexts : ∀ exports, (∃ text ∈ texts exports, assignmentStart exports name <:+: text.toList) ↔
      ∃ parts ∈ sheets, (Part.assignment name).stencil.fill exports.toList <:+:
        spell exports parts := by
    intro exports
    calc (∃ text ∈ texts exports, assignmentStart exports name <:+: text.toList)
        ↔ ∃ t ∈ (texts exports).map String.toList, assignmentStart exports name <:+: t := by simp
      _ ↔ ∃ t ∈ sheets.map (spell exports), assignmentStart exports name <:+: t := by
        rw [hsheets]
      _ ↔ _ := by simp [assignmentStart_eq]
  rw [hmarks]
  constructor
  · intro hall
    -- it is enough to look at the edits under the name that stands out
    obtain ⟨exports, hexports⟩ := exists_name sheets
    obtain ⟨parts, hparts, hinfix⟩ := (htexts exports).mp (hall exports)
    refine ⟨parts, hparts, ?_⟩
    rwa [← occurrences_pos, hexports _ (by simp) parts hparts, occurrences_pos] at hinfix
  · rintro ⟨parts, hparts, hinfix⟩ exports
    exact (htexts exports).mpr ⟨parts, hparts, Stencil.fill_infix hinfix⟩

theorem copied_least (h : Writes texts found) :
    IsLeast (Set.range fun exports =>
      ((texts exports).map fun text => occurrences (copyStart exports) text.toList).sum)
      (found.count .copy) := by
  obtain ⟨sheets, hsheets, rfl⟩ := h
  have hcount : (sheets.flatMap marks).count .copy =
      (sheets.map fun parts => occurrences Part.copy.stencil (sheet parts)).sum := by
    rw [List.count_flatMap]
    congr 1
    refine List.map_congr_left fun parts _ => ?_
    rw [Function.comp_apply, copy_found, marks, List.count_filter rfl]
  have htexts : ∀ exports,
      (texts exports).map (fun text => occurrences (copyStart exports) text.toList) =
        sheets.map fun parts =>
          occurrences (Part.copy.stencil.fill exports.toList) (spell exports parts) := by
    intro exports
    have hmap := congrArg (List.map (occurrences (copyStart exports))) (hsheets exports)
    rw [List.map_map, List.map_map] at hmap
    rw [← copyStart_eq]
    exact hmap
  constructor
  · -- under a name that stands in none of the texts, only the copies that were written are found
    obtain ⟨exports, hexports⟩ := exists_name sheets
    refine ⟨exports, ?_⟩
    dsimp only
    rw [htexts, hcount]
    congr 1
    exact List.map_congr_left (hexports _ (by simp))
  · rintro _ ⟨exports, rfl⟩
    dsimp only
    rw [htexts, hcount]
    exact List.sum_le_sum fun parts _ => Stencil.occurrences_le_fill rfl

end Writes

end ModuleHost.Wrap
