import ModuleHost.Proofs.Wrap.Exported
import ModuleHost.Proofs.Wrap.Placement
import ModuleHost.Proofs.Wrap.Severed

/-! The edits that a module is converted by start and end between characters of its text. -/

namespace ModuleHost.Text

variable {p s t : List Char} {n : Nat}

theorem find?_eq_some (h : find? p s = some n) : ∃ u r, s = u ++ (p ++ r) ∧ byteLength u = n := by
  induction s generalizing n with
  | nil =>
    unfold find? at h
    split at h
    · rename_i hp
      cases h
      rw [List.isEmpty_iff.mp hp]
      exact ⟨[], [], rfl, rfl⟩
    · cases h
  | cons c s ih =>
    rw [find?] at h
    split at h
    · rename_i hp
      cases h
      obtain ⟨r, hr⟩ := List.isPrefixOf_iff_prefix.mp hp
      exact ⟨[], r, hr.symm, rfl⟩
    · obtain ⟨k, hk, rfl⟩ := Option.map_eq_some_iff.mp h
      obtain ⟨u, r, rfl, rfl⟩ := ih hk
      exact ⟨c :: u, r, rfl, rfl⟩

theorem Boundary.of_slice {lo hi : Nat} {u : List Char} (h : slice? s lo hi = some t)
    (hu : u <+: t) : Boundary s (lo + byteLength u) := by
  obtain ⟨p, r, rfl, rfl, -⟩ := slice?_eq_some.mp h
  obtain ⟨v, rfl⟩ := hu
  exact ⟨p ++ u, v ++ r, by simp, byteLength_append⟩

end ModuleHost.Text

namespace ModuleHost.Wrap

open ModuleHost.Syntax ModuleHost.Text ModuleHost.Wrap.Edit

/-- An edit starts and ends where the text can be cut. -/
def Edit.Aligned (source : List Char) (e : Edit) : Prop :=
  Boundary source e.start ∧ Boundary source e.stop

def declaratorsIn (shape : ItemShape) : List Declarator :=
  ((exportForm? shape).map declaratorsOf).getD []

/-- The text of a module can be cut where its items, its declarators and its uses of `import.meta`
have their ends, and where declarators get their values. -/
structure Sliced (m : Module) : Prop where
  items : ∀ item ∈ m.items, Boundary m.source item.span.lo ∧ Boundary m.source item.span.hi
  declarators : ∀ item ∈ m.items, ∀ d ∈ declaratorsIn item.shape, Boundary m.source d.span.hi ∧
    ∀ value ∈ d.value, Boundary m.source value.lo
  metas : ∀ span ∈ m.metas, Boundary m.source span.lo ∧ Boundary m.source span.hi

instance (m : Module) : Decidable (Sliced m) :=
  decidable_of_iff (_ ∧ _ ∧ _) ⟨fun ⟨a, b, c⟩ => ⟨a, b, c⟩, fun h => ⟨h.items, h.declarators, h.metas⟩⟩

section

variable {s : Setting} {span : Span} {n first : Nat} {e : Edit} {part : Contribution}
  {form : ExportForm} {item : Item}

theorem boundary_blanks (h : Boundary s.source n) : Boundary s.source (n + s.blanksAt n) := by
  obtain ⟨p, t, hsource, rfl⟩ := h
  rw [Stands.blanksAt_append hsource, hsource, ← byteLength_append]
  exact ⟨p ++ t.takeWhile isBlank, t.dropWhile isBlank, by simp, rfl⟩

theorem boundary_lineBreak (h : Boundary s.source n) : Boundary s.source (n + s.lineBreakAt n) := by
  obtain ⟨p, t, hsource, rfl⟩ := h
  rw [lineBreakAt_append hsource, hsource]
  unfold lineBreakLength
  split
  · rename_i r
    split
    · exact ⟨p ++ ['\r', '\n'], r, by simp, byteLength_append⟩
    · exact ⟨p, _, rfl, rfl⟩
  · rename_i r
    split
    · exact ⟨p ++ ['\n'], r, by simp, byteLength_append⟩
    · exact ⟨p, _, rfl, rfl⟩
  · exact ⟨p, _, rfl, rfl⟩

theorem exportKeyword_boundary {keyword : Span} (h : s.exportKeyword span = .ok keyword) :
    Boundary s.source keyword.lo ∧ Boundary s.source keyword.hi := by
  unfold Setting.exportKeyword at h
  split at h
  · rename_i at' hfound
    cases h
    obtain ⟨text, hslice, hfind⟩ := Option.bind_eq_some_iff.mp hfound
    obtain ⟨u, r, rfl, rfl⟩ := find?_eq_some hfind
    -- the keyword is found behind `u`, in the text of the item
    refine ⟨.of_slice hslice (List.prefix_append u _), ?_⟩
    have hword : Boundary s.source (span.lo + byteLength (u ++ Setting.exportWord)) :=
      .of_slice hslice ⟨r, by simp⟩
    rwa [byteLength_append, ← Nat.add_assoc] at hword
  · cases h

theorem removeExport_aligned (h : s.removeExport span = .ok e) : e.Aligned s.source := by
  obtain ⟨keyword, hkeyword, h⟩ := bind_ok h
  cases h
  obtain ⟨hlo, hhi⟩ := exportKeyword_boundary hkeyword
  exact ⟨hlo, boundary_blanks hhi⟩

theorem replaceDefault_aligned {text : String} (h : s.replaceDefault span text = .ok e) :
    e.Aligned s.source := by
  obtain ⟨keyword, hkeyword, h⟩ := bind_ok h
  obtain ⟨hlo, hhi⟩ := exportKeyword_boundary hkeyword
  dsimp only at h
  split at h
  · cases h
  · rename_i rest hdefault
    cases h
    refine ⟨hlo, boundary_blanks ?_⟩
    obtain ⟨p, t, hsource, hp⟩ := boundary_blanks hhi
    rw [← hp, Stands.sourceFrom_append hsource] at hdefault
    rw [← hp, hsource, dropStart?_eq_some.mp hdefault]
    exact ⟨p ++ "default".toList, rest, by simp, byteLength_append⟩

theorem removeItem_aligned (hlo : Boundary s.source span.lo) (hhi : Boundary s.source span.hi) :
    (s.removeItem span).Aligned s.source := ⟨hlo, boundary_lineBreak hhi⟩

theorem append_aligned (hhi : Boundary s.source span.hi) (text : String) :
    ∀ e ∈ s.append span text, e.Aligned s.source := by
  intro e he
  have hone : ∀ {empty : Bool} {added : String},
      e ∈ (if empty then [] else [Edit.insert span.hi added]) → e.Aligned s.source := by
    intro empty added he
    cases empty with
    | true => cases he
    | false =>
      obtain rfl := List.mem_singleton.mp he
      exact ⟨hhi, hhi⟩
  exact hone he

theorem assignInside_aligned {d : Declarator} (hhi : Boundary s.source d.span.hi)
    (hvalue : ∀ value ∈ d.value, Boundary s.source value.lo) (name : String) :
    (s.assignInside d name).Aligned s.source := by
  unfold Setting.assignInside
  split
  · rename_i value hd
    exact ⟨hvalue value hd, hvalue value hd⟩
  · exact ⟨hhi, hhi⟩

theorem convertVariables_aligned {declarators : List Declarator}
    (h : s.convertVariables span declarators = .ok part) (hhi : Boundary s.source span.hi)
    (hdeclarators : ∀ d ∈ declarators, Boundary s.source d.span.hi ∧
      ∀ value ∈ d.value, Boundary s.source value.lo) :
    ∀ e ∈ part.edits, e.Aligned s.source := by
  obtain ⟨removal, hremoval, h⟩ := bind_ok h
  cases h
  refine List.forall_mem_cons.mpr ⟨removeExport_aligned hremoval,
    List.forall_mem_append.mpr ⟨fun e he => ?_, fun e he => ?_⟩⟩
  · obtain ⟨d, hd, hassigned⟩ := List.mem_filterMap.mp he
    obtain ⟨hend, hvalue⟩ := hdeclarators d hd
    split at hassigned
    · cases hassigned
      exact assignInside_aligned hend hvalue _
    · cases hassigned
  · split at he
    · cases he
    · exact append_aligned hhi _ e he

theorem convertExport_aligned (h : s.convertExport first span form = .ok part)
    (hlo : Boundary s.source span.lo) (hhi : Boundary s.source span.hi)
    (hdeclarators : ∀ d ∈ declaratorsOf form, Boundary s.source d.span.hi ∧
      ∀ value ∈ d.value, Boundary s.source value.lo) :
    ∀ e ∈ part.edits, e.Aligned s.source := by
  cases form with
  | function name | classForm name =>
    obtain ⟨keyword, hkeyword, h⟩ := bind_ok h
    cases h
    exact List.forall_mem_cons.mpr ⟨exportKeyword_boundary hkeyword, append_aligned hhi ""⟩
  | «variable» declarators => exact convertVariables_aligned h hhi hdeclarators
  | localList entries =>
    cases h
    exact List.forall_mem_singleton.mpr ⟨hlo, hhi⟩
  | reexportList entries source =>
    cases h
    unfold Setting.convertReexports
    dsimp only
    split
    · exact List.forall_mem_singleton.mpr ⟨hlo, hhi⟩
    · rw [(resolutionOf_found _ _ _).1]
      exact List.forall_mem_singleton.mpr ⟨hlo, hhi⟩
  | default name =>
    obtain ⟨replaced, hreplaced, h⟩ := bind_ok h
    cases h
    exact List.forall_mem_cons.mpr ⟨replaceDefault_aligned hreplaced, append_aligned hhi ""⟩
  | wildcard source =>
    have hpart : part.edits = [⟨span.lo, span.hi, "Object.assign(" ++ s.config.exportsIdent ++ ", " ++
        (s.resolutionOf source).1 ++ ");"⟩] := by
      rw [← Except.ok.inj h]
      exact (resolutionOf_found s source _).1
    rw [hpart]
    exact List.forall_mem_singleton.mpr ⟨hlo, hhi⟩
  | localDeclaration name =>
    obtain ⟨removal, hremoval, h⟩ := bind_ok h
    cases h
    exact List.forall_mem_cons.mpr ⟨removeExport_aligned hremoval, append_aligned hhi _⟩
  | typeOnly =>
    cases h
    exact List.forall_mem_singleton.mpr (removeItem_aligned hlo hhi)

theorem convertItem_aligned (h : s.convertItem first item = .ok part)
    (hlo : Boundary s.source item.span.lo) (hhi : Boundary s.source item.span.hi)
    (hdeclarators : ∀ d ∈ declaratorsIn item.shape, Boundary s.source d.span.hi ∧
      ∀ value ∈ d.value, Boundary s.source value.lo) :
    ∀ e ∈ part.edits, e.Aligned s.source := by
  cases hform : exportForm? item.shape with
  | some form =>
    rw [convertItem_export s first item hform] at h
    rw [declaratorsIn, hform] at hdeclarators
    exact convertExport_aligned h hlo hhi hdeclarators
  | none =>
    cases herased : erased item.shape with
    | true =>
      obtain ⟨c, hc, hedits, -⟩ := item_erased s first item herased
      obtain rfl := Except.ok.inj (hc.symm.trans h)
      rw [hedits]
      exact List.forall_mem_singleton.mpr (removeItem_aligned hlo hhi)
    | false =>
      obtain ⟨c, hc, hedits, -⟩ := convertItem_none s first item hform herased
      obtain rfl := Except.ok.inj (hc.symm.trans h)
      rw [hedits]
      exact nofun

end

variable {config : Config} {path : String} {bodyLength : Nat} {m : Module}

theorem convertItems_aligned {s : Setting} (hm : Sliced m) (hs : s.source = m.source)
    {items : List Item} (hitems : ∀ item ∈ items, item ∈ m.items) {done : Contribution}
    (hdone : ∀ e ∈ done.edits, e.Aligned m.source) :
    ∀ e ∈ (s.convertItems done items).1.edits, e.Aligned m.source := by
  induction items generalizing done with
  | nil => exact hdone
  | cons item items ih =>
    obtain ⟨hitem, hrest⟩ := List.forall_mem_cons.mp hitems
    rw [Setting.convertItems]
    split
    · rename_i part hpart
      obtain ⟨hlo, hhi⟩ := hm.items item hitem
      have hnext : ∀ e ∈ part.edits, e.Aligned m.source := by
        rw [← hs] at hlo hhi ⊢
        exact convertItem_aligned hpart hlo hhi (hs ▸ hm.declarators item hitem)
      refine ih hrest ?_
      rw [append_edits]
      exact List.forall_mem_append.mpr ⟨hdone, hnext⟩
    · exact hdone

theorem editsUnder_aligned (hm : Sliced m) (exports : String) :
    ∀ e ∈ editsUnder config path bodyLength m exports, e.Aligned m.source := by
  refine List.forall_mem_append.mpr ⟨?_, fun e he => ?_⟩
  · exact convertItems_aligned (s := Setting.exporting _ exports) hm rfl (fun _ h => h) nofun
  · obtain ⟨span, hspan, rfl⟩ := List.mem_map.mp he
    exact hm.metas span hspan

theorem cuts_body {n : Nat} (h : Boundary m.source n) : Cuts (bodyText m bodyLength) n := by
  intro hle
  obtain ⟨post, hsource, -⟩ := body_split m.source (min bodyLength (byteLength m.source))
  exact Boundary.of_append (hsource ▸ h) hle

theorem applyAll_severed_error {source : List Char} {E : List Edit}
    (h : (∃ e ∈ E, Severs source e.start) ∨
      ∃ front last, sorted E = front ++ [last] ∧ ∃ e ∈ front, Severs source e.stop) :
    ∃ fault, applyAll E source = .error fault := by
  cases hrun : applyAll E source with
  | error fault => exact ⟨fault, rfl⟩
  | ok t =>
    exfalso
    have hinside : ∃ e ∈ E, Severs source e.start ∨ Severs source e.stop := by
      rcases h with ⟨e, he, hsevers⟩ | ⟨front, last, hsorted, e, he, hsevers⟩
      · exact ⟨e, he, .inl hsevers⟩
      · have hmem : e ∈ sorted E := hsorted ▸ List.mem_append_left _ he
        exact ⟨e, mem_sorted.mp hmem, .inr hsevers⟩
    obtain ⟨front, last, hsorted, hfront, hlast, -⟩ := (applyAll_severed_iff _ _ hinside t).mp hrun
    rcases h with ⟨e, he, hsevers⟩ | ⟨front', last', hsorted', e, he, hsevers⟩
    · have hmem : e ∈ front ++ [last] := hsorted ▸ mem_sorted.mpr he
      rcases List.mem_append.mp hmem with hin | hin
      · exact severs_iff.mp hsevers (hfront e hin).1
      · obtain rfl := List.mem_singleton.mp hin
        exact severs_iff.mp hsevers hlast
    · obtain ⟨rfl, -⟩ := List.append_singleton_inj.mp (hsorted.symm.trans hsorted')
      exact severs_iff.mp hsevers (hfront e he).2

theorem rewritten_of_applyAll {source : List Char} {E : List Edit} {t : List Char}
    (h : applyAll E source = .ok t)
    (hlast : ∀ front last, sorted E = front ++ [last] → ¬Severs source last.stop) :
    Separate source E ∧ t = rewritten E 0 source := by
  by_cases hinside : ∃ e ∈ E, Severs source e.start ∨ Severs source e.stop
  · -- edits with an offset inside a character are made only if it is the end of the last one
    obtain ⟨front, last, hsorted, -, -, -, hsevers, -⟩ :=
      (applyAll_severed_iff source E hinside t).mp h
    exact absurd hsevers (hlast front last hsorted)
  · have hcuts : ∀ e ∈ E, Cuts source e.start ∧ Cuts source e.stop := by
      simpa [severs_iff] using hinside
    exact (applyAll_ok_iff hcuts).mp h

/-- Edits of which one starts inside a character are refused, and so are those of which one ends inside
a character and another comes behind it. If the last of them ends between characters, what is made is
the text with the new text of each edit in the place of its range, and no other part of it is lost. No
edit that a module is converted by starts or ends inside a character, if the module is cut between
characters. -/
theorem severed_refused :
    (∀ source E, ((∃ e ∈ E, Severs source e.start) ∨
        ∃ front last, sorted E = front ++ [last] ∧ ∃ e ∈ front, Severs source e.stop) →
      ∃ fault, applyAll E source = .error fault) ∧
    (∀ source E t, (∀ front last, sorted E = front ++ [last] → ¬Severs source last.stop) →
      applyAll E source = .ok t → Separate source E ∧ t = rewritten E 0 source) ∧
    ∀ config path bodyLength m, Sliced m →
      (∀ e ∈ editsUnder config path bodyLength m config.exportsIdent,
        ¬Severs (bodyText m bodyLength) e.start ∧ ¬Severs (bodyText m bodyLength) e.stop) ∧
      ∀ c, (convert config path bodyLength m).1 = .ok c →
        Separate (bodyText m bodyLength)
          (editsUnder config path bodyLength m config.exportsIdent) ∧
        c.body.toList = rewritten (editsUnder config path bodyLength m config.exportsIdent) 0
          (bodyText m bodyLength) := by
  refine ⟨fun _ _ => applyAll_severed_error, fun _ _ _ hlast h => rewritten_of_applyAll h hlast,
    fun config path bodyLength m hm => ?_⟩
  have hbetween : ∀ e ∈ editsUnder config path bodyLength m config.exportsIdent,
      ¬Severs (bodyText m bodyLength) e.start ∧ ¬Severs (bodyText m bodyLength) e.stop := by
    intro e he
    obtain ⟨hstart, hstop⟩ := editsUnder_aligned hm config.exportsIdent e he
    rw [severs_iff, severs_iff, not_not, not_not]
    exact ⟨cuts_body hstart, cuts_body hstop⟩
  refine ⟨hbetween, fun c hc => rewritten_of_applyAll (editsUnder_applied hc) fun front last hsorted => ?_⟩
  have hmem : last ∈ sorted (editsUnder config path bodyLength m config.exportsIdent) :=
    hsorted ▸ List.mem_append_right front List.mem_cons_self
  exact (hbetween last (mem_sorted.mp hmem)).2

theorem severed_refused_accented :
    (∃ fault, applyAll [.insert 2 "e"] "aé;b".toList = .error fault) ∧
    (∃ fault, applyAll [⟨1, 2, "e"⟩, .insert 3 "_"] "aé;b".toList = .error fault) ∧
    (applyAll [⟨1, 3, "e"⟩] "aé;b".toList = .ok "ae;b".toList ∧
      Separate "aé;b".toList [⟨1, 3, "e"⟩] ∧
      "ae;b".toList = rewritten [⟨1, 3, "e"⟩] 0 "aé;b".toList) ∧
    ∃ m c, Module.parse "export let é = 1;" = .ok m ∧ (convert {} "/a.js" 18 m).1 = .ok c ∧
      Separate (bodyText m 18) (editsUnder {} "/a.js" 18 m "exports") ∧
      c.body.toList = rewritten (editsUnder {} "/a.js" 18 m "exports") 0 (bodyText m 18) := by
  have hsorted : sorted [⟨1, 2, "e"⟩, .insert 3 "_"] = [⟨1, 2, "e"⟩] ++ [Edit.insert 3 "_"] := by
    rw [sorted_cons, sorted_singleton]
    decide
  have hmade : applyAll [⟨1, 3, "e"⟩] "aé;b".toList = .ok "ae;b".toList := by decide +kernel
  have hlast : ∀ front last, sorted [⟨1, 3, "e"⟩] = front ++ [last] →
      ¬Severs "aé;b".toList last.stop := by
    intro front last hone
    rw [sorted_singleton] at hone
    obtain ⟨-, hlast⟩ := List.append_singleton_inj.mp (show [] ++ [_] = front ++ [last] from hone)
    rw [← hlast]
    decide
  refine ⟨severed_refused.1 _ _ (.inl ⟨_, List.mem_cons_self, by decide⟩),
    severed_refused.1 _ _ (.inr ⟨_, _, hsorted, _, List.mem_cons_self, by decide⟩),
    ⟨hmade, severed_refused.2.1 _ _ _ hlast hmade⟩, ?_⟩
  obtain ⟨m, hparse, hm⟩ : ∃ m, Module.parse "export let é = 1;" = .ok m ∧
      (decide (Sliced m) && recordsInOrder {} "/a.js" 18 m fun _ => true) = true :=
    exists_of_answers (by decide +kernel)
  obtain ⟨hsliced, hrecorded⟩ := (Bool.and_eq_true _ _).mp hm
  obtain ⟨c, hc, -⟩ := convert_recorded hrecorded
  exact ⟨m, c, hparse, hc, (severed_refused.2.2 {} "/a.js" 18 m (of_decide_eq_true hsliced)).2 c hc⟩

end ModuleHost.Wrap
