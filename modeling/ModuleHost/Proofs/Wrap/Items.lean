import ModuleHost.Proofs.Wrap.Piece

/-! An item is converted in its module as it is by itself: the same edits, moved to where it
stands. -/

namespace ModuleHost.Wrap

open ModuleHost.Syntax ModuleHost.Text ModuleHost.Wrap.Edit

/-- A text stands in the source of a setting. -/
structure Stands (s : Setting) (span : Span) (pre text post : List Char) : Prop where
  source : s.source = pre ++ (text ++ post)
  lo : span.lo = byteLength pre
  hi : span.hi = byteLength pre + byteLength text

theorem Piece.stands (p : Piece) (config : Config) :
    Stands (p.setting config) p.item.span [] p.text [] where
  source := by simp [Piece.setting]
  lo := rfl
  hi := by simp [Piece.item]

/-! ### Keywords and what closes a statement -/

def headLength (text rest : List Char) : Nat :=
  byteLength text - byteLength rest + byteLength (rest.takeWhile isBlank)

def closing (text : List Char) (added : String) : List Edit :=
  let terminated := (trimEnd text).getLast? = some ';'
  let appended := (if terminated then "" else ";") ++ (if added.isEmpty then "" else " " ++ added)
  if appended.isEmpty then [] else [.insert (byteLength text) appended]

theorem keywords_split {form : ExportForm} {text rest : List Char}
    (h : behindKeywords form text = some rest) :
    ∃ head, text = head ++ rest ∧ byteLength head = byteLength text - byteLength rest := by
  have key : ∀ head, text = head ++ rest → byteLength head = byteLength text - byteLength rest := by
    rintro head rfl
    rw [byteLength_append, Nat.add_sub_cancel]
  have single : dropStart? Setting.exportWord text = some rest →
      ∃ head, text = head ++ rest ∧ byteLength head = byteLength text - byteLength rest :=
    fun h => ⟨_, dropStart?_eq_some.mp h, key _ (dropStart?_eq_some.mp h)⟩
  cases form with
  | default name =>
    obtain ⟨r, hr, hrest⟩ := Option.bind_eq_some_iff.mp h
    have htrim := dropStart?_eq_some.mp hrest
    have htext :
        text = (Setting.exportWord ++ r.takeWhile isBlank ++ "default".toList) ++ rest := by
      rw [dropStart?_eq_some.mp hr, List.append_assoc, List.append_assoc, ← htrim, trimStart,
        List.takeWhile_append_dropWhile]
    exact ⟨_, htext, key _ htext⟩
  | _ => exact single h

namespace Stands

variable {s : Setting} {span : Span} {pre text post rest u v : List Char}

theorem sourceFrom_append (h : s.source = u ++ v) : s.sourceFrom (byteLength u) = v := by
  rw [Setting.sourceFrom, h, dropBytes?_append]
  rfl

theorem blanksAt_append (h : s.source = u ++ v) :
    s.blanksAt (byteLength u) = byteLength (v.takeWhile isBlank) := by
  rw [Setting.blanksAt, sourceFrom_append h]

theorem sourceUpTo (h : Stands s span pre text post) : s.sourceUpTo span.hi = pre ++ text := by
  rw [Setting.sourceUpTo, h.source, h.hi, ← byteLength_append, ← List.append_assoc,
    takeBytes?_append]
  rfl

theorem exportKeyword (h : Stands s span pre text post)
    (htext : text = Setting.exportWord ++ rest) :
    s.exportKeyword span = .ok ⟨byteLength pre, byteLength pre + 6⟩ := by
  have hslice : slice? s.source span.lo span.hi = some text := by
    rw [h.source, h.lo, h.hi]
    exact slice?_append
  have hfind : find? Setting.exportWord text = some 0 := by
    rw [htext]
    exact find?_append (by decide)
  rw [Setting.exportKeyword, hslice, Option.bind_some, hfind, h.lo]
  rfl

theorem blanksBehind (h : Stands s span pre text post) {head : List Char}
    (htext : text = head ++ rest) (hrest : rest.any (!isBlank ·) = true) :
    s.blanksAt (byteLength pre + byteLength head) = byteLength (rest.takeWhile isBlank) := by
  have hsource : s.source = (pre ++ head) ++ (rest ++ post) := by rw [h.source, htext]; simp
  rw [← byteLength_append, blanksAt_append hsource, takeWhile_blank_append hrest]

theorem removeExport (h : Stands s span pre text post) (htext : text = Setting.exportWord ++ rest)
    (hrest : rest.any (!isBlank ·) = true) :
    s.removeExport span = .ok (shift (byteLength pre) (.remove 0 (headLength text rest))) := by
  have hword : byteLength Setting.exportWord = 6 := rfl
  have hblanks := h.blanksBehind htext hrest
  have hlen : byteLength text - byteLength rest = 6 := by
    rw [htext, byteLength_append, hword, Nat.add_sub_cancel]
  rw [hword] at hblanks
  simp only [Setting.removeExport, h.exportKeyword htext, bind, Except.bind, hblanks, headLength,
    hlen, pure, Except.pure, Edit.remove, shift, Nat.add_assoc, Nat.add_zero]

theorem replaceDefault (h : Stands s span pre text post) {name : Option String} (new : String)
    (hkey : behindKeywords (.default name) text = some rest)
    (hrest : rest.any (!isBlank ·) = true) :
    s.replaceDefault span new = .ok (shift (byteLength pre) ⟨0, headLength text rest, new⟩) := by
  obtain ⟨r, hr, hdefault⟩ := Option.bind_eq_some_iff.mp hkey
  have htext := dropStart?_eq_some.mp hr
  have htrim := dropStart?_eq_some.mp hdefault
  -- what goes is `export`, blanks, `default`, and the blanks that `rest` begins with
  have hsplit : r = r.takeWhile isBlank ++ ("default".toList ++ rest) := by
    rw [← htrim, trimStart, List.takeWhile_append_dropWhile]
  have hany : r.any (!isBlank ·) = true := by
    rw [hsplit, List.any_append, List.any_append, hrest]
    simp
  have hblanks : s.blanksAt (byteLength pre + 6) = byteLength (r.takeWhile isBlank) :=
    h.blanksBehind htext hany
  have hsource : s.source = (pre ++ Setting.exportWord ++ r.takeWhile isBlank) ++
      ("default".toList ++ (rest ++ post)) := by
    rw [h.source, htext]
    nth_rewrite 1 [hsplit]
    simp
  have hfrom : s.sourceFrom (byteLength pre + 6 + byteLength (r.takeWhile isBlank)) =
      "default".toList ++ (rest ++ post) := by
    have hlen : byteLength (pre ++ Setting.exportWord ++ r.takeWhile isBlank) =
        byteLength pre + 6 + byteLength (r.takeWhile isBlank) := by
      rw [byteLength_append, byteLength_append]
      rfl
    rw [← hlen, sourceFrom_append hsource]
  have hhead : text = (Setting.exportWord ++ r.takeWhile isBlank ++ "default".toList) ++ rest := by
    rw [htext]
    nth_rewrite 1 [hsplit]
    simp
  have hlen : byteLength (Setting.exportWord ++ r.takeWhile isBlank ++ "default".toList) =
      6 + byteLength (r.takeWhile isBlank) + 7 := by
    rw [byteLength_append, byteLength_append]
    rfl
  have hbehind : s.blanksAt (byteLength pre + 6 + byteLength (r.takeWhile isBlank) + 7) =
      byteLength (rest.takeWhile isBlank) := by
    have hb := h.blanksBehind hhead hrest
    rwa [hlen, ← Nat.add_assoc, ← Nat.add_assoc] at hb
  have htextlen : byteLength text - byteLength rest = 6 + byteLength (r.takeWhile isBlank) + 7 := by
    rw [hhead, byteLength_append, Nat.add_sub_cancel, hlen]
  have hdrop : dropStart? "default".toList ("default".toList ++ (rest ++ post)) =
      some (rest ++ post) := dropStart?_eq_some.mpr rfl
  have hseven : "default".length = 7 := rfl
  simp only [Setting.replaceDefault, h.exportKeyword htext, bind, Except.bind, hblanks, hfrom,
    hdrop, hseven, hbehind, pure, Except.pure, shift, headLength, htextlen, Nat.add_zero]
  simp only [Nat.add_assoc]

theorem append (h : Stands s span pre text post) (htext : text.any (!isBlank ·) = true)
    (added : String) : s.append span added = (closing text added).map (shift (byteLength pre)) := by
  have hlast : (trimEnd (s.sourceUpTo span.hi)).getLast? = (trimEnd text).getLast? := by
    rw [h.sourceUpTo]
    exact getLast?_trimEnd_append htext
  rw [h.hi] at hlast
  simp only [Setting.append, hlast, h.hi, closing, apply_ite (List.map (shift (byteLength pre))),
    List.map_nil, List.map_cons]
  rfl

end Stands

/-! ### Exports -/

@[simp] theorem map_shift_zero (E : List Edit) : E.map (shift 0) = E := by
  have hid : shift 0 = id := by
    funext e
    simp [shift]
  rw [hid, List.map_id]

def assigned (s : Setting) (d : Declarator) : Option Edit :=
  match d.target with
  | .name _ name => some (s.assignInside d name)
  | _ => none

/-- The edits of an export as counted from its beginning; `rest` is what follows its keywords. -/
def exportEdits (s : Setting) (first : Nat) (text rest : List Char) : ExportForm → List Edit
  | .function name | .classForm name =>
    ⟨0, byteLength text - byteLength rest,
      "const " ++ name ++ " = " ++ s.exportTarget name ++ " ="⟩ :: closing text ""
  | .variable declarators =>
    let names := declarators.flatMap fun d => topLevelBindings d.target
    .remove 0 (headLength text rest) :: (declarators.filterMap (assigned s) ++
      if names.isEmpty then []
      else closing text (String.intercalate " " (names.map fun name => s.assignment name name)))
  | .localList entries => (s.convertLocalList ⟨0, byteLength text⟩ entries).edits
  | .reexportList entries source =>
    (s.convertReexports first ⟨0, byteLength text⟩ entries source).edits
  | .default name =>
    ⟨0, headLength text rest, (name.elim "" fun n => "const " ++ n ++ " = ") ++
      (s.exportTarget "default" ++ " = ")⟩ :: closing text ""
  | .wildcard source =>
    [⟨0, byteLength text,
      "Object.assign(" ++ s.config.exportsIdent ++ ", " ++ (s.resolutionOf source).1 ++ ");"⟩]
  | .localDeclaration name =>
    .remove 0 (headLength text rest) :: closing text (s.assignment name name)
  | .typeOnly => [.remove 0 (byteLength text)]

def ExportForm.rebase (n : Nat) : ExportForm → ExportForm
  | .variable declarators => .variable (declarators.map (Declarator.rebase n))
  | form => form

theorem exportForm?_rebase (n : Nat) (shape : ItemShape) :
    exportForm? (shape.rebase n) = (exportForm? shape).map (ExportForm.rebase n) := by
  cases shape with
  | exportDecl decl =>
    cases decl with
    | «variable» declare declarators => cases declare <;> rfl
    | function name declare hasBody => cases declare <;> cases hasBody <;> rfl
    | classDecl name declare => cases declare <;> rfl
    | interface => rfl
    | typeAlias => rfl
    | enumeration name declare => cases declare <;> rfl
    | namespaceDecl name declare => cases declare <;> cases name <;> rfl
  | exportList entries source typeOnly => cases typeOnly <;> cases source <;> rfl
  | exportDefaultDecl decl => cases decl <;> rfl
  | exportAll source typeOnly => cases typeOnly <;> rfl
  | _ => rfl

theorem simpleBinding_rebase (n : Nat) (target : Pattern) :
    simpleBinding (target.rebase n) = simpleBinding target := by
  cases target with
  | withDefault span target => cases target <;> rfl
  | _ => rfl

theorem topLevelBindings_rebase (n : Nat) (target : Pattern) :
    topLevelBindings (target.rebase n) = topLevelBindings target := by
  cases target with
  | object span fields =>
    simp only [Pattern.rebase, topLevelBindings]
    induction fields with
    | nil => rfl
    | cons field fields ih =>
      have hfield : fieldBinding (field.rebase n) = fieldBinding field := by
        cases field with
        | short span name => rfl
        | keyed value => exact simpleBinding_rebase n value
        | rest target => exact simpleBinding_rebase n target
      rw [rebaseFields, List.filterMap_cons, List.filterMap_cons, hfield, ih]
  | array span elements =>
    simp only [Pattern.rebase, topLevelBindings]
    induction elements with
    | nil => rfl
    | cons element elements ih =>
      cases element with
      | none => simpa [rebaseElements] using ih
      | some element =>
        have helement : elementBinding (element.rebase n) = elementBinding element := by
          cases element with
          | rest span target => exact simpleBinding_rebase n target
          | withDefault span target => exact simpleBinding_rebase n (.withDefault span target)
          | _ => rfl
        rw [rebaseElements, List.filterMap_cons, List.filterMap_cons, Option.bind_some,
          Option.bind_some, helement, ih]
  | _ => rfl

theorem assigned_rebase (s : Setting) {n : Nat} {d : Declarator} (hd : n ≤ d.span.lo)
    (hle : d.span.lo ≤ d.span.hi) (hv : ∀ value ∈ d.value, n ≤ value.lo) :
    assigned s d = (assigned s (d.rebase n)).map (shift n) := by
  obtain ⟨span, target, value⟩ := d
  cases target with
  | name nameSpan name =>
    cases value with
    | none =>
      have hhi : n + (span.hi - n) = span.hi := Nat.add_sub_cancel' (hd.trans hle)
      simp [assigned, Declarator.rebase, Pattern.rebase, Setting.assignInside, Edit.insert, shift,
        Span.rebase, hhi]
    | some value =>
      have hlo : n + (value.lo - n) = value.lo := Nat.add_sub_cancel' (hv value rfl)
      simp [assigned, Declarator.rebase, Pattern.rebase, Setting.assignInside, Edit.insert, shift,
        Span.rebase, hlo]
  | _ => rfl

def Behind (n : Nat) (form : ExportForm) : Prop :=
  ∀ d ∈ declaratorsOf form, n ≤ d.span.lo ∧ d.span.lo ≤ d.span.hi ∧ ∀ value ∈ d.value, n ≤ value.lo

theorem filterMap_assigned (s : Setting) {n : Nat} {declarators : List Declarator}
    (h : Behind n (.variable declarators)) : declarators.filterMap (assigned s) =
      ((declarators.map (Declarator.rebase n)).filterMap (assigned s)).map (shift n) := by
  rw [List.filterMap_map, List.map_filterMap]
  apply List.filterMap_congr
  intro d hd
  obtain ⟨hlo, hle, hvalue⟩ := h d hd
  exact assigned_rebase s hlo hle hvalue

theorem resolve_edits (s : Setting) (specifier : String) :
    (s.resolve specifier).2.edits = [] ∧ (s.resolve specifier).2.temporaries = 0 := by
  unfold Setting.resolve
  split
  · exact ⟨rfl, rfl⟩
  · split <;> exact ⟨rfl, rfl⟩

theorem append_edits (a b : Contribution) : (a ++ b).edits = a.edits ++ b.edits := rfl

theorem append_temporaries (a b : Contribution) :
    (a ++ b).temporaries = a.temporaries + b.temporaries := rfl

theorem resolutionOf_found (s : Setting) (specifier : String) (c : Contribution) :
    ((s.resolutionOf specifier).2 ++ c).edits = c.edits ∧
      ((s.resolutionOf specifier).2 ++ c).temporaries = c.temporaries := by
  obtain ⟨hedits, htemporaries⟩ := resolve_edits s specifier
  have hfound : (s.resolutionOf specifier).2 = (s.resolve specifier).2 := rfl
  rw [append_edits, append_temporaries, hfound, hedits, htemporaries]
  exact ⟨List.nil_append _, Nat.zero_add _⟩

def temporariesOf : ExportForm → Nat
  | .reexportList entries _ => (entries.filterMap ExportEntry.pair?).length
  | _ => 0

namespace Stands

variable {s : Setting} {span : Span} {pre text post rest : List Char} {first : Nat}

theorem any (hrest : rest.any (!isBlank ·) = true) {form : ExportForm}
    (hkey : behindKeywords form text = some rest) : text.any (!isBlank ·) = true := by
  obtain ⟨head, htext, -⟩ := keywords_split hkey
  rw [htext, List.any_append, hrest, Bool.or_true]

theorem bindDeclaration (h : Stands s span pre text post)
    (htext : text = Setting.exportWord ++ rest) (hany : text.any (!isBlank ·) = true) (first : Nat)
    (name : String) : ∃ c,
      s.bindDeclaration span name = .ok c ∧ c.edits =
        (exportEdits s first text rest (.function name)).map (shift (byteLength pre)) ∧
      c.temporaries = 0 := by
  have hsix : byteLength text - byteLength rest = 6 := by
    rw [htext, byteLength_append, Nat.add_sub_cancel]
    rfl
  simp only [Setting.bindDeclaration, h.exportKeyword htext, bind, Except.bind, h.append hany, pure,
    Except.pure]
  refine ⟨_, rfl, ?_, rfl⟩
  simp only [exportEdits, hsix, List.map_cons, shift, Nat.add_zero]

theorem convertVariables (h : Stands s span pre text post)
    (htext : text = Setting.exportWord ++ rest) (hrest : rest.any (!isBlank ·) = true)
    (hany : text.any (!isBlank ·) = true) (first : Nat) {declarators : List Declarator}
    (hbehind : Behind (byteLength pre) (.variable declarators)) : ∃ c,
      s.convertVariables span declarators = .ok c ∧ c.edits =
        (exportEdits s first text rest
          (.variable (declarators.map (Declarator.rebase (byteLength pre))))).map
          (shift (byteLength pre)) ∧ c.temporaries = 0 := by
  -- patterns bind the same names wherever they stand
  have hnames : (declarators.map (Declarator.rebase (byteLength pre))).flatMap
      (fun d => topLevelBindings d.target) =
        declarators.flatMap fun d => topLevelBindings d.target := by
    rw [List.flatMap_map]
    congr 1
    funext d
    exact topLevelBindings_rebase _ _
  simp only [Setting.convertVariables, h.removeExport htext hrest, bind, Except.bind, pure,
    Except.pure, h.append hany]
  refine ⟨_, rfl, ?_, rfl⟩
  show _ :: (declarators.filterMap (assigned s) ++ _) = _
  rw [filterMap_assigned s hbehind]
  simp only [exportEdits, hnames, List.map_cons, List.map_append,
    apply_ite (List.map (shift (byteLength pre))), List.map_nil]

theorem convertReexports (h : Stands s span pre text post) (entries : List ExportEntry)
    (source : String) :
    (s.convertReexports first span entries source).edits =
      (s.convertReexports first ⟨0, byteLength text⟩ entries source).edits.map
        (shift (byteLength pre)) ∧
    (s.convertReexports first span entries source).temporaries =
      (entries.filterMap ExportEntry.pair?).length := by
  have hwhole : ∀ new, [(⟨span.lo, span.hi, new⟩ : Edit)] =
      [⟨0, byteLength text, new⟩].map (shift (byteLength pre)) := by
    intro new
    simp [shift, h.lo, h.hi]
  unfold Setting.convertReexports
  dsimp only
  split
  · rename_i hempty
    rw [Bool.and_eq_true, List.isEmpty_iff] at hempty
    exact ⟨hwhole _, by rw [hempty.1]; rfl⟩
  · rw [(resolutionOf_found s source _).1, (resolutionOf_found s source _).1,
      (resolutionOf_found s source _).2]
    exact ⟨hwhole _, rfl⟩

theorem convertExport (h : Stands s span pre text post) (first : Nat) {form : ExportForm}
    (hkeep : form ≠ .typeOnly) (hkey : behindKeywords form text = some rest)
    (hrest : rest.any (!isBlank ·) = true) (hbehind : Behind (byteLength pre) form) : ∃ c,
      s.convertExport first span form = .ok c ∧ c.edits =
        (exportEdits s first text rest (form.rebase (byteLength pre))).map
          (shift (byteLength pre)) ∧ c.temporaries = temporariesOf form := by
  have hany := any hrest hkey
  have hwhole : ∀ new, [(⟨span.lo, span.hi, new⟩ : Edit)] =
      [⟨0, byteLength text, new⟩].map (shift (byteLength pre)) := by
    intro new
    simp [shift, h.lo, h.hi]
  cases form with
  | function name => exact h.bindDeclaration (dropStart?_eq_some.mp hkey) hany first name
  | classForm name => exact h.bindDeclaration (dropStart?_eq_some.mp hkey) hany first name
  | «variable» declarators =>
    exact h.convertVariables (dropStart?_eq_some.mp hkey) hrest hany first hbehind
  | localList entries => exact ⟨_, rfl, hwhole _, rfl⟩
  | reexportList entries source => exact ⟨_, rfl, h.convertReexports entries source⟩
  | default name =>
    simp only [Setting.convertExport, h.replaceDefault _ hkey hrest, bind, Except.bind,
      h.append hany, pure, Except.pure]
    exact ⟨_, rfl, rfl, rfl⟩
  | wildcard source =>
    obtain ⟨hedits, htemporaries⟩ := resolutionOf_found s source
      { edits := [⟨span.lo, span.hi, "Object.assign(" ++ s.config.exportsIdent ++ ", " ++
          (s.resolutionOf source).1 ++ ");"⟩], hasExports := true }
    exact ⟨_, rfl, hedits.trans (hwhole _), htemporaries⟩
  | localDeclaration name =>
    have htext := dropStart?_eq_some.mp hkey
    simp only [Setting.convertExport, h.removeExport htext hrest, bind, Except.bind, h.append hany,
      pure, Except.pure]
    exact ⟨_, rfl, rfl, rfl⟩
  | typeOnly => exact absurd rfl hkeep

end Stands

/-! ### Edits of a piece stay out of each other's way -/

/-- New text for the beginning of a piece, and insertions behind it; neither reaches into an
`import.meta`. -/
structure Headed (text : List Char) (metas : List Span) (E : List Edit) : Prop where
  form : ∃ front inserts, E = front :: inserts ∧ front.start = 0 ∧ Boundary text front.stop ∧
    (∀ e ∈ inserts, e.start = e.stop ∧ front.stop ≤ e.start ∧ Boundary text e.start ∧
      ∀ span ∈ metas, e.start ≤ span.lo ∨ span.hi ≤ e.start) ∧
    ∀ span ∈ metas, front.stop ≤ span.lo

section

variable {s : Setting} {p : Piece} {form : ExportForm} {rest : List Char} {first : Nat}

theorem mem_closing {text : List Char} {added : String} {e : Edit} (h : e ∈ closing text added) :
    e = .insert (byteLength text) e.text := by
  unfold closing at h
  dsimp only at h
  generalize (if (trimEnd text).getLast? = some ';' then "" else ";") ++
    (if added.isEmpty then "" else " " ++ added) = appended at h
  split at h
  · cases h
  · rw [List.mem_singleton] at h
    rw [h]
    rfl

theorem KeywordsFirst.headLength_le (h : KeywordsFirst p form rest) {n : Nat}
    (hn : StartsToken p.text n) (hle : byteLength p.text ≤ n + byteLength rest) :
    headLength p.text rest ≤ n := by
  obtain ⟨head, htext, hlen⟩ := keywords_split h.keywords
  rw [headLength, ← hlen]
  rw [htext] at hn hle
  rw [byteLength_append] at hle
  exact hn.behind_blanks (by omega)

theorem KeywordsFirst.boundary (h : KeywordsFirst p form rest) :
    Boundary p.text (byteLength p.text - byteLength rest) ∧
      Boundary p.text (headLength p.text rest) := by
  obtain ⟨head, htext, hlen⟩ := keywords_split h.keywords
  refine ⟨⟨head, rest, htext, hlen⟩, head ++ rest.takeWhile isBlank, rest.dropWhile isBlank, ?_, ?_⟩
  · rw [List.append_assoc, List.takeWhile_append_dropWhile, htext]
  · rw [byteLength_append, headLength, hlen]

theorem Piece.WellFormed.meta_le (h : p.WellFormed) {span : Span} (hspan : span ∈ p.metas) :
    span.hi ≤ byteLength p.text := (h.metas span hspan).2.2.le

theorem Piece.WellFormed.closing_behind (h : p.WellFormed) {added : String} {n : Nat}
    (hn : n ≤ byteLength p.text) : ∀ e ∈ closing p.text added, e.start = e.stop ∧ n ≤ e.start ∧
      Boundary p.text e.start ∧ ∀ span ∈ p.metas, e.start ≤ span.lo ∨ span.hi ≤ e.start := by
  intro e he
  rw [mem_closing he]
  exact ⟨rfl, hn, boundary_end, fun span hspan => .inr (h.meta_le hspan)⟩

theorem headed_keywords (hp : p.WellFormed) (hkey : KeywordsFirst p form rest)
    {new added : String} :
    Headed p.text p.metas (⟨0, headLength p.text rest, new⟩ :: closing p.text added) := by
  have hcut := hkey.boundary.2
  refine ⟨_, _, rfl, rfl, hcut, hp.closing_behind hcut.le, fun span hspan => ?_⟩
  exact hkey.headLength_le (hp.metas span hspan).2.1 (hkey.metas span hspan)

theorem headed_whole (hmetas : p.metas = []) {new : String} :
    Headed p.text p.metas [⟨0, byteLength p.text, new⟩] := by
  refine ⟨_, _, rfl, rfl, boundary_end, by simp, by simp [hmetas]⟩

theorem assigned_behind {d : Declarator} (hd : DeclaratorFits p.text p.metas d) {n : Nat}
    (hn : n ≤ d.span.lo) {e : Edit} (he : assigned s d = some e) : e.start = e.stop ∧ n ≤ e.start ∧
      Boundary p.text e.start ∧ ∀ span ∈ p.metas, e.start ≤ span.lo ∨ span.hi ≤ e.start := by
  unfold assigned at he
  split at he
  · cases he
    unfold Setting.assignInside
    split
    · rename_i value hvalue
      obtain ⟨hlo, hcut⟩ := hd.value value hvalue
      exact ⟨rfl, hn.trans hlo, hcut, fun span hspan => (hd.metas span hspan).2 value hvalue⟩
    · exact ⟨rfl, hn.trans hd.nonempty, hd.cut, fun span hspan => (hd.metas span hspan).1⟩
  · cases he

theorem exportEdits_headed (hp : p.WellFormed) (hkey : KeywordsFirst p form rest)
    (hkeep : form ≠ .typeOnly)
    (hwhole : replacesItem form = true → p.metas = []) :
    Headed p.text p.metas (exportEdits s first p.text rest form) := by
  cases form with
  | function name | classForm name =>
    have hcut := hkey.boundary.1
    refine ⟨_, _, rfl, rfl, hcut, hp.closing_behind hcut.le, fun span hspan => ?_⟩
    exact Nat.sub_le_iff_le_add.mpr (hkey.metas span hspan)
  | «variable» declarators =>
    have hcut := hkey.boundary.2
    refine ⟨_, _, rfl, rfl, hcut, fun e he => ?_, fun span hspan => ?_⟩
    · rcases List.mem_append.mp he with he | he
      · obtain ⟨d, hd, hassigned⟩ := List.mem_filterMap.mp he
        obtain ⟨hbehind, hfits⟩ := hkey.declarators d hd
        exact assigned_behind hfits (hkey.headLength_le hfits.token hbehind) hassigned
      · split at he
        · cases he
        · exact hp.closing_behind hcut.le e he
    · exact hkey.headLength_le (hp.metas span hspan).2.1 (hkey.metas span hspan)
  | localList entries => exact headed_whole (hwhole rfl)
  | reexportList entries source =>
    simp only [exportEdits, Setting.convertReexports]
    split
    · exact headed_whole (hwhole rfl)
    · rw [(resolutionOf_found s source _).1]
      exact headed_whole (hwhole rfl)
  | default name => exact headed_keywords hp hkey
  | wildcard source => exact headed_whole (hwhole rfl)
  | localDeclaration name => exact headed_keywords hp hkey
  | typeOnly => exact absurd rfl hkeep

theorem metaEdits_fitting (hp : p.WellFormed) (config : Config) :
    Fitting p.text (metaEdits config p.metas) where
  inside := by
    intro e he
    obtain ⟨span, hspan, rfl⟩ := List.mem_map.mp he
    obtain ⟨hlt, htoken, hcut⟩ := hp.metas span hspan
    exact ⟨hlt.le, htoken.boundary, hcut⟩
  apart := List.pairwise_map.mpr hp.apart

theorem Headed.fitting {E : List Edit} (h : Headed p.text p.metas E) (hp : p.WellFormed)
    (config : Config) : Fitting p.text (E ++ metaEdits config p.metas) := by
  obtain ⟨front, inserts, rfl, hzero, hcut, hinserts, hmetas⟩ := h.form
  have hrest := metaEdits_fitting hp config
  constructor
  · intro e he
    rcases List.mem_append.mp he with he | he
    · rcases List.mem_cons.mp he with rfl | he
      · rw [hzero]
        exact ⟨Nat.zero_le _, boundary_zero, hcut⟩
      · obtain ⟨hsame, -, hb, -⟩ := hinserts e he
        exact ⟨hsame.le, hb, hsame ▸ hb⟩
    · exact hrest.inside e he
  · refine List.pairwise_append.mpr ⟨List.pairwise_cons.mpr ⟨fun e he => ?_, ?_⟩, hrest.apart, ?_⟩
    · exact .inl (hinserts e he).2.1
    · refine List.pairwise_of_forall_mem_list fun a ha b hb => ?_
      rw [Apart, ← (hinserts a ha).1, ← (hinserts b hb).1]
      exact Nat.le_total _ _
    · intro a ha b hb
      obtain ⟨span, hspan, rfl⟩ := List.mem_map.mp hb
      rcases List.mem_cons.mp ha with rfl | ha
      · exact .inl (hmetas span hspan)
      · obtain ⟨hsame, -, -, hapart⟩ := hinserts a ha
        rw [Apart, ← hsame]
        exact hapart span hspan

end

/-! ### Items -/

section

variable {s : Setting} {item : Item} {p : Piece} {pre post : List Char} {config : Config}
  {form : ExportForm} {first : Nat}

theorem convertItem_export (s : Setting) (first : Nat) (item : Item)
    (h : exportForm? item.shape = some form) :
    s.convertItem first item = s.convertExport first item.span form := by
  obtain ⟨span, shape⟩ := item
  cases shape <;> cases h <;> rfl

theorem resolutionOf_call (s : Setting) (specifier : String) : (s.resolutionOf specifier).1 =
    "await " ++ resolutionCall s.config
      (if s.config.isHostNative specifier then .hostNative else .generic) specifier := by
  unfold Setting.resolutionOf Setting.resolve
  by_cases hnative : s.config.isHostNative specifier = true
  · simp [hnative]
  · by_cases htooling : s.config.isUnknownTooling specifier = true <;> simp [hnative, htooling]

theorem exportEdits_congr (s' : Setting) (h : s.config = s'.config) (text rest : List Char) :
    exportEdits s first text rest form = exportEdits s' first text rest form := by
  have htarget : s.exportTarget = s'.exportTarget := by
    funext name
    rw [Setting.exportTarget, h, Setting.exportTarget]
  have hassignment : s.assignment = s'.assignment := by
    funext name value
    rw [Setting.assignment, htarget, Setting.assignment]
  have hassigned : assigned s = assigned s' := by
    funext d
    unfold assigned Setting.assignInside
    rw [htarget]
  have hcall : ∀ source, (s.resolutionOf source).1 = (s'.resolutionOf source).1 := by
    intro source
    rw [resolutionOf_call, resolutionOf_call, h]
  cases form with
  | function name | classForm name | default name => simp only [exportEdits, htarget]
  | «variable» declarators => simp only [exportEdits, hassigned, hassignment]
  | localList entries => simp only [exportEdits, Setting.convertLocalList, hassignment]
  | reexportList entries source =>
    simp only [exportEdits, Setting.convertReexports]
    split
    · rfl
    · rw [(resolutionOf_found s source _).1, (resolutionOf_found s' source _).1]
      simp only [Setting.reexportBlock, hcall, hassignment]
  | wildcard source => simp only [exportEdits, hcall, h]
  | localDeclaration name => simp only [exportEdits, hassignment]
  | typeOnly => rfl

theorem behind_rebase {n : Nat} (h : Behind n form) : Behind 0 (form.rebase n) := by
  intro d hd
  refine ⟨Nat.zero_le _, ?_, fun _ _ => Nat.zero_le _⟩
  cases form with
  | «variable» declarators =>
    obtain ⟨d, hmem, rfl⟩ := List.mem_map.mp hd
    exact Nat.sub_le_sub_right (h d hmem).2.1 n
  | _ => cases hd

theorem rebase_zero (form : ExportForm) : form.rebase 0 = form := by
  cases form with
  | «variable» declarators =>
    rw [ExportForm.rebase, funext Declarator.rebase_zero, List.map_id']
  | _ => rfl

theorem temporariesIn_eq {shape : ItemShape} (h : exportForm? shape = some form) :
    temporariesIn shape = temporariesOf form := by
  rw [temporariesIn, h]
  cases form <;> rfl

theorem erased_eq (h : exportForm? item.shape = some form) (hkeep : erased item.shape = false) :
    form ≠ .typeOnly := by
  rintro rfl
  obtain ⟨span, shape⟩ := item
  cases shape <;> simp [erased, h] at hkeep

theorem erased_rebase (n : Nat) (shape : ItemShape) : erased (shape.rebase n) = erased shape := by
  cases shape with
  | exportDecl decl =>
    cases decl with
    | «variable» declare declarators => cases declare <;> rfl
    | _ => rfl
  | _ => rfl

theorem convertItem_none (s : Setting) (first : Nat) (item : Item)
    (h : exportForm? item.shape = none) (hkeep : erased item.shape = false) :
    ∃ c, s.convertItem first item = .ok c ∧ c.edits = [] ∧ c.temporaries = 0 := by
  obtain ⟨span, shape⟩ := item
  cases shape with
  | importFrom source entries typeOnly => cases hkeep
  | statement => exact ⟨_, rfl, rfl, rfl⟩
  | importEquals => exact ⟨_, rfl, rfl, rfl⟩
  | exportAssignment => exact ⟨_, rfl, rfl, rfl⟩
  | _ => cases h

/-- An item that is kept makes the edits in its module that it makes by itself, moved to its place,
and they do not get into the way of each other or of the metas. -/
theorem item_kept (h : Stands s item.span pre p.text post) (first : Nat)
    (hshape : p.shape = item.shape.rebase (byteLength pre)) (hs : s.config = config)
    (hp : p.WellFormed) (hbehind : ∀ form, exportForm? item.shape = some form →
      Behind (byteLength pre) form) (hkeep : erased item.shape = false)
    (hwhole : replacedWhole item.shape = true → p.metas = []) : ∃ a b,
      s.convertItem first item = .ok a ∧ (p.setting config).convertItem first p.item = .ok b ∧
      a.edits = b.edits.map (shift (byteLength pre)) ∧ a.temporaries = temporariesIn item.shape ∧
      Fitting p.text (b.edits ++ metaEdits config p.metas) := by
  have hform := exportForm?_rebase (byteLength pre) item.shape
  rw [← hshape] at hform
  cases hexport : exportForm? item.shape with
  | none =>
    rw [hexport] at hform
    have hkeep' : erased p.item.shape = false := by
      rw [Piece.item, hshape, erased_rebase]
      exact hkeep
    obtain ⟨a, ha, hedits, htemporaries⟩ := convertItem_none s first item hexport hkeep
    obtain ⟨b, hb, hedits', -⟩ :=
      convertItem_none (p.setting config) first p.item hform hkeep'
    refine ⟨a, b, ha, hb, by rw [hedits, hedits', List.map_nil], ?_, ?_⟩
    · rw [htemporaries, temporariesIn, hexport]
    · rw [hedits']
      exact metaEdits_fitting hp config
  | some form =>
    rw [hexport] at hform
    have hne : form ≠ .typeOnly := erased_eq hexport hkeep
    have hne' : form.rebase (byteLength pre) ≠ .typeOnly := by
      cases form <;> simp_all [ExportForm.rebase]
    -- the export by itself and in its module have the same keywords
    obtain ⟨rest, hkey⟩ := hp.keywords _ hform
    have hkeyword : behindKeywords form p.text = some rest := by
      rw [← hkey.keywords]
      cases form <;> rfl
    obtain ⟨a, ha, hedits, htemporaries⟩ :=
      h.convertExport first hne hkeyword hkey.more (hbehind form hexport)
    obtain ⟨b, hb, hedits', -⟩ := (p.stands config).convertExport first hne' hkey.keywords
      hkey.more (behind_rebase (hbehind form hexport))
    rw [byteLength_nil, rebase_zero, map_shift_zero] at hedits'
    refine ⟨a, b, (convertItem_export s first item hexport).trans ha,
      (convertItem_export _ first p.item hform).trans hb, ?_, ?_, ?_⟩
    · rw [hedits, hedits', exportEdits_congr (p.setting config) hs]
    · rw [htemporaries, temporariesIn_eq hexport]
    · rw [hedits']
      refine (exportEdits_headed hp hkey hne' fun hreplaces => hwhole ?_).fitting hp config
      rw [replacedWhole, hexport, Option.any_some, ← hreplaces]
      cases form <;> rfl

theorem erased_form {shape : ItemShape} (h : erased shape = true)
    (hdecl : ∀ source entries typeOnly, shape ≠ .importFrom source entries typeOnly) :
    exportForm? shape = some .typeOnly := by
  unfold erased at h
  split at h
  · exact absurd rfl (hdecl _ _ _)
  · split at h
    · assumption
    · cases h

theorem convertImport_resolved (s : Setting) (span : Span) (source : String)
    (entries : List ImportEntry) : ∃ imports, s.convertImport span source entries false =
      { edits := [s.removeItem span] } ++ (s.resolve source).2 ++ { imports := imports } :=
  ⟨_, rfl⟩

theorem item_erased (s : Setting) (first : Nat) (item : Item) (h : erased item.shape = true) : ∃ c,
    s.convertItem first item = .ok c ∧ c.edits = [s.removeItem item.span] ∧
      c.temporaries = temporariesIn item.shape := by
  obtain ⟨span, shape⟩ := item
  cases shape with
  | importFrom source entries typeOnly =>
    refine ⟨_, rfl, ?_⟩
    cases typeOnly with
    | true => exact ⟨rfl, rfl⟩
    | false =>
      obtain ⟨hedits, htemporaries⟩ := resolve_edits s source
      obtain ⟨imports, hresolved⟩ := convertImport_resolved s span source entries
      rw [hresolved, append_edits, append_edits, append_temporaries,
        append_temporaries, hedits, htemporaries]
      exact ⟨rfl, rfl⟩
  | _ =>
    have hform := erased_form h fun _ _ _ => nofun
    exact ⟨_, convertItem_export s first ⟨span, _⟩ hform, rfl,
      (temporariesIn_eq hform).symm⟩

end

end ModuleHost.Wrap
