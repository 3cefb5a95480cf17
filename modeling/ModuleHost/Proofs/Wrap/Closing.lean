import ModuleHost.Proofs.Text.Ends
import ModuleHost.Proofs.Wrap.Weave

/-! What the text of an item ends with. An export is closed by what is written behind it or in its
place; a statement, and variables that are assigned inside their declaration, end as they did. -/

namespace ModuleHost.Wrap

open ModuleHost.Syntax ModuleHost.Text ModuleHost.Wrap.Edit

def isCloser (c : Char) : Bool := c = ';' || c = '}'

/-- A statement that ends like this does not go on, whatever follows it. -/
def Closed (text : List Char) : Prop := (trimEnd text).getLast?.any isCloser = true

instance (text : List Char) : Decidable (Closed text) := inferInstanceAs (Decidable (_ = true))

def closesForm : ExportForm → Bool
  | .function _ | .classForm _ | .default _ | .wildcard _ | .localDeclaration _ => true
  | .variable declarators => !(declarators.flatMap fun d => topLevelBindings d.target).isEmpty
  | .localList entries => !(entries.filterMap ExportEntry.pair?).isEmpty
  | .reexportList entries _ => !((entries.filterMap ExportEntry.pair?).isEmpty &&
      (entries.filterMap ExportEntry.namespaceName?).isEmpty)
  | .typeOnly => false

/-- Whether an item is converted to text with an end of its own. -/
def closes (shape : ItemShape) : Bool := (exportForm? shape).any closesForm

/-- Whether nothing is written for an item. -/
def vanishes (shape : ItemShape) : Bool := erased shape || (replacedWhole shape && !closes shape)

/-- What else a parser promises of an item: `import.meta` begins with a letter, and a value with a
token. -/
structure Piece.Visible (p : Piece) : Prop where
  metas : ∀ span ∈ p.metas, (dropBytes? p.text span.lo).bind List.head? = some 'i'
  values : ∀ form, exportForm? p.shape = some form → ∀ d ∈ declaratorsOf form,
    ∀ value ∈ d.value, StartsToken p.text value.lo

variable {config : Config} {p : Piece}
  {text u t q r : List Char} {E G M : List Edit} {e : Edit} {first c : Nat} {form : ExportForm}

/-! ### The last edit -/

theorem applyFrom_concat (hcut : Boundary text e.stop)
    (h : applyFrom text c (E ++ [e]) = .ok t) : ∃ u q r,
      t = u ++ (e.text.toList ++ r) ∧ text = q ++ r ∧ byteLength q = e.stop := by
  induction E generalizing c t with
  | nil =>
    obtain ⟨-, -, -, kept, more, -, hmore, rfl⟩ := applyFrom_cons_ok h
    obtain ⟨q, r, htext, hq⟩ := hcut
    have hdrop : dropBytes? text e.stop = some r := dropBytes?_eq_some.mpr ⟨q, htext, hq⟩
    rw [applyFrom, hdrop] at hmore
    obtain rfl : r = more := Except.ok.inj hmore
    exact ⟨kept, q, r, by rw [List.append_assoc], htext, hq⟩
  | cons a E ih =>
    obtain ⟨-, -, -, kept, more, -, hmore, rfl⟩ := applyFrom_cons_ok h
    obtain ⟨u, q, r, rfl, htext, hq⟩ := ih hmore
    exact ⟨kept ++ a.text.toList ++ u, q, r, (List.append_assoc _ _ _).symm, htext, hq⟩

theorem applyAll_last (hne : E ≠ []) (hcut : ∀ e ∈ E, Boundary text e.stop)
    (h : applyAll E text = .ok t) : ∃ e ∈ E, ∃ u q r,
      t = u ++ (e.text.toList ++ r) ∧ text = q ++ r ∧ byteLength q = e.stop := by
  have hsorted : sorted E ≠ [] := by
    intro hnil
    have hperm := sorted_perm E
    rw [hnil] at hperm
    exact hne hperm.symm.eq_nil
  have hlast : sorted E = (sorted E).dropLast ++ [(sorted E).getLast hsorted] :=
    (List.dropLast_concat_getLast hsorted).symm
  have hmem : (sorted E).getLast hsorted ∈ E := mem_sorted.mp (List.getLast_mem hsorted)
  have hconcat : applyFrom text 0 ((sorted E).dropLast ++ [(sorted E).getLast hsorted]) = .ok t := by
    rw [← hlast]
    exact h
  exact ⟨_, hmem, applyFrom_concat (hcut _ hmem) hconcat⟩

theorem sorted_insert_end {n : Nat} {s : String} (hG : ∀ a ∈ G, a.start ≤ a.stop ∧ a.stop ≤ n)
    (hM : ∀ b ∈ M, b.start < b.stop ∧ b.stop ≤ n) (htext : ∀ b ∈ M, b.text = config.importMetaIdent) :
    sorted (G ++ [Edit.insert n s] ++ M) = sorted (G ++ M) ++ [Edit.insert n s] := by
  have hperm : M.Perm (M ++ []) := by rw [List.append_nil]
  have hend : sorted [.insert n s] = [Edit.insert n s] := List.mergeSort_singleton _
  have hsplit := sorted_at (n := n) (G := G) (H := [.insert n s]) hperm htext (fun a ha => ?_)
    (fun b hb => (hM b hb).1) fun b hb => ?_
  · rwa [List.append_nil, hend] at hsplit
  · rcases List.mem_append.mp ha with ha | ha
    · exact hG a ha
    · exact ⟨(hM a ha).1.le, (hM a ha).2⟩
  · rw [List.append_nil, List.mem_singleton] at hb
    rw [hb]
    exact ⟨Nat.le_refl n, Nat.le_refl n⟩

/-! ### Closed texts -/

theorem closed_append (h : r.any (!isBlank ·) = true) : Closed (u ++ r) ↔ Closed r := by
  unfold Closed
  rw [getLast?_trimEnd_append h]

theorem closed_behind {d : Char} (hd : t.getLast? = some d) (hblank : isBlank d = false)
    (hr : ∀ c ∈ r, isBlank c = true) : Closed (t ++ r) ↔ isCloser d = true := by
  have hlast : ∀ c ∈ t.getLast?, isBlank c = false := by
    intro c hc
    rw [← Option.some.inj (hd.symm.trans hc), hblank]
  have htrim : trimEnd (t ++ r) = t := dropEndWhile_append hr hlast
  unfold Closed
  rw [htrim, hd, Option.any_some]

theorem closer_visible {d : Char} (h : isCloser d = true) : isBlank d = false := by
  simp only [isCloser, Bool.or_eq_true, decide_eq_true_eq] at h
  rcases h with rfl | rfl
  · rfl
  · rfl

theorem closed_of_getLast (h : t.getLast?.any isCloser = true) : Closed t := by
  obtain ⟨d, hd, hcloser⟩ := (Option.any_eq_true _ _).mp h
  have hclosed := closed_behind (r := []) hd (closer_visible hcloser) nofun
  rw [List.append_nil] at hclosed
  exact hclosed.mpr hcloser

/-- Behind an edit there is more text, or it writes something that closes no statement. -/
def Harmless (text : List Char) (e : Edit) : Prop :=
  ∀ q r, text = q ++ r → byteLength q = e.stop → r.any (!isBlank ·) = true ∨
    ∃ d ∈ e.text.toList.getLast?, isBlank d = false ∧ isCloser d = false

theorem not_closed_of_harmless (hE : ∀ e ∈ E, Boundary text e.stop ∧ Harmless text e)
    (hopen : ¬Closed text) (h : applyAll E text = .ok t) : ¬Closed t := by
  by_cases hne : E = []
  · subst hne
    obtain rfl : text = t := by
      have hnil : applyFrom text 0 (sorted []) = .ok t := h
      have hdrop : dropBytes? text 0 = some text := dropBytes?_eq_some.mpr ⟨[], rfl, rfl⟩
      rw [sorted, List.mergeSort_nil, applyFrom, hdrop] at hnil
      exact Except.ok.inj hnil
    exact hopen
  · obtain ⟨e, he, u, q, r, rfl, rfl, hq⟩ := applyAll_last hne (fun e he => (hE e he).1) h
    by_cases hr : r.any (!isBlank ·) = true
    · rw [closed_append hr] at hopen
      rwa [← List.append_assoc, closed_append hr]
    · have hblanks : ∀ c ∈ r, isBlank c = true := by simpa using hr
      rcases (hE e he).2 q r rfl hq with hany | ⟨d, hd, hvisible, hcloser⟩
      · exact absurd hany hr
      · have hlast : (u ++ e.text.toList).getLast? = some d := by
          rw [List.getLast?_append, Option.mem_def.mp hd, Option.some_or]
        rw [← List.append_assoc, closed_behind hlast hvisible hblanks, hcloser]
        exact Bool.false_ne_true

theorem closed_of_insert {s : String} (hG : ∀ a ∈ G, a.start ≤ a.stop ∧ a.stop ≤ byteLength text)
    (hM : ∀ b ∈ M, b.start < b.stop ∧ b.stop ≤ byteLength text)
    (htext : ∀ b ∈ M, b.text = config.importMetaIdent) (hs : s.toList.getLast?.any isCloser = true)
    (h : applyAll (G ++ [Edit.insert (byteLength text) s] ++ M) text = .ok t) : Closed t := by
  have hconcat : applyFrom text 0 (sorted (G ++ M) ++ [Edit.insert (byteLength text) s]) = .ok t := by
    rw [← sorted_insert_end hG hM htext]
    exact h
  obtain ⟨u, q, r, rfl, htext, hq⟩ := applyFrom_concat boundary_end hconcat
  have hsame : q ++ r = text ++ [] := by rw [List.append_nil, ← htext]
  obtain ⟨-, rfl⟩ := append_inj_of_byteLength hsame hq
  obtain ⟨d, hd, hcloser⟩ := (Option.any_eq_true _ _).mp hs
  refine closed_of_getLast ?_
  show Option.any isCloser (u ++ (s.toList ++ [])).getLast? = true
  rw [List.append_nil, List.getLast?_append, hd, Option.some_or, Option.any_some, hcloser]

/-! ### What exports end with -/

theorem getLast?_assignment (s : Setting) (name value : String) :
    (s.assignment name value).toList.getLast?.any isCloser = true := by
  have hlast : (s.assignment name value).toList.getLast? = some ';' := getLast?_joined _ rfl
  rw [hlast]
  rfl

theorem getLast?_reexportBlock (s : Setting) (call : String) (first : Nat)
    (pairs : List (String × String)) :
    (s.reexportBlock call first pairs).toList.getLast?.any isCloser = true := by
  have hlast : (s.reexportBlock call first pairs).toList.getLast? = some '\x7d' :=
    getLast?_joined _ rfl
  rw [hlast]
  rfl

theorem getLast?_intercalate {texts : List String} (hne : texts ≠ [])
    (h : ∀ text ∈ texts, text.toList.getLast?.any isCloser = true) :
    (String.intercalate " " texts).toList.getLast?.any isCloser = true := by
  rw [String.toList_intercalate]
  induction texts with
  | nil => exact absurd rfl hne
  | cons text texts ih =>
    obtain ⟨hfirst, hmore⟩ := List.forall_mem_cons.mp h
    cases texts with
    | nil => simpa using hfirst
    | cons next texts =>
      have hrest := ih (List.cons_ne_nil _ _) hmore
      obtain ⟨d, hd, hcloser⟩ := (Option.any_eq_true _ _).mp hrest
      rw [List.map_cons, List.map_cons, List.intercalate_cons_cons]
      rw [List.map_cons] at hd
      rw [List.getLast?_append, hd, Option.some_or, Option.any_some, hcloser]

theorem closing_open (hopen : ¬Closed text) (added : String) : closing text added =
    [.insert (byteLength text) (";" ++ if added.isEmpty then "" else " " ++ added)] := by
  have hnot : ¬(trimEnd text).getLast? = some ';' := by
    intro hlast
    apply hopen
    unfold Closed
    rw [hlast]
    rfl
  have hsome : ∀ s : String, (";" ++ s).isEmpty = false := by
    intro s
    rw [String.isEmpty_eq_false_iff]
    intro hempty
    have hlength := congrArg String.length hempty
    simp at hlength
  unfold closing
  dsimp only
  rw [if_neg hnot, hsome]
  rfl

theorem getLast?_closing {added : String}
    (h : added = "" ∨ added.toList.getLast?.any isCloser = true) :
    (";" ++ if added.isEmpty then "" else " " ++ added).toList.getLast?.any isCloser = true := by
  rcases h with rfl | h
  · rfl
  · obtain ⟨d, hd, hcloser⟩ := (Option.any_eq_true _ _).mp h
    have hne : added.isEmpty = false := by
      rw [String.isEmpty_eq_false_iff]
      rintro rfl
      cases hd
    rw [hne, String.toList_append, if_neg Bool.false_ne_true, String.toList_append,
      List.getLast?_append, List.getLast?_append, hd, Option.some_or, Option.some_or,
      Option.any_some, hcloser]

section

variable {s : Setting} {rest : List Char}

def reexported (s : Setting) (first : Nat) (entries : List ExportEntry) (source : String) :
    List String :=
  (entries.filterMap ExportEntry.namespaceName?).map
      (fun name => s.assignment name (s.resolutionOf source).1) ++
    if (entries.filterMap ExportEntry.pair?).isEmpty then []
    else [s.reexportBlock (s.resolutionOf source).1 first (entries.filterMap ExportEntry.pair?)]

theorem reexportEdits_eq {entries : List ExportEntry} (source : String)
    (hsome : closesForm (.reexportList entries source) = true) :
    exportEdits s first text rest (.reexportList entries source) =
      [⟨0, byteLength text, String.intercalate " " (reexported s first entries source)⟩] := by
  have hnot : ¬((entries.filterMap ExportEntry.pair?).isEmpty &&
      (entries.filterMap ExportEntry.namespaceName?).isEmpty) = true := by
    rw [closesForm, Bool.not_eq_true'] at hsome
    rw [hsome]
    exact Bool.false_ne_true
  simp only [exportEdits, Setting.convertReexports]
  rw [if_neg hnot]
  exact (resolutionOf_found s source _).1

theorem getLast?_reexported {entries : List ExportEntry} (source : String)
    (hsome : closesForm (.reexportList entries source) = true) :
    (String.intercalate " " (reexported s first entries source)).toList.getLast?.any isCloser =
      true := by
  refine getLast?_intercalate (fun hnil => ?_) fun text htext => ?_
  · obtain ⟨hnamespaces, hblock⟩ := List.append_eq_nil_iff.mp hnil
    have hpairs : (entries.filterMap ExportEntry.pair?).isEmpty = true := by
      by_contra hpairs
      rw [if_neg hpairs] at hblock
      exact List.cons_ne_nil _ _ hblock
    rw [closesForm, hpairs, List.map_eq_nil_iff.mp hnamespaces] at hsome
    cases hsome
  · rcases List.mem_append.mp htext with htext | htext
    · obtain ⟨name, -, rfl⟩ := List.mem_map.mp htext
      exact getLast?_assignment s _ _
    · split at htext
      · cases htext
      · rw [List.mem_singleton.mp htext]
        exact getLast?_reexportBlock s _ _ _

theorem exportEdits_closing (hopen : ¬Closed text) (hcloses : closesForm form = true) :
    (∃ new, new.toList.getLast?.any isCloser = true ∧ replacesItem form = true ∧
      exportEdits s first text rest form = [⟨0, byteLength text, new⟩]) ∨
    ∃ G new, new.toList.getLast?.any isCloser = true ∧
      exportEdits s first text rest form = G ++ [Edit.insert (byteLength text) new] := by
  have hbehind : ∀ (G : List Edit) (added : String),
      added = "" ∨ added.toList.getLast?.any isCloser = true →
      ∃ G' new, new.toList.getLast?.any isCloser = true ∧
        G ++ closing text added = G' ++ [Edit.insert (byteLength text) new] := by
    intro G added hadded
    exact ⟨G, _, getLast?_closing hadded, by rw [closing_open hopen]⟩
  cases form with
  | function name => exact .inr (hbehind [_] "" (.inl rfl))
  | classForm name => exact .inr (hbehind [_] "" (.inl rfl))
  | default name => exact .inr (hbehind [_] "" (.inl rfl))
  | localDeclaration name =>
    exact .inr (hbehind [_] _ (.inr (getLast?_assignment s name name)))
  | «variable» declarators =>
    have hnames : (declarators.flatMap fun d => topLevelBindings d.target) ≠ [] := by
      intro hnil
      simp [closesForm, hnil] at hcloses
    have hassignments : (String.intercalate " " ((declarators.flatMap fun d =>
        topLevelBindings d.target).map fun name => s.assignment name name)).toList.getLast?.any
          isCloser = true := by
      refine getLast?_intercalate (by simpa using hnames) fun text htext => ?_
      obtain ⟨name, -, rfl⟩ := List.mem_map.mp htext
      exact getLast?_assignment s name name
    obtain ⟨G, new, hnew, hedits⟩ := hbehind
      (.remove 0 (headLength text rest) :: declarators.filterMap (assigned s)) _ (.inr hassignments)
    refine .inr ⟨G, new, hnew, ?_⟩
    rw [← hedits]
    simp [exportEdits, hnames]
  | localList entries =>
    have hpairs : entries.filterMap ExportEntry.pair? ≠ [] := by
      intro hnil
      simp [closesForm, hnil] at hcloses
    refine .inl ⟨_, ?_, rfl, rfl⟩
    refine getLast?_intercalate (by simpa using hpairs) fun text htext => ?_
    obtain ⟨pair, -, rfl⟩ := List.mem_map.mp htext
    exact getLast?_assignment s _ _
  | wildcard source =>
    refine .inl ⟨_, ?_, rfl, rfl⟩
    rw [getLast?_joined (v := ");") _ rfl]
    rfl
  | reexportList entries source =>
    exact .inl ⟨_, getLast?_reexported source hcloses, rfl, reexportEdits_eq source hcloses⟩
  | typeOnly => cases hcloses

end

/-! ### Replacements -/

section

variable {rest : List Char}

theorem Piece.WellFormed.replacement_export (hp : p.WellFormed)
    (hform : exportForm? p.shape = some form) (hkeep : form ≠ .typeOnly)
    (hwhole : replacesItem form = true → p.metas = []) (config : Config) (first : Nat) : ∃ rest,
      KeywordsFirst p form rest ∧
      Fitting p.text (exportEdits (p.setting config) first p.text rest form ++
        metaEdits config p.metas) ∧
      p.replacement config first = (applyAll (exportEdits (p.setting config) first p.text rest form ++
        metaEdits config p.metas) p.text).mapError .edit := by
  obtain ⟨rest, hkey⟩ := hp.keywords form hform
  have hbehind : Behind 0 form := fun d hd =>
    ⟨Nat.zero_le _, (hkey.declarators d hd).2.nonempty, fun _ _ => Nat.zero_le _⟩
  obtain ⟨c, hc, hedits, -⟩ :=
    (p.stands config).convertExport first hkeep hkey.keywords hkey.more hbehind
  rw [byteLength_nil, rebase_zero, map_shift_zero] at hedits
  refine ⟨rest, hkey, (exportEdits_headed hp hkey hkeep hwhole).fitting hp config, ?_⟩
  rw [Piece.replacement, convertItem_export _ first p.item hform, hc]
  show (applyAll (c.edits ++ _) _).mapError _ = _
  rw [hedits]

theorem metaEdits_harmless (spans : List Span)
    (hident : ∃ d ∈ config.importMetaIdent.toList.getLast?, isBlank d = false ∧ isCloser d = false)
    (he : e ∈ metaEdits config spans) : Harmless text e := by
  intro q r _ _
  rw [(mem_metaEdits he).1]
  exact .inr hident

theorem KeywordsFirst.removal_harmless (h : KeywordsFirst p form rest) :
    Harmless p.text (.remove 0 (headLength p.text rest)) := by
  intro q r htext hq
  obtain ⟨head, hsplit, hlength⟩ := keywords_split h.keywords
  have hq' : byteLength q = byteLength (head ++ rest.takeWhile isBlank) := by
    rw [byteLength_append, hlength]
    exact hq
  have hparts : q ++ r = (head ++ rest.takeWhile isBlank) ++ rest.dropWhile isBlank := by
    rw [← htext, List.append_assoc, List.takeWhile_append_dropWhile, hsplit]
  obtain ⟨-, rfl⟩ := append_inj_of_byteLength hparts hq'
  left
  obtain ⟨d, hd, hvisible⟩ := List.any_eq_true.mp h.more
  rw [← List.takeWhile_append_dropWhile (p := isBlank) (l := rest), List.mem_append] at hd
  rcases hd with hblank | hmem
  · rw [List.mem_takeWhile_imp hblank] at hvisible
    cases hvisible
  · exact List.any_eq_true.mpr ⟨d, hmem, hvisible⟩

theorem assigned_harmless {s : Setting} {d : Declarator}
    (hvalue : ∀ value ∈ d.value, StartsToken text value.lo) (he : assigned s d = some e) :
    Harmless text e := by
  intro q r htext hq
  unfold assigned at he
  split at he
  · cases he
    unfold Setting.assignInside at hq ⊢
    split at hq
    · rename_i value hsome
      obtain ⟨q', c, r', htext', hq', hc⟩ := startsToken_iff.mp (hvalue value hsome)
      have hlength : byteLength q = byteLength q' := hq.trans hq'.symm
      obtain ⟨-, rfl⟩ := append_inj_of_byteLength (htext.symm.trans htext') hlength
      left
      rw [List.any_cons, hc]
      rfl
    · right
      exact ⟨'d', getLast?_joined _ rfl, by decide, by decide⟩
  · cases he

theorem mapError_ok {α β γ : Type} {x : Except α γ} {f : α → β} {a : γ}
    (h : x.mapError f = .ok a) : x = .ok a := by
  cases x with
  | error fault => cases h
  | ok b => exact congrArg Except.ok (Except.ok.inj h)

theorem Piece.replacement_none (hform : exportForm? p.shape = none)
    (hkeep : erased p.shape = false) (h : p.replacement config first = .ok t) :
    applyAll (metaEdits config p.metas) p.text = .ok t := by
  obtain ⟨c, hc, hedits, -⟩ := convertItem_none (p.setting config) first p.item hform hkeep
  rw [Piece.replacement, hc] at h
  have happly : applyAll (c.edits ++ metaEdits config p.metas) p.text = .ok t := mapError_ok h
  rwa [hedits, List.nil_append] at happly

theorem Piece.WellFormed.meta_edits (hp : p.WellFormed) (he : e ∈ metaEdits config p.metas) :
    e.start < e.stop ∧ e.stop ≤ byteLength p.text ∧ Boundary p.text e.stop := by
  obtain ⟨-, span, hspan, hlo, hhi⟩ := mem_metaEdits he
  obtain ⟨hlt, -, hcut⟩ := hp.metas span hspan
  rw [← hlo, ← hhi]
  exact ⟨hlt, hcut.le, hcut⟩

theorem closed_of_closing (hp : p.WellFormed)
    (hwhole : replacesItem form = true → p.metas = []) (hopen : ¬Closed p.text)
    (hfitting : Fitting p.text (exportEdits (p.setting config) first p.text rest form ++
      metaEdits config p.metas)) (hcloses : closesForm form = true)
    (h : applyAll (exportEdits (p.setting config) first p.text rest form ++
      metaEdits config p.metas) p.text = .ok t) : Closed t := by
  rcases exportEdits_closing hopen hcloses with ⟨new, hnew, hreplaces, hedits⟩ | ⟨G, new, hnew, hedits⟩
  · rw [hedits, hwhole hreplaces] at h
    obtain rfl : new.toList = t := Except.ok.inj ((applyAll_whole new).symm.trans h)
    exact closed_of_getLast hnew
  · rw [hedits] at h hfitting
    have hG : ∀ a ∈ G, a.start ≤ a.stop ∧ a.stop ≤ byteLength p.text := by
      intro a ha
      obtain ⟨hle, -, hcut⟩ :=
        hfitting.inside a (List.mem_append_left _ (List.mem_append_left _ ha))
      exact ⟨hle, hcut.le⟩
    have hM : ∀ b ∈ metaEdits config p.metas, b.start < b.stop ∧ b.stop ≤ byteLength p.text := by
      intro b hb
      obtain ⟨hlt, hle, -⟩ := hp.meta_edits hb
      exact ⟨hlt, hle⟩
    exact closed_of_insert hG hM (fun b hb => (mem_metaEdits hb).1) hnew h

theorem not_closed_of_variable {declarators : List Declarator} (hv : p.Visible)
    (hident : ∃ d ∈ config.importMetaIdent.toList.getLast?, isBlank d = false ∧ isCloser d = false)
    (hform : exportForm? p.shape = some (.variable declarators))
    (hkey : KeywordsFirst p (.variable declarators) rest) (hopen : ¬Closed p.text)
    (hfitting : Fitting p.text (exportEdits (p.setting config) first p.text rest
      (.variable declarators) ++ metaEdits config p.metas))
    (hnames : (declarators.flatMap fun d => topLevelBindings d.target) = [])
    (h : applyAll (exportEdits (p.setting config) first p.text rest (.variable declarators) ++
      metaEdits config p.metas) p.text = .ok t) : ¬Closed t := by
  refine not_closed_of_harmless (fun e he => ⟨(hfitting.inside e he).2.2, ?_⟩) hopen h
  rcases List.mem_append.mp he with he | he
  · have hedits : exportEdits (p.setting config) first p.text rest (.variable declarators) =
        .remove 0 (headLength p.text rest) ::
          declarators.filterMap (assigned (p.setting config)) := by
      simp [exportEdits, hnames]
    rw [hedits] at he
    rcases List.mem_cons.mp he with rfl | he
    · exact hkey.removal_harmless
    · obtain ⟨d, hd, hassigned⟩ := List.mem_filterMap.mp he
      exact assigned_harmless (hv.values _ hform d hd) hassigned
  · exact metaEdits_harmless _ hident he

/-- What stands for an item that closed no statement closes one exactly if it has an end of its
own. -/
theorem closed_replacement_iff (hp : p.WellFormed) (hv : p.Visible)
    (hident : ∃ d ∈ config.importMetaIdent.toList.getLast?, isBlank d = false ∧ isCloser d = false)
    (hkeep : vanishes p.shape = false) (hwhole : replacedWhole p.shape = true → p.metas = [])
    (hopen : ¬Closed p.text) (h : p.replacement config first = .ok t) :
    Closed t ↔ closes p.shape = true := by
  obtain ⟨herased, hsome⟩ := Bool.or_eq_false_iff.mp hkeep
  cases hform : exportForm? p.shape with
  | none =>
    have happly := Piece.replacement_none hform herased h
    have hnot := not_closed_of_harmless
      (fun e he => ⟨(hp.meta_edits he).2.2, metaEdits_harmless _ hident he⟩) hopen happly
    rw [closes, hform]
    exact iff_of_false hnot Bool.false_ne_true
  | some form =>
    have hform' : form ≠ .typeOnly := @erased_eq p.item form hform herased
    have hreplaced : replacedWhole p.shape = replacesItem form := by
      rw [replacedWhole, hform, Option.any_some]
    have hclose : closes p.shape = closesForm form := by rw [closes, hform, Option.any_some]
    rw [hreplaced] at hwhole hsome
    rw [hclose] at hsome ⊢
    obtain ⟨rest, hkey, hfitting, hreplacement⟩ :=
      hp.replacement_export hform hform' hwhole config first
    have happly := mapError_ok (hreplacement.symm.trans h)
    cases hcloses : closesForm form with
    | true => exact iff_of_true (closed_of_closing hp hwhole hopen hfitting hcloses happly) rfl
    | false =>
      -- the only form left that is neither closed nor taken out
      cases form with
      | «variable» declarators =>
        have hnames : (declarators.flatMap fun d => topLevelBindings d.target) = [] := by
          simpa [closesForm] using hcloses
        have hnot := not_closed_of_variable hv hident hform hkey hopen hfitting hnames happly
        exact iff_of_false hnot Bool.false_ne_true
      | localList entries =>
        rw [hcloses] at hsome
        cases hsome
      | reexportList entries source =>
        rw [hcloses] at hsome
        cases hsome
      | typeOnly => exact absurd rfl hform'
      | _ => cases hcloses

end

end ModuleHost.Wrap
