import ModuleHost.Proofs.Wrap.Removal

/-! The edits of a module in groups, one for each item. Sorting all edits puts these groups one
behind the other, although the metas are recorded last. -/

namespace ModuleHost.Wrap

open ModuleHost.Syntax ModuleHost.Text ModuleHost.Wrap.Edit

section

variable {m : Module} {s : Setting} {item : Item} {first : Nat}

def metasIn (m : Module) (item : Item) : List Span := m.metas.filter (·.within item.span)

def itemEdits (s : Setting) (first : Nat) (item : Item) : List Edit :=
  match s.convertItem first item with
  | .ok found => found.edits
  | .error _ => []

theorem source_cut (h : item.span.lo ≤ item.span.hi ∧ Boundary m.source item.span.lo ∧
    Boundary m.source item.span.hi) : ∃ pre post,
    m.source = pre ++ ((pieceOf m item).text ++ post) ∧ byteLength pre = item.span.lo ∧
      item.span.lo + byteLength (pieceOf m item).text = item.span.hi := by
  obtain ⟨hle, hlo, hhi⟩ := h
  obtain ⟨text, htext⟩ := hlo.slice hhi hle
  have hpiece : (pieceOf m item).text = text := by
    rw [pieceOf, htext]
    rfl
  rw [hpiece]
  exact slice?_eq_some.mp htext

theorem WellSpanned.source_eq (hm : WellSpanned m) (hitem : item ∈ m.items) : ∃ pre post,
    m.source = pre ++ ((pieceOf m item).text ++ post) ∧ byteLength pre = item.span.lo ∧
      item.span.lo + byteLength (pieceOf m item).text = item.span.hi :=
  source_cut (hm.cut item hitem)

theorem Piece.WellFormed.text_cons {p : Piece} (h : p.WellFormed) :
    ∃ c r, p.text = c :: r ∧ isBlank c = false := by
  obtain ⟨q, c, r, htext, hq, hc⟩ := startsToken_iff.mp h.token
  obtain rfl : q = [] := eq_nil_of_byteLength hq
  exact ⟨c, r, htext, hc⟩

theorem metaEdits_metasIn (hm : WellSpanned m) (hitem : item ∈ m.items) (config : Config) :
    metaEdits config (metasIn m item) =
      (metaEdits config (pieceOf m item).metas).map (shift item.span.lo) := by
  have hmetas : (pieceOf m item).metas = (metasIn m item).map (Span.rebase item.span.lo) := rfl
  rw [hmetas, metaEdits, metaEdits, List.map_map, List.map_map]
  apply List.map_congr_left
  intro span hspan
  have hlt := ((hm.pieces item hitem).metas _ (List.mem_map_of_mem hspan)).1
  have hwithin := (List.mem_filter.mp hspan).2
  simp only [Span.within, Bool.and_eq_true, decide_eq_true_eq] at hwithin
  simp only [Span.rebase] at hlt
  have hlo : item.span.lo + (span.lo - item.span.lo) = span.lo := by omega
  have hhi : item.span.lo + (span.hi - item.span.lo) = span.hi := by omega
  simp only [Function.comp_apply, Span.rebase, shift, hlo, hhi]

def Converts (s : Setting) (first : Nat) (item : Item) : Prop :=
  ∃ c, s.convertItem first item = .ok c ∧ c.temporaries = temporariesIn item.shape

structure Kept (s : Setting) (m : Module) (first : Nat) (item : Item) (E : List Edit) : Prop where
  converts : Converts s first item
  edits : itemEdits s first item = E.map (shift item.span.lo)
  fitting : Fitting (pieceOf m item).text (E ++ metaEdits s.config (pieceOf m item).metas)
  replacement : (pieceOf m item).replacement s.config first =
    (applyAll (E ++ metaEdits s.config (pieceOf m item).metas) (pieceOf m item).text).mapError .edit

structure Deleted (s : Setting) (m : Module) (first : Nat) (item : Item) : Prop where
  converts : Converts s first item
  edits : itemEdits s first item = [s.removeItem item.span]
  replacement : (pieceOf m item).replacement s.config first = .ok []

theorem WellSpanned.kept (hm : WellSpanned m) (hsource : s.source = m.source)
    (hitem : item ∈ m.items) (hkeep : erased item.shape = false)
    (hwhole : replacedWhole item.shape = true → metasIn m item = []) (first : Nat) :
    ∃ E, Kept s m first item E := by
  obtain ⟨pre, post, htext, hlo, hhi⟩ := hm.source_eq hitem
  have hstands : Stands s item.span pre (pieceOf m item).text post :=
    ⟨hsource.trans htext, hlo.symm, by rw [hlo, hhi]⟩
  have hshape : (pieceOf m item).shape = item.shape.rebase (byteLength pre) := by
    rw [hlo]
    rfl
  have hbehind : ∀ form, exportForm? item.shape = some form → Behind (byteLength pre) form := by
    intro form hform
    rw [hlo]
    exact hm.nested item hitem form hform
  have hmetas : replacedWhole item.shape = true → (pieceOf m item).metas = [] := fun hreplaced =>
    congrArg (List.map (Span.rebase item.span.lo)) (hwhole hreplaced)
  obtain ⟨a, b, ha, hb, hedits, htemporaries, hfitting⟩ := item_kept hstands first hshape rfl
    (hm.pieces item hitem) hbehind hkeep hmetas
  refine ⟨b.edits, ⟨a, ha, htemporaries⟩, ?_, hfitting, ?_⟩
  · rw [itemEdits, ha, ← hlo]
    exact hedits
  · rw [Piece.replacement, hb]
    rfl

theorem applyAll_whole {text : List Char} (s : String) :
    applyAll [⟨0, byteLength text, s⟩] text = .ok s.toList := by
  have hnone : slice? text 0 0 = some [] := slice?_eq_some.mpr ⟨[], text, rfl, rfl, rfl⟩
  have hrest : dropBytes? text (byteLength text) = some [] :=
    dropBytes?_eq_some.mpr ⟨text, (List.append_nil text).symm, rfl⟩
  have hcons := applyFrom_cons (e := ⟨0, byteLength text, s⟩) (B := []) (Nat.zero_le _)
    (Nat.zero_le _) (Nat.le_refl _) hnone
  rw [applyAll, List.mergeSort_singleton, hcons, applyFrom, hrest]
  show Except.ok (s.toList ++ []) = _
  rw [List.append_nil]

theorem applyAll_delete {text : List Char} :
    applyAll [.remove 0 (byteLength text)] text = .ok [] := applyAll_whole ""

theorem removeItem_piece (p : Piece) (config : Config) :
    (p.setting config).removeItem p.item.span = .remove 0 (byteLength p.text) := by
  have hsource : (p.setting config).source = p.text ++ [] := (List.append_nil _).symm
  rw [Setting.removeItem, Piece.item, lineBreakAt_append hsource]
  rfl

theorem item_deleted (s : Setting) (hdelete : erased item.shape = true)
    (hmetas : metasIn m item = []) (first : Nat) : Deleted s m first item := by
  obtain ⟨a, ha, hedits, htemporaries⟩ := item_erased s first item hdelete
  have hdelete' : erased (pieceOf m item).item.shape = true :=
    (erased_rebase item.span.lo item.shape).trans hdelete
  obtain ⟨b, hb, hedits', -⟩ :=
    item_erased ((pieceOf m item).setting s.config) first (pieceOf m item).item hdelete'
  refine ⟨⟨a, ha, htemporaries⟩, ?_, ?_⟩
  · rw [itemEdits, ha]
    exact hedits
  · have hnone : (pieceOf m item).metas = [] :=
      congrArg (List.map (Span.rebase item.span.lo)) hmetas
    rw [Piece.replacement, hb, hnone]
    show (applyAll (b.edits ++ []) _).mapError _ = _
    rw [hedits', removeItem_piece, List.append_nil, applyAll_delete]
    rfl

end

section

variable {m : Module} {s : Setting} {item : Item} {items : List Item} {first : Nat}

/-- An edit starts in an item or is an insertion at its end. -/
structure Within (item : Item) (e : Edit) : Prop where
  lo : item.span.lo ≤ e.start
  le : e.start ≤ e.stop
  hi : e.start < item.span.hi ∨ e.stop ≤ item.span.hi

theorem WellSpanned.lt (hm : WellSpanned m) (hitem : item ∈ m.items) :
    item.span.lo < item.span.hi := by
  obtain ⟨pre, post, -, -, hhi⟩ := hm.source_eq hitem
  obtain ⟨c, r, htext, -⟩ := (hm.pieces item hitem).text_cons
  have hpos : 0 < byteLength (pieceOf m item).text := byteLength_pos (by simp [htext])
  omega

theorem Kept.within {E : List Edit} (h : Kept s m first item E) (hm : WellSpanned m)
    (hitem : item ∈ m.items) : ∀ e ∈ itemEdits s first item, Within item e := by
  intro e he
  rw [h.edits] at he
  obtain ⟨e', he', rfl⟩ := List.mem_map.mp he
  obtain ⟨hle, -, hstop⟩ := h.fitting.inside e' (List.mem_append_left _ he')
  obtain ⟨pre, post, -, -, hhi⟩ := hm.source_eq hitem
  refine ⟨Nat.le_add_right _ _, Nat.add_le_add_left hle _, .inr ?_⟩
  rw [← hhi]
  exact Nat.add_le_add_left hstop.le _

theorem Deleted.within (h : Deleted s m first item) (hm : WellSpanned m) (hitem : item ∈ m.items) :
    ∀ e ∈ itemEdits s first item, Within item e := by
  intro e he
  rw [h.edits, List.mem_singleton] at he
  have hlt := hm.lt hitem
  rw [he]
  exact ⟨Nat.le_refl _, hlt.le.trans (Nat.le_add_right _ _), .inl hlt⟩

theorem WellSpanned.meta_within (hm : WellSpanned m) (hitem : item ∈ m.items) {span : Span}
    (hspan : span ∈ metasIn m item) :
    item.span.lo ≤ span.lo ∧ span.lo < span.hi ∧ span.hi ≤ item.span.hi := by
  have hlt := ((hm.pieces item hitem).metas _ (List.mem_map_of_mem hspan)).1
  have hwithin := (List.mem_filter.mp hspan).2
  simp only [Span.within, Bool.and_eq_true, decide_eq_true_eq] at hwithin
  simp only [Span.rebase] at hlt
  omega

def recorded (s : Setting) (first : Nat) : List Item → List Edit
  | [] => []
  | item :: more =>
    itemEdits s first item ++ recorded s (first + temporariesIn item.shape) more

def grouped (s : Setting) (m : Module) (first : Nat) : List Item → List Edit
  | [] => []
  | item :: more =>
    sorted (itemEdits s first item ++ metaEdits s.config (metasIn m item)) ++
      grouped s m (first + temporariesIn item.shape) more

def metasInAny (m : Module) (items : List Item) : List Span :=
  m.metas.filter fun span => items.any fun item => span.within item.span

/-- Each item is converted to edits that stand in it. -/
def Converting (s : Setting) (items : List Item) : Prop :=
  ∀ item ∈ items, ∀ first, Converts s first item ∧ ∀ e ∈ itemEdits s first item, Within item e

theorem convertItems_recorded (h : Converting s items) (done : Contribution) :
    ∃ c, s.convertItems done items = (c, none) ∧
      c.edits = done.edits ++ recorded s done.temporaries items := by
  induction items generalizing done with
  | nil => exact ⟨done, rfl, (List.append_nil _).symm⟩
  | cons item more ih =>
    obtain ⟨hitem, hmore⟩ := List.forall_mem_cons.mp h
    obtain ⟨next, hnext, htemporaries⟩ := (hitem done.temporaries).1
    obtain ⟨c, hc, hedits⟩ := ih hmore (done ++ next)
    have hfound : itemEdits s done.temporaries item = next.edits := by rw [itemEdits, hnext]
    refine ⟨c, ?_, ?_⟩
    · rw [Setting.convertItems, hnext]
      exact hc
    · rw [hedits, append_edits, append_temporaries, htemporaries, List.append_assoc, recorded,
        hfound]

theorem metasInAny_perm (hm : WellSpanned m) (hitem : item ∈ m.items)
    (hahead : ∀ next ∈ items, item.span.hi ≤ next.span.lo) :
    (metasInAny m (item :: items)).Perm (metasIn m item ++ metasInAny m items) := by
  have hfirst : (metasInAny m (item :: items)).filter (·.within item.span) = metasIn m item := by
    rw [metasInAny, List.filter_filter]
    apply List.filter_congr
    intro span _
    simp only [List.any_cons]
    cases span.within item.span <;> rfl
  have hrest :
      (metasInAny m (item :: items)).filter (!·.within item.span) = metasInAny m items := by
    rw [metasInAny, List.filter_filter]
    apply List.filter_congr
    intro span hspan
    simp only [List.any_cons]
    cases hin : span.within item.span with
    | false => rfl
    | true =>
      obtain ⟨-, hlt, hhi⟩ := hm.meta_within hitem (List.mem_filter.mpr ⟨hspan, hin⟩)
      -- a meta is not empty, so it cannot be in a later item as well
      have hout : items.any (fun next => span.within next.span) = false := by
        rw [List.any_eq_false]
        intro next hnext
        have hle := hahead next hnext
        simp only [Span.within, Bool.and_eq_true, decide_eq_true_eq, not_and, Nat.not_le]
        omega
      rw [hout]
      rfl
  rw [← hfirst, ← hrest]
  exact (List.filter_append_perm _ _).symm

theorem mem_metaEdits {config : Config} {spans : List Span} {e : Edit}
    (h : e ∈ metaEdits config spans) :
    e.text = config.importMetaIdent ∧ ∃ span ∈ spans, span.lo = e.start ∧ span.hi = e.stop := by
  obtain ⟨span, hspan, rfl⟩ := List.mem_map.mp h
  exact ⟨rfl, span, hspan, rfl, rfl⟩

theorem WellSpanned.metaEdits_within (hm : WellSpanned m) (hitem : item ∈ m.items)
    {config : Config} {e : Edit} (he : e ∈ metaEdits config (metasIn m item)) :
    Within item e ∧ e.start < e.stop ∧ e.stop ≤ item.span.hi := by
  obtain ⟨-, span, hspan, hlo, hhi⟩ := mem_metaEdits he
  obtain ⟨h1, h2, h3⟩ := hm.meta_within hitem hspan
  rw [hlo, hhi] at *
  exact ⟨⟨h1, h2.le, .inr h3⟩, h2, h3⟩

theorem recorded_within (hm : WellSpanned m) (hitems : ∀ item ∈ items, item ∈ m.items)
    (h : Converting s items) {e : Edit}
    (he : e ∈ recorded s first items ++ metaEdits s.config (metasInAny m items)) :
    ∃ item ∈ items, Within item e := by
  rcases List.mem_append.mp he with he | he
  · induction items generalizing first with
    | nil => cases he
    | cons item more ih =>
      obtain ⟨hitem, hmore⟩ := List.forall_mem_cons.mp h
      rcases List.mem_append.mp he with he | he
      · exact ⟨item, List.mem_cons_self, (hitem first).2 e he⟩
      · obtain ⟨next, hnext, hwithin⟩ :=
          ih (fun next hnext => hitems next (List.mem_cons_of_mem _ hnext)) hmore
            (List.mem_append_left _ he) he
        exact ⟨next, List.mem_cons_of_mem _ hnext, hwithin⟩
  · obtain ⟨htext, span, hspan, hlo, hhi⟩ := mem_metaEdits he
    obtain ⟨hmem, hany⟩ := List.mem_filter.mp hspan
    obtain ⟨item, hitem, hin⟩ := List.any_eq_true.mp hany
    have hmeta : e ∈ metaEdits s.config (metasIn m item) := by
      refine List.mem_map.mpr ⟨span, List.mem_filter.mpr ⟨hmem, hin⟩, ?_⟩
      rw [hlo, hhi, ← htext]
    exact ⟨item, hitem, (hm.metaEdits_within (hitems item hitem) hmeta).1⟩

/-- The edits of an item and its metas are sorted in front of all that starts where it ends, or behind
that. -/
theorem sorted_item {G H M M₁ M₂ : List Edit} {text : String} (hM : M.Perm (M₁ ++ M₂))
    (htext : ∀ e ∈ M, e.text = text) (hitem : ∀ e ∈ G, Within item e)
    (hmetas : ∀ e ∈ M₁, Within item e ∧ e.start < e.stop ∧ e.stop ≤ item.span.hi)
    (hlater : ∀ e ∈ H ++ M₂, item.span.hi ≤ e.start ∧ e.start ≤ e.stop) :
    sorted (G ++ H ++ M) = sorted (G ++ M₁) ++ sorted (H ++ M₂) := by
  refine sorted_groups hM htext (fun a ha b hb => ?_) fun b hb e he => ?_
  · have hwithin : Within item a :=
      (List.mem_append.mp ha).elim (hitem a) fun ha => (hmetas a ha).1
    have hb := hlater b hb
    have ha := hwithin.hi
    have hle := hwithin.le
    rw [before_iff]
    omega
  · have hb := hlater b (List.mem_append_left _ hb)
    obtain ⟨-, hlt, hhi⟩ := hmetas e he
    rw [before_iff]
    omega

theorem sorted_recorded (hm : WellSpanned m) (hitems : ∀ item ∈ items, item ∈ m.items)
    (hordered : items.Pairwise fun a b => a.span.hi ≤ b.span.lo) (h : Converting s items)
    (first : Nat) : sorted (recorded s first items ++ metaEdits s.config (metasInAny m items)) =
      grouped s m first items := by
  induction items generalizing first with
  | nil =>
    have hnone : metasInAny m [] = [] := List.filter_eq_nil_iff.mpr fun _ _ => Bool.false_ne_true
    rw [hnone]
    exact List.mergeSort_nil
  | cons item more ih =>
    obtain ⟨hitem, hmore⟩ := List.forall_mem_cons.mp h
    obtain ⟨hmem, hmems⟩ := List.forall_mem_cons.mp hitems
    obtain ⟨hahead, hrest⟩ := List.pairwise_cons.mp hordered
    have hperm := (metasInAny_perm hm hmem hahead).map fun span =>
      (⟨span.lo, span.hi, s.config.importMetaIdent⟩ : Edit)
    rw [List.map_append] at hperm
    -- all that belongs to later items starts where the first one ends, or behind it
    have hlater : ∀ b ∈ recorded s (first + temporariesIn item.shape) more ++
        metaEdits s.config (metasInAny m more), item.span.hi ≤ b.start ∧ b.start ≤ b.stop := by
      intro b hb
      obtain ⟨next, hnext, hwithin⟩ := recorded_within hm hmems hmore hb
      exact ⟨(hahead next hnext).trans hwithin.lo, hwithin.le⟩
    rw [recorded, grouped, ← ih hmems hrest hmore]
    exact sorted_item hperm (fun e he => (mem_metaEdits he).1) (hitem first).2
      (fun e he => hm.metaEdits_within hmem he) hlater

theorem grouped_behind (hm : WellSpanned m) (hitems : ∀ item ∈ items, item ∈ m.items)
    (hordered : items.Pairwise fun a b => a.span.hi ≤ b.span.lo) (h : Converting s items)
    (hn : ∀ item ∈ items, n ≤ item.span.lo) (first : Nat) :
    ∀ e ∈ grouped s m first items, n ≤ e.start := by
  intro e he
  rw [← sorted_recorded hm hitems hordered h, mem_sorted] at he
  obtain ⟨item, hitem, hwithin⟩ := recorded_within hm hitems h he
  exact (hn item hitem).trans hwithin.lo

end

end ModuleHost.Wrap
