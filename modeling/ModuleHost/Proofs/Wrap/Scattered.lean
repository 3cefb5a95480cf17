import ModuleHost.Proofs.Wrap.Placement
import ModuleHost.Proofs.Wrap.Stretches

/-! Modules in which `import.meta` is used between the items too, as it can be by decorators in front of
an export. What is done in front of a token and what is done behind it do not depend on each other, so
each item still becomes what it becomes by itself. -/

namespace ModuleHost.Wrap

open ModuleHost.Syntax ModuleHost.Text ModuleHost.Wrap.Edit

def itemMetas (m : Module) : Module := { m with metas := metasInAny m m.items }

/-- What a parser promises wherever `import.meta` is used. -/
structure Scattered (m : Module) : Prop where
  items : Spanned (itemMetas m)
  metas : ∀ span ∈ m.metas, span.lo < span.hi ∧ Boundary m.source span.lo ∧ Boundary m.source span.hi
  apart : m.metas.Pairwise fun a b => a.hi ≤ b.lo ∨ b.hi ≤ a.lo
  beside : ∀ span ∈ m.metas, ∀ item ∈ m.items,
    span.hi ≤ item.span.lo ∨ span.within item.span = true ∨ item.span.hi ≤ span.lo

def metasUpTo (m : Module) (n : Nat) : List Span := m.metas.filter (·.hi ≤ n)

def metasFrom (m : Module) (n : Nat) : List Span := m.metas.filter fun span => !decide (span.hi ≤ n)

def metasOutside (m : Module) (n : Nat) (window : Span) : List Span :=
  (metasFrom m n).filter (!Span.within · window)

/-- What is made of the source up to a place, if these are the items in front of it. -/
def madeUpTo (config : Config) (path : String) (bodyLength : Nat) (m : Module) (before : List Item)
    (n : Nat) : Except Edit.Fault (List Char) :=
  applyAll (recorded (settingOf config path bodyLength m) 0 before ++
    metaEdits config (metasUpTo m n)) (upTo m.source n)

/-- The text that an item has become in a body, and the text in front of it there. -/
structure Rewritten (config : Config) (path : String) (bodyLength : Nat) (m : Module)
    (body : List Char) (before : List Item) (item : Item) (ahead text : List Char) : Prop where
  front : madeUpTo config path bodyLength m before item.span.lo = .ok ahead
  becomes : (pieceOf m item).replacement config (temporariesBefore before) = .ok text
  stands : ahead ++ text <+: body

variable {config : Config} {path : String} {bodyLength first n k : Nat} {m : Module} {c : Converted}
  {item : Item} {items before after : List Item} {body : List Char} {span window : Span}
  {s : Setting} {e : Edit}

theorem lo_le_of_within (h : span.within window = true) : window.lo ≤ span.lo := by
  simp only [Span.within, Bool.and_eq_true, decide_eq_true_eq] at h
  exact h.1

theorem beside_place (hn : n ≤ window.lo) (hk : n ≤ k)
    (h : span.hi ≤ n ∨ span.within window = true ∨ k ≤ span.lo) : span.hi ≤ n ∨ n ≤ span.lo :=
  h.imp_right fun hbehind => hbehind.elim (hn.trans <| lo_le_of_within ·) hk.trans

theorem metasIn_itemMetas (hitem : item ∈ m.items) : metasIn (itemMetas m) item = metasIn m item := by
  show (metasInAny m m.items).filter (·.within item.span) = _
  rw [metasInAny, List.filter_filter]
  refine List.filter_congr fun span _ => ?_
  cases hin : span.within item.span with
  | false => rfl
  | true =>
    rw [Bool.true_and]
    exact List.any_eq_true.mpr ⟨item, hitem, hin⟩

theorem pieceOf_itemMetas (hitem : item ∈ m.items) : pieceOf (itemMetas m) item = pieceOf m item := by
  have hmetas : (pieceOf (itemMetas m) item).metas = (pieceOf m item).metas :=
    congrArg (List.map (Span.rebase item.span.lo)) (metasIn_itemMetas hitem)
  exact congrArg (Piece.mk _ _) hmetas

theorem metaEdits_perm (config : Config) (m : Module) (n : Nat) : (metaEdits config m.metas).Perm
    (metaEdits config (metasUpTo m n) ++ metaEdits config (metasFrom m n)) := by
  rw [metaEdits, metaEdits, metaEdits, ← List.map_append]
  exact (List.filter_append_perm _ m.metas).symm.map _

theorem Scattered.window_perm (hm : Scattered m) (hn : n ≤ window.lo) :
    (metasFrom m n).Perm (m.metas.filter (·.within window) ++ metasOutside m n window) := by
  have hwindow : (metasFrom m n).filter (·.within window) = m.metas.filter (·.within window) := by
    rw [metasFrom, List.filter_filter]
    refine List.filter_congr fun span hspan => ?_
    cases hwithin : span.within window with
    | false => rfl
    | true =>
      have hlo := lo_le_of_within hwithin
      have hlt := (hm.metas span hspan).1
      rw [Bool.true_and, Bool.not_eq_true', decide_eq_false_iff_not]
      omega
  rw [← hwindow]
  exact (List.filter_append_perm _ _).symm

theorem Scattered.metasOutside_edits (hm : Scattered m) (config : Config)
    (hmetas : ∀ span ∈ m.metas, span.hi ≤ n ∨ span.within window = true ∨ k ≤ span.lo) :
    ∀ e ∈ metaEdits config (metasOutside m n window), k ≤ e.start ∧ e.start ≤ e.stop := by
  intro e he
  obtain ⟨-, span, hspan, hlo, hhi⟩ := mem_metaEdits he
  obtain ⟨hfrom, hout⟩ := List.mem_filter.mp hspan
  obtain ⟨hspan, hnot⟩ := List.mem_filter.mp hfrom
  rw [Bool.not_eq_true'] at hout hnot
  have hbehind := (hmetas span hspan).resolve_left (of_decide_eq_false hnot)
  have hstart := hbehind.resolve_left (Bool.eq_false_iff.mp hout)
  exact ⟨hlo ▸ hstart, hlo ▸ hhi ▸ (hm.metas span hspan).1.le⟩

theorem Scattered.metasUpTo_edits (hm : Scattered m) (config : Config) :
    ∀ e ∈ metaEdits config (metasUpTo m n), e.start < e.stop ∧ e.stop ≤ n ∧
      Boundary m.source e.stop := by
  intro e he
  obtain ⟨-, span, hspan, hlo, hhi⟩ := mem_metaEdits he
  obtain ⟨hspan, hle⟩ := List.mem_filter.mp hspan
  obtain ⟨hlt, -, hcut⟩ := hm.metas span hspan
  exact ⟨hlo ▸ hhi ▸ hlt, hhi ▸ of_decide_eq_true hle, hhi ▸ hcut⟩

theorem Scattered.metasFrom_edits (hm : Scattered m) (config : Config)
    (hmetas : ∀ span ∈ m.metas, span.hi ≤ n ∨ n ≤ span.lo) :
    ∀ e ∈ metaEdits config (metasFrom m n), n ≤ e.start ∧ e.start ≤ e.stop := by
  intro e he
  obtain ⟨-, span, hspan, hlo, hhi⟩ := mem_metaEdits he
  obtain ⟨hspan, hnot⟩ := List.mem_filter.mp hspan
  have hlt := (hm.metas span hspan).1
  rw [Bool.not_eq_true', decide_eq_false_iff_not] at hnot
  exact ⟨hlo ▸ (hmetas span hspan).resolve_left hnot, hlo ▸ hhi ▸ hlt.le⟩

theorem sorted_metas {metas metas' : List Span} (h : metas.Perm metas') (X : List Edit)
    (config : Config) :
    sorted (X ++ metaEdits config metas) = sorted (X ++ metaEdits config metas') := by
  have hperm : (metaEdits config metas).Perm (metaEdits config metas') := h.map _
  rw [sorted_append, sorted_append, sorted_eq_of_perm hperm fun e he => (mem_metaEdits he).1]

theorem Scattered.converted (hm : Scattered m) (hbody : ∀ item ∈ m.items, item.span.hi ≤ bodyLength)
    (h : (convert config path bodyLength m).1 = .ok c) :
    Cut (itemMetas m) (settingOf config path bodyLength m) (bodyText m bodyLength) m.items ∧
      applyAll (recorded (settingOf config path bodyLength m) 0 m.items ++
        metaEdits config m.metas) (bodyText m bodyLength) = .ok c.body.toList := by
  have hinside : ∀ item ∈ m.items, item.span.hi ≤ min bodyLength (byteLength m.source) :=
    fun item hitem => Nat.le_min.mpr ⟨hbody item hitem, (hm.items.cut item hitem).2.2.le⟩
  have htogether : ∀ item ∈ m.items, Together (itemMetas m) item := by
    intro item hitem
    have htext := pieceOf_itemMetas hitem
    have hwords := hm.items.words item hitem
    rw [htext] at hwords
    unfold Together
    rw [htext]
    exact converted_together h hitem (hm.items.cut item hitem) hwords
  have hmetas : ∀ item ∈ m.items, erased item.shape = true ∨ replacedWhole item.shape = true →
      metasIn (itemMetas m) item = [] := by
    intro item hitem hgone
    rw [metasIn_itemMetas hitem]
    exact converted_metasIn h hitem (fun span hspan => (hm.metas span hspan).1) hgone
  have hcut := (hm.items.wellSpanned htogether).toCut (s := settingOf config path bodyLength m) rfl
    rfl hinside (fun item hitem herased => hmetas item hitem (.inl herased))
    fun item hitem hwhole => hmetas item hitem (.inr hwhole)
  obtain ⟨done, hdone, happly⟩ := convert_inv h
  obtain ⟨done', hdone', hedits⟩ := convertItems_recorded hcut.converting {}
  have hsame : done = done' := congrArg Prod.fst (hdone.symm.trans hdone')
  rw [hsame, hedits] at happly
  exact ⟨hcut, happly⟩

theorem recorded_append (s : Setting) (first : Nat) (items more : List Item) :
    recorded s first (items ++ more) =
      recorded s first items ++ recorded s (first + temporariesBefore items) more := by
  induction items generalizing first with
  | nil => rfl
  | cons item items ih =>
    rw [List.cons_append, recorded, recorded, ih, List.append_assoc, temporariesBefore,
      Nat.add_assoc]

theorem mem_recorded (h : e ∈ recorded s first items) :
    ∃ item ∈ items, ∃ k, e ∈ itemEdits s k item := by
  induction items generalizing first with
  | nil => cases h
  | cons item items ih =>
    rcases List.mem_append.mp h with h | h
    · exact ⟨item, List.mem_cons_self, first, h⟩
    · obtain ⟨next, hnext, hmore⟩ := ih h
      exact ⟨next, List.mem_cons_of_mem _ hnext, hmore⟩

namespace Cut

theorem behind (h : Cut m s body (before ++ items)) : Cut m s body items := by
  induction before with
  | nil => exact h
  | cons item before ih => exact ih h.tail

theorem starts_behind (h : Cut m s body items) (hn : ∀ item ∈ items, n ≤ item.span.lo) :
    ∀ e ∈ recorded s first items, n ≤ e.start ∧ e.start ≤ e.stop := by
  intro e he
  obtain ⟨item, hitem, k, he⟩ := mem_recorded he
  have hwithin := (h.converting item hitem k).2 e he
  exact ⟨(hn item hitem).trans hwithin.lo, hwithin.le⟩

theorem removed_ahead (h : Cut m s body items) (hitem : item ∈ items) (hn : item.span.hi ≤ n)
    (htoken : StartsToken s.source n) (hend : n ≤ byteLength body) :
    (s.removeItem item.span).stop ≤ n ∧ Boundary s.source (s.removeItem item.span).stop := by
  obtain ⟨p, t, hcut, hp⟩ := (h.spans.cut item (h.mem item hitem)).2.2
  obtain ⟨q, d, r, hsource, hq, hd⟩ := startsToken_iff.mp htoken
  obtain ⟨g, rfl, -⟩ := prefix_of_byteLength_le
    ((hcut.symm.trans h.source.symm).trans hsource) (by omega)
  have hgap : s.source = p ++ (g ++ d :: r) := by rw [hsource, List.append_assoc]
  obtain ⟨l, hl, hlength⟩ := lineBreakAt_gap hgap (hp ▸ h.inside item hitem)
    (by rw [hq, h.length]; exact hend) (.inr ⟨d, rfl, hd⟩)
  have hstop : byteLength (p ++ l) = (s.removeItem item.span).stop := by
    rw [byteLength_append, hlength, hp]
    rfl
  have hsplit : s.source = (p ++ l) ++ (withoutLineBreak g ++ d :: r) := by
    rw [hgap]
    nth_rewrite 1 [hl]
    simp
  refine ⟨?_, p ++ l, _, hsplit, hstop⟩
  rw [← hstop, ← hq, hl]
  simp

theorem kept_ahead {E : List Edit} (h : Cut m s body items) (hitem : item ∈ items)
    (hkept : Kept s m first item E) : ∀ e ∈ itemEdits s first item,
      e.stop ≤ item.span.hi ∧ Boundary s.source e.stop := by
  intro e he
  rw [hkept.edits] at he
  obtain ⟨e', he', rfl⟩ := List.mem_map.mp he
  obtain ⟨u, v, htext, hu⟩ := (hkept.fitting.inside e' (List.mem_append_left _ he')).2.2
  obtain ⟨pre, post, hsource, hpre, hhi⟩ := h.spans.source_eq (h.mem item hitem)
  have hle : e'.stop ≤ byteLength (pieceOf m item).text := by
    rw [htext, byteLength_append, hu]
    exact Nat.le_add_right _ _
  refine ⟨?_, pre ++ u, v ++ post, ?_, by rw [byteLength_append, hpre, hu]; rfl⟩
  · show item.span.lo + e'.stop ≤ item.span.hi
    omega
  · rw [h.source, hsource, htext]
    simp

theorem ends_ahead (h : Cut m s body items) (hitem : item ∈ items) (hn : item.span.hi ≤ n)
    (htoken : StartsToken s.source n) (hend : n ≤ byteLength body) (first : Nat) :
    ∀ e ∈ itemEdits s first item, e.start ≤ e.stop ∧ e.stop ≤ n ∧ Boundary s.source e.stop := by
  intro e he
  refine ⟨((h.converting item hitem first).2 e he).le, ?_⟩
  rcases h.fate item hitem first with ⟨-, -, hdeleted⟩ | ⟨-, E, hkept⟩
  · rw [hdeleted.edits, List.mem_singleton] at he
    exact he ▸ h.removed_ahead hitem hn htoken hend
  · obtain ⟨hstop, hcut⟩ := h.kept_ahead hitem hkept e he
    exact ⟨hstop.trans hn, hcut⟩

theorem recorded_ends (h : Cut m s body items) (hitems : before ⊆ items)
    (hahead : ∀ item ∈ before, item.span.hi ≤ n) (htoken : StartsToken s.source n)
    (hend : n ≤ byteLength body) (first : Nat) : ∀ e ∈ recorded s first before,
      e.start ≤ e.stop ∧ e.stop ≤ n ∧ Boundary s.source e.stop := by
  intro e he
  obtain ⟨item, hitem, k, he⟩ := mem_recorded he
  exact h.ends_ahead (hitems hitem) (hahead item hitem) htoken hend k e he

end Cut

theorem WellSpanned.token (hm : WellSpanned m) (hitem : item ∈ m.items) :
    StartsToken m.source item.span.lo := by
  obtain ⟨pre, post, hsource, hlength, -⟩ := hm.source_eq hitem
  obtain ⟨d, r, htext, hd⟩ := (hm.pieces item hitem).text_cons
  refine startsToken_iff.mpr ⟨pre, d, r ++ post, hsource.trans ?_, hlength, hd⟩
  rw [htext]
  rfl

/-- Where a token starts, a conversion can be cut in two. -/
theorem Scattered.cut_at (hm : Scattered m) (hbody : ∀ item ∈ m.items, item.span.hi ≤ bodyLength)
    (h : (convert config path bodyLength m).1 = .ok c) (hitems : m.items = before ++ item :: after)
    (hahead : ∀ earlier ∈ before, earlier.span.hi ≤ n) (hn : n ≤ item.span.lo)
    (htoken : StartsToken m.source n) (hmetas : ∀ span ∈ m.metas, span.hi ≤ n ∨ n ≤ span.lo) :
    ∃ ahead rest, c.body.toList = ahead ++ rest ∧
      madeUpTo config path bodyLength m before n = .ok ahead ∧
      applyFrom (bodyText m bodyLength) n (sorted
        (recorded (settingOf config path bodyLength m) (temporariesBefore before) (item :: after) ++
          metaEdits config (metasFrom m n))) = .ok rest := by
  obtain ⟨hcut, happly⟩ := hm.converted hbody h
  obtain ⟨post, hsource⟩ := hcut.start
  have hmem : item ∈ m.items := hitems ▸ List.mem_append_right _ List.mem_cons_self
  have hend : n ≤ byteLength (bodyText m bodyLength) :=
    (hn.trans (hcut.spans.lt hmem).le).trans (hcut.hi_le hmem)
  have hcuts : ∀ {k}, Boundary m.source k → k ≤ n → Boundary (bodyText m bodyLength) k :=
    fun hk hle => (hsource ▸ hk).of_append (hle.trans hend)
  -- all that is recorded lies on one side of `n`
  have hfront : ∀ e ∈ recorded (settingOf config path bodyLength m) 0 before ++
      metaEdits config (metasUpTo m n),
      e.start ≤ e.stop ∧ e.stop ≤ n ∧ Boundary (bodyText m bodyLength) e.stop := by
    have hbefore : before ⊆ m.items := hitems ▸ List.subset_append_left _ _
    intro e he
    rcases List.mem_append.mp he with he | he
    · obtain ⟨hle, hstop, hcutStop⟩ := hcut.recorded_ends hbefore hahead htoken hend 0 e he
      exact ⟨hle, hstop, hcuts hcutStop hstop⟩
    · obtain ⟨hlt, hstop, hcutStop⟩ := hm.metasUpTo_edits config e he
      exact ⟨hlt.le, hstop, hcuts hcutStop hstop⟩
  have hlater : ∀ next ∈ item :: after, n ≤ next.span.lo := by
    obtain ⟨-, hordered, -⟩ := List.pairwise_append.mp (hitems ▸ hcut.ordered)
    refine List.forall_mem_cons.mpr ⟨hn, fun next hnext => ?_⟩
    exact (hn.trans (hcut.spans.lt hmem).le).trans ((List.pairwise_cons.mp hordered).1 next hnext)
  have hbehind : ∀ e ∈ recorded (settingOf config path bodyLength m) (temporariesBefore before)
      (item :: after) ++ metaEdits config (metasFrom m n), n ≤ e.start ∧ e.start ≤ e.stop :=
    fun e he => (List.mem_append.mp he).elim ((hitems ▸ hcut).behind.starts_behind hlater e)
      (hm.metasFrom_edits config hmetas e)
  have hsorted := sorted_at (metaEdits_perm config m n) (fun e he => (mem_metaEdits he).1)
    (fun e he => ⟨(hfront e he).1, (hfront e he).2.1⟩)
    (fun e he => (hm.metasUpTo_edits config e he).1) hbehind
  rw [hitems, recorded_append, Nat.zero_add] at happly
  have hfrom : applyFrom (bodyText m bodyLength) 0 (sorted _) = .ok c.body.toList := happly
  rw [hsorted] at hfrom
  have hnCut := hcuts htoken.boundary (Nat.le_refl n)
  obtain ⟨ahead, rest, hbodyText, hfirst, hrest⟩ := applyFrom_cut hfrom hnCut boundary_zero
    (Nat.zero_le n) (fun e he => (hfront e (mem_sorted.mp he)).2)
    fun e he => (hbehind e (mem_sorted.mp (List.mem_of_mem_head? he))).1
  have hupTo : upTo m.source n = upTo (bodyText m bodyLength) n := by
    rw [← upTo_append hnCut post]
    exact congrArg (upTo · n) hsource
  exact ⟨ahead, rest, hbodyText, by rw [madeUpTo, hupTo]; exact hfirst, hrest⟩

theorem Scattered.rewritten (hm : Scattered m) (hbody : ∀ item ∈ m.items, item.span.hi ≤ bodyLength)
    (h : (convert config path bodyLength m).1 = .ok c) (hitems : m.items = before ++ item :: after) :
    ∃ ahead text, Rewritten config path bodyLength m c.body.toList before item ahead text := by
  obtain ⟨hcut, -⟩ := hm.converted hbody h
  have hmem : item ∈ m.items := hitems ▸ List.mem_append_right _ List.mem_cons_self
  have hlt := hcut.spans.lt hmem
  obtain ⟨-, hordered, hearlier⟩ := List.pairwise_append.mp (hitems ▸ hcut.ordered)
  obtain ⟨hlater, -⟩ := List.pairwise_cons.mp hordered
  have hsuffix : Cut (itemMetas m) _ _ (item :: after) := (hitems ▸ hcut).behind
  have hbeside := fun span hspan => hm.beside span hspan item hmem
  obtain ⟨ahead, rest, hbodyText, hfront, hrest⟩ := hm.cut_at hbody h hitems
    (fun earlier hmem' => hearlier earlier hmem' item List.mem_cons_self) (Nat.le_refl _)
    (hcut.spans.token hmem) fun span hspan =>
      beside_place (Nat.le_refl _) hlt.le (hbeside span hspan)
  have hperm : (metasFrom m item.span.lo).Perm
      (metasIn m item ++ metasOutside m item.span.lo item.span) := hm.window_perm (Nat.le_refl _)
  have hmetas := hperm.map fun span => (⟨span.lo, span.hi, config.importMetaIdent⟩ : Edit)
  rw [List.map_append] at hmetas
  -- what does not belong to the item comes from a later one, or is a meta behind it
  have hbehind : ∀ e ∈ recorded (settingOf config path bodyLength m)
      (temporariesBefore before + temporariesIn item.shape) after ++
        metaEdits config (metasOutside m item.span.lo item.span),
      item.span.hi ≤ e.start ∧ e.start ≤ e.stop := fun e he =>
    (List.mem_append.mp he).elim (hsuffix.tail.starts_behind hlater e)
      (hm.metasOutside_edits config hbeside e)
  have hwithin : ∀ e ∈ metaEdits config (metasIn m item),
      Within item e ∧ e.start < e.stop ∧ e.stop ≤ item.span.hi := fun e he =>
    hcut.spans.metaEdits_within hmem (metasIn_itemMetas hmem ▸ he)
  have hsorted := sorted_item hmetas (fun e he => (mem_metaEdits he).1)
    (hcut.converting item hmem (temporariesBefore before)).2 hwithin hbehind
  obtain ⟨p, v, hsplit, hp, hend⟩ := hsuffix.split (p := []) rfl (Nat.zero_le _)
  obtain ⟨text, htext, happly⟩ := hsuffix.apply_item hsplit hp hend
    (fun e he => (hbehind e (mem_sorted.mp he)).1) (temporariesBefore before)
  rw [metasIn_itemMetas hmem] at happly
  rw [pieceOf_itemMetas hmem] at htext
  obtain ⟨t, -, rfl⟩ := map_ok (happly.symm.trans (hsorted ▸ hrest))
  exact ⟨ahead, text, hfront, htext, t, by rw [hbodyText, List.append_assoc]⟩

end ModuleHost.Wrap
