import ModuleHost.Proofs.Wrap.Groups

/-! The conversion of a module is local to its items: what it makes of a module is the text of the
module with each item given way to its replacement. -/

namespace ModuleHost.Wrap

open ModuleHost.Syntax ModuleHost.Text ModuleHost.Wrap.Edit

variable {config : Config} {path : String} {p g t u body : List Char}

/-! ### Applying the edits -/

section

variable {m : Module} {s : Setting} {item : Item} {items : List Item} {first : Nat}

theorem sorted_shift (n : Nat) (E : List Edit) :
    sorted (E.map (shift n)) = (sorted E).map (shift n) := by
  refine (List.map_mergeSort fun a _ b _ => ?_).symm
  rw [Bool.eq_iff_iff]
  show Before a b ↔ Before (shift n a) (shift n b)
  rw [before_iff, before_iff, shift_start, shift_start, shift_stop, shift_stop]
  omega

theorem between_eq {lo hi : Nat} (h : slice? m.source lo hi = some g) (behindErased : Bool) :
    between m lo hi behindErased = if behindErased then withoutLineBreak g else g := by
  rw [between, h]
  rfl

/-- Where the text behind `n` bytes begins that no deleted item has taken along. -/
def resumeAt (s : Setting) (behindErased : Bool) (n : Nat) : Nat :=
  if behindErased then n + s.lineBreakAt n else n

theorem resumeAt_gap (hs : s.source = p ++ (g ++ t)) (hp : byteLength p ≤ s.bodyLength)
    (hroom : byteLength (p ++ g) ≤ bodyEnd s.source s.bodyLength)
    (hnext : bodyEnd s.source s.bodyLength = byteLength (p ++ g) ∨
      ∃ c ∈ t.head?, isBlank c = false)
    (behindErased : Bool) : ∃ l, g = l ++ (if behindErased then withoutLineBreak g else g) ∧
      byteLength (p ++ l) = resumeAt s behindErased (byteLength p) := by
  cases behindErased with
  | false => exact ⟨[], rfl, by rw [List.append_nil]; rfl⟩
  | true =>
    obtain ⟨l, hl, hlength⟩ := lineBreakAt_gap hs hp hroom hnext
    exact ⟨l, hl, by rw [byteLength_append, hlength]; rfl⟩

/-- Items of a module that are converted, and the text of its body. -/
structure Cut (m : Module) (s : Setting) (body : List Char) (items : List Item) : Prop where
  spans : WellSpanned m
  source : s.source = m.source
  start : ∃ post, m.source = body ++ post
  length : bodyEnd s.source s.bodyLength = byteLength body
  mem : ∀ item ∈ items, item ∈ m.items
  ordered : items.Pairwise fun a b => a.span.hi ≤ b.span.lo
  inside : ∀ item ∈ items, item.span.hi ≤ s.bodyLength
  fate : ∀ item ∈ items, ∀ first, (erased item.shape = true ∧ metasIn m item = [] ∧
    Deleted s m first item) ∨ (erased item.shape = false ∧ ∃ E, Kept s m first item E)

namespace Cut

theorem tail (h : Cut m s body (item :: items)) : Cut m s body items where
  spans := h.spans
  source := h.source
  start := h.start
  length := h.length
  mem := (List.forall_mem_cons.mp h.mem).2
  ordered := h.ordered.tail
  inside := (List.forall_mem_cons.mp h.inside).2
  fate := (List.forall_mem_cons.mp h.fate).2

theorem converting (h : Cut m s body items) : Converting s items := by
  intro item hitem first
  rcases h.fate item hitem first with ⟨-, -, hdeleted⟩ | ⟨-, E, hkept⟩
  · exact ⟨hdeleted.converts, hdeleted.within h.spans (h.mem item hitem)⟩
  · exact ⟨hkept.converts, hkept.within h.spans (h.mem item hitem)⟩

theorem hi_le (h : Cut m s body items) (hitem : item ∈ items) :
    item.span.hi ≤ byteLength body := by
  have hcut := (h.spans.cut item (h.mem item hitem)).2.2
  have hle := h.inside item hitem
  rw [← h.length, bodyEnd, h.source]
  split
  · exact hle
  · exact hcut.le

theorem split (h : Cut m s body (item :: items)) (hbody : body = p ++ u)
    (hlo : byteLength p ≤ item.span.lo) : ∃ g v, u = g ++ ((pieceOf m item).text ++ v) ∧
      byteLength (p ++ g) = item.span.lo ∧
      byteLength (p ++ g ++ (pieceOf m item).text) = item.span.hi := by
  have hitem : item ∈ item :: items := List.mem_cons_self
  obtain ⟨pre, rest, htext, hpre, hhi⟩ := h.spans.source_eq (h.mem item hitem)
  obtain ⟨post, hpost⟩ := h.start
  have hend : byteLength (pre ++ (pieceOf m item).text) ≤ byteLength body := by
    rw [byteLength_append, hpre, hhi]
    exact h.hi_le hitem
  rw [← List.append_assoc] at htext
  obtain ⟨v, hv, -⟩ := prefix_of_byteLength_le (htext.symm.trans hpost) hend
  rw [hbody, List.append_assoc] at hv
  obtain ⟨g, rfl, hu⟩ := prefix_of_byteLength_le hv (by omega)
  exact ⟨g, v, hu, hpre, by rw [byteLength_append, hpre, hhi]⟩

theorem removal_le (h : Cut m s body (item :: items)) :
    item.span.hi + s.lineBreakAt item.span.hi ≤ byteLength body := by
  have hitem : item ∈ item :: items := List.mem_cons_self
  obtain ⟨p, t, hsource, hp⟩ := (h.spans.cut item (h.mem item hitem)).2.2
  have hle := h.inside item hitem
  have hin := h.hi_le hitem
  rw [← h.source] at hsource
  rw [← hp] at hle hin ⊢
  rw [lineBreakAt_append hsource, lineBreakLength_bodyEnd hle, ← hsource, h.length]
  have hlength : lineBreakLength (byteLength body - byteLength p) t ≤ _ := lineBreakLength_le
  omega

theorem apply_item (h : Cut m s body (item :: items)) {v : List Char}
    (hbody : body = p ++ ((pieceOf m item).text ++ v)) (hp : byteLength p = item.span.lo)
    (hend : byteLength (p ++ (pieceOf m item).text) = item.span.hi) {B : List Edit}
    (hB : ∀ e ∈ B, item.span.hi ≤ e.start) (first : Nat) : ∃ done,
      (pieceOf m item).replacement s.config first = .ok done ∧
      applyFrom body item.span.lo
          (sorted (itemEdits s first item ++ metaEdits s.config (metasIn m item)) ++ B) =
        (applyFrom body (resumeAt s (erased item.shape) item.span.hi) B).map (done ++ ·) := by
  rcases h.fate item List.mem_cons_self first with ⟨herased, hmetas, hdeleted⟩ | ⟨hkeep, E, hkept⟩
  · refine ⟨[], hdeleted.replacement, ?_⟩
    have hsort : sorted (itemEdits s first item ++ metaEdits s.config (metasIn m item)) =
        [s.removeItem item.span] := by
      rw [hdeleted.edits, hmetas]
      exact List.mergeSort_singleton _
    have hnone : slice? body item.span.lo item.span.lo = some [] :=
      slice?_eq_some.mpr ⟨p, _, hbody, hp, rfl⟩
    have hle : item.span.lo ≤ item.span.hi + s.lineBreakAt item.span.hi := by
      rw [← hp, ← hend, byteLength_append]
      omega
    have hcons := applyFrom_cons (e := s.removeItem item.span) (B := B) (Nat.le_refl item.span.lo)
      hle h.removal_le hnone
    rw [hsort, herased]
    exact hcons
  · obtain ⟨done, hdone⟩ := hkept.fitting.applyAll_ok
    refine ⟨done, by rw [hkept.replacement, hdone]; rfl, ?_⟩
    have hmeta := metaEdits_metasIn h.spans (h.mem item List.mem_cons_self) s.config
    -- by itself the item is edited in the same way, only from its own beginning on
    have hsort : sorted (itemEdits s first item ++ metaEdits s.config (metasIn m item)) =
        (sorted (E ++ metaEdits s.config (pieceOf m item).metas)).map (shift (byteLength p)) := by
      rw [hkept.edits, hmeta, ← List.map_append, sorted_shift, hp]
    have hinside := applyFrom_inside (p := p) (r := v) (B := B) boundary_zero
      (fun e he => (hkept.fitting.inside e (mem_sorted.mp he)).2.2) hdone fun e he => by
        rw [hend]
        exact hB e (List.mem_of_mem_head? he)
    rw [Nat.add_zero, hend, hp] at hinside
    rw [hsort, hkeep, hbody, hp]
    exact hinside

theorem apply_gap (h : Cut m s body (item :: items)) {v : List Char}
    (hbody : body = p ++ (g ++ ((pieceOf m item).text ++ v))) (hp : byteLength p ≤ s.bodyLength)
    (hstart : byteLength (p ++ g) = item.span.lo) {B : List Edit}
    (hB : ∀ e ∈ B, item.span.lo ≤ e.start) (behindErased : Bool) :
    applyFrom body (resumeAt s behindErased (byteLength p)) B =
      (applyFrom body item.span.lo B).map
        (between m (byteLength p) item.span.lo behindErased ++ ·) := by
  obtain ⟨post, hpost⟩ := h.start
  have hitem : item ∈ item :: items := List.mem_cons_self
  -- a line break cannot run on into the item, which begins with a token
  have hnext : ∃ c ∈ ((pieceOf m item).text ++ v ++ post).head?, isBlank c = false := by
    obtain ⟨c, r, htext, hc⟩ := (h.spans.pieces item (h.mem item hitem)).text_cons
    exact ⟨c, by rw [htext]; rfl, hc⟩
  have hsource : s.source = p ++ (g ++ ((pieceOf m item).text ++ v ++ post)) := by
    rw [h.source, hpost, hbody]
    simp
  have hroom : byteLength (p ++ g) ≤ bodyEnd s.source s.bodyLength := by
    rw [h.length, hstart]
    exact (h.spans.lt (h.mem item hitem)).le.trans (h.hi_le hitem)
  obtain ⟨l, hl, hresume⟩ := resumeAt_gap hsource hp hroom (.inr hnext) behindErased
  have hslice : slice? m.source (byteLength p) item.span.lo = some g := by
    rw [← h.source, hsource, ← hstart, byteLength_append]
    exact slice?_append
  rw [← between_eq hslice] at hl
  have hbody' : body = p ++ l ++ (between m (byteLength p) item.span.lo behindErased ++
      ((pieceOf m item).text ++ v)) := by
    rw [hbody]
    nth_rewrite 1 [hl]
    simp
  have hlength : byteLength (p ++ l ++ between m (byteLength p) item.span.lo behindErased) =
      item.span.lo := by
    rw [List.append_assoc, ← hl, hstart]
  have hskip := applyFrom_skip (p := p ++ l) (r := (pieceOf m item).text ++ v) (B := B)
    (t := between m (byteLength p) item.span.lo behindErased) fun e he => by
      rw [hlength]
      exact hB e (List.mem_of_mem_head? he)
  rwa [← hbody', hlength, hresume] at hskip

theorem apply_end (h : Cut m s body items) (hbody : body = p ++ u)
    (hp : byteLength p ≤ s.bodyLength) (behindErased : Bool) :
    applyFrom body (resumeAt s behindErased (byteLength p)) [] =
      .ok (between m (byteLength p) (byteLength body) behindErased) := by
  obtain ⟨post, hpost⟩ := h.start
  have hsource : s.source = p ++ (u ++ post) := by rw [h.source, hpost, hbody, List.append_assoc]
  have hend : bodyEnd s.source s.bodyLength = byteLength (p ++ u) := by rw [h.length, hbody]
  obtain ⟨l, hl, hresume⟩ := resumeAt_gap hsource hp hend.ge (.inl hend) behindErased
  have hslice : slice? m.source (byteLength p) (byteLength body) = some u := by
    rw [← h.source, hsource, hbody, byteLength_append]
    exact slice?_append
  rw [← between_eq hslice] at hl
  have hdrop : dropBytes? body (resumeAt s behindErased (byteLength p)) =
      some (between m (byteLength p) (byteLength body) behindErased) :=
    dropBytes?_eq_some.mpr ⟨p ++ l, by rw [List.append_assoc, ← hl, hbody], hresume⟩
  rw [applyFrom, hdrop]
  rfl

/-- From the end of an item on, applying the edits weaves in the replacements. -/
theorem woven_ok (h : Cut m s body items) (hbody : body = p ++ u) (hp : byteLength p ≤ s.bodyLength)
    (hlo : ∀ item ∈ items, byteLength p ≤ item.span.lo) (first : Nat) (behindErased : Bool) :
    ∃ t, woven s.config m (byteLength body) first (byteLength p) behindErased items = .ok t ∧
      applyFrom body (resumeAt s behindErased (byteLength p)) (grouped s m first items) =
        .ok t := by
  induction items generalizing p u first behindErased with
  | nil => exact ⟨_, rfl, h.apply_end hbody hp behindErased⟩
  | cons item more ih =>
    obtain ⟨hfirst, -⟩ := List.forall_mem_cons.mp hlo
    obtain ⟨hahead, -⟩ := List.pairwise_cons.mp h.ordered
    obtain ⟨g, v, rfl, hstart, hend⟩ := h.split hbody hfirst
    have hbody' : body = p ++ g ++ ((pieceOf m item).text ++ v) := by
      rw [hbody, List.append_assoc]
    have hbody'' : body = p ++ g ++ (pieceOf m item).text ++ v := by
      rw [hbody', List.append_assoc (p ++ g)]
    obtain ⟨hmem, hmems⟩ := List.forall_mem_cons.mp h.mem
    -- the induction goes on from the end of this item
    have hlater : ∀ next ∈ item :: more, item.span.lo ≤ next.span.lo := by
      refine List.forall_mem_cons.mpr ⟨Nat.le_refl _, fun next hnext => ?_⟩
      exact (h.spans.lt hmem).le.trans (hahead next hnext)
    have hgap := h.apply_gap hbody hp hstart
      (grouped_behind h.spans h.mem h.ordered h.converting hlater first) behindErased
    obtain ⟨done, hdone, happly⟩ := h.apply_item hbody' hstart hend
      (grouped_behind h.spans hmems h.tail.ordered h.tail.converting hahead _) first
    obtain ⟨rest, hwoven, hrest⟩ := ih h.tail hbody''
      (hend ▸ h.inside item List.mem_cons_self) (by rw [hend]; exact hahead)
      (first + temporariesIn item.shape) (erased item.shape)
    rw [hend] at hwoven hrest
    refine ⟨between m (byteLength p) item.span.lo behindErased ++ done ++ rest, ?_, ?_⟩
    · rw [woven, hdone]
      simp only [bind, Except.bind, hwoven]
      rfl
    · rw [hgap, grouped, happly, hrest]
      simp [Except.map]

end Cut

end

/-! ### Statements -/

section

variable {p : Piece} {item : Item} {spans : List Span} {text : List Char} {c : Nat}

def byPlace (spans : List Span) : List Span := spans.mergeSort fun a b => a.lo ≤ b.lo

theorem applyFrom_named (config : Config)
    (hin : ∀ span ∈ spans, span.lo ≤ span.hi ∧ Boundary text span.lo ∧ Boundary text span.hi)
    (hchain : spans.Pairwise fun a b => a.hi ≤ b.lo) (hc : Boundary text c)
    (hstart : ∀ span ∈ spans, c ≤ span.lo) : applyFrom text c (metaEdits config spans) =
      .ok (named config.importMetaIdent.toList text c spans) := by
  induction spans generalizing c with
  | nil => rfl
  | cons span more ih =>
    obtain ⟨⟨hle, hlo, hhi⟩, hmore⟩ := List.forall_mem_cons.mp hin
    obtain ⟨hfirst, hrest⟩ := List.pairwise_cons.mp hchain
    have hcursor : c ≤ span.lo := hstart span List.mem_cons_self
    obtain ⟨kept, hkept⟩ := hc.slice hlo hcursor
    have hnext := ih hmore hrest hhi hfirst
    have hcons := applyFrom_cons (e := ⟨span.lo, span.hi, config.importMetaIdent⟩)
      (B := metaEdits config more) hcursor hle hhi.le hkept
    rw [named, hkept]
    rw [hnext] at hcons
    exact hcons

theorem mem_byPlace {span : Span} : span ∈ byPlace spans ↔ span ∈ spans :=
  (List.mergeSort_perm spans fun a b => decide (a.lo ≤ b.lo)).mem_iff

theorem byPlace_apart (hlt : ∀ span ∈ spans, span.lo < span.hi)
    (hapart : spans.Pairwise fun a b => a.hi ≤ b.lo ∨ b.hi ≤ a.lo) :
    (byPlace spans).Pairwise fun a b => a.hi ≤ b.lo := by
  have hperm := List.mergeSort_perm spans fun a b => decide (a.lo ≤ b.lo)
  have hsorted : (byPlace spans).Pairwise fun a b => decide (a.lo ≤ b.lo) = true :=
    List.pairwise_mergeSort (by simpa using fun _ _ _ => Nat.le_trans)
      (by simpa using fun a b : Span => Nat.le_total a.lo b.lo) spans
  have hpairs : (byPlace spans).Pairwise fun a b => a.hi ≤ b.lo ∨ b.hi ≤ a.lo :=
    hperm.symm.pairwise hapart fun hab => hab.symm
  refine (hsorted.and hpairs).imp_of_mem fun {a b} ha hb hab => ?_
  have hle := of_decide_eq_true hab.1
  have hpos := hlt b (mem_byPlace.mp hb)
  omega

theorem byPlace_chain (hp : p.WellFormed) :
    (byPlace p.metas).Pairwise fun a b => a.hi ≤ b.lo :=
  byPlace_apart (fun span hspan => (hp.metas span hspan).1) hp.apart

theorem sorted_metaEdits (hp : p.WellFormed) (config : Config) :
    sorted (metaEdits config p.metas) = metaEdits config (byPlace p.metas) := by
  have hperm := List.mergeSort_perm p.metas fun a b => decide (a.lo ≤ b.lo)
  have hedits : (metaEdits config p.metas).Perm (metaEdits config (byPlace p.metas)) :=
    hperm.symm.map _
  have hbefore : (metaEdits config (byPlace p.metas)).Pairwise Before := by
    refine List.pairwise_map.mpr ((byPlace_chain hp).imp_of_mem fun {a b} ha _ hab => ?_)
    have hlt := (hp.metas a (hperm.mem_iff.mp ha)).1
    rw [before_iff]
    exact .inl (hlt.trans_le hab)
  rw [sorted_eq_of_perm hedits fun e he => (mem_metaEdits he).1]
  exact List.mergeSort_of_pairwise hbefore

theorem replacement_statement (hp : p.WellFormed) (hnone : exportForm? p.shape = none)
    (hkeep : erased p.shape = false) (config : Config) (first : Nat) :
    p.replacement config first =
      .ok (named config.importMetaIdent.toList p.text 0 (byPlace p.metas)) := by
  obtain ⟨b, hb, hedits, -⟩ := convertItem_none (p.setting config) first p.item hnone hkeep
  have hperm := List.mergeSort_perm p.metas fun a b => decide (a.lo ≤ b.lo)
  have hnamed : applyFrom p.text 0 (metaEdits config (byPlace p.metas)) =
      .ok (named config.importMetaIdent.toList p.text 0 (byPlace p.metas)) := by
    refine applyFrom_named config (fun span hspan => ?_) (byPlace_chain hp) boundary_zero
      fun _ _ => Nat.zero_le _
    obtain ⟨hlt, htoken, hcut⟩ := hp.metas span (hperm.mem_iff.mp hspan)
    exact ⟨hlt.le, htoken.boundary, hcut⟩
  rw [Piece.replacement, hb]
  show (applyFrom p.text 0 (sorted (b.edits ++ metaEdits config p.metas))).mapError _ = _
  rw [hedits, List.nil_append, sorted_metaEdits hp, hnamed]
  rfl

end

/-! ### Modules -/

theorem WellSpanned.metasInAny_items {m : Module} (hm : WellSpanned m) :
    metasInAny m m.items = m.metas := by
  refine List.filter_eq_self.mpr fun span hspan => List.any_eq_true.mpr ?_
  exact hm.inside span hspan

theorem metasIn_nil {m : Module} {item : Item}
    (h : ∀ span ∈ m.metas, span.within item.span = true → False) : metasIn m item = [] :=
  List.filter_eq_nil_iff.mpr h

theorem convert_ok {m : Module} {bodyLength n : Nat} {done : Contribution} {body t : List Char}
    (hn : n = min bodyLength (byteLength m.source))
    (hdone : Setting.convertItems ⟨config, path, m.source, n⟩ {} m.items = (done, none))
    (hbody : body = (takeBytes? m.source n).getD m.source)
    (happly : applyAll (done.edits ++ metaEdits config m.metas) body = .ok t) :
    ∃ c, (convert config path bodyLength m).1 = .ok c ∧ c.body.toList = t := by
  subst hn hbody
  refine ⟨⟨String.ofList t, done.imports, done.hasExports, done.diagnostics⟩, ?_,
    String.toList_ofList⟩
  rw [metaEdits] at happly
  simp only [convert, hdone, happly]

theorem bind_ok {α β : Type} {x : Except EmitFault α} {f : α → Except EmitFault β} {b : β}
    (h : x >>= f = .ok b) : ∃ a, x = .ok a ∧ f a = .ok b := by
  cases x with
  | error fault => cases h
  | ok a => exact ⟨a, rfl, h⟩

def answers {ε α : Type} (p : α → Bool) : Except ε α → Bool
  | .ok a => p a
  | .error _ => false

theorem exists_of_answers {ε α : Type} {p : α → Bool} {r : Except ε α} (h : answers p r = true) :
    ∃ a, r = .ok a ∧ p a = true := by
  cases r with
  | error fault => cases h
  | ok a => exact ⟨a, rfl, h⟩

theorem convert_done {m : Module} {bodyLength : Nat} {c : Converted}
    (h : (convert config path bodyLength m).1 = .ok c) :
    ∃ done, Setting.convertItems ⟨config, path, m.source, min bodyLength (byteLength m.source)⟩ {}
        m.items = (done, none) ∧
      applyAll (done.edits ++ metaEdits config m.metas)
        ((takeBytes? m.source (min bodyLength (byteLength m.source))).getD m.source) =
          .ok c.body.toList ∧ c.imports = done.imports := by
  unfold convert at h
  dsimp only at h
  split at h
  · cases h
  · rename_i done hdone
    split at h
    · cases h
    · rename_i text happly
      cases h
      refine ⟨done, hdone, ?_, rfl⟩
      rw [String.toList_ofList]
      exact happly

theorem convert_inv {m : Module} {bodyLength : Nat} {c : Converted}
    (h : (convert config path bodyLength m).1 = .ok c) :
    ∃ done, Setting.convertItems ⟨config, path, m.source, min bodyLength (byteLength m.source)⟩ {}
        m.items = (done, none) ∧
      applyAll (done.edits ++ metaEdits config m.metas)
        ((takeBytes? m.source (min bodyLength (byteLength m.source))).getD m.source) =
          .ok c.body.toList := by
  obtain ⟨done, hdone, happly, -⟩ := convert_done h
  exact ⟨done, hdone, happly⟩

section

variable {m : Module} {item : Item}

theorem WellSpanned.toCut (hm : WellSpanned m) {s : Setting} (hsource : s.source = m.source)
    (hbody : body = (takeBytes? m.source s.bodyLength).getD m.source)
    (hinside : ∀ item ∈ m.items, item.span.hi ≤ s.bodyLength)
    (hdelete : ∀ item ∈ m.items, erased item.shape = true → metasIn m item = [])
    (hwhole : ∀ item ∈ m.items, replacedWhole item.shape = true → metasIn m item = []) :
    Cut m s body m.items := by
  obtain ⟨post, hsplit, hlength⟩ := body_split m.source s.bodyLength
  rw [← hbody] at hsplit hlength
  refine ⟨hm, hsource, ⟨post, hsplit⟩, by rw [hsource, hlength], fun _ hitem => hitem, hm.ordered,
    hinside, fun item hitem first => ?_⟩
  cases herased : erased item.shape with
  | true =>
    have hnone := hdelete item hitem herased
    exact .inl ⟨rfl, hnone, item_deleted s herased hnone first⟩
  | false => exact .inr ⟨rfl, hm.kept hsource hitem herased (hwhole item hitem) first⟩

theorem replacement_deleted (config : Config) (herased : erased item.shape = true)
    (hmetas : metasIn m item = []) (first : Nat) :
    (pieceOf m item).replacement config first = .ok [] :=
  (item_deleted ((pieceOf m item).setting config) herased hmetas first).replacement

theorem WellSpanned.converts (hm : WellSpanned m) (config : Config) (path : String)
    {bodyLength : Nat} (hbody : ∀ item ∈ m.items, item.span.hi ≤ bodyLength)
    (hdelete : ∀ item ∈ m.items, erased item.shape = true → metasIn m item = [])
    (hwhole : ∀ item ∈ m.items, replacedWhole item.shape = true → metasIn m item = []) :
    ∃ c, (convert config path bodyLength m).1 = .ok c ∧
      woven config m (bodyEnd m.source bodyLength) 0 0 false m.items = .ok c.body.toList := by
  obtain ⟨n, hn⟩ : ∃ n, n = min bodyLength (byteLength m.source) := ⟨_, rfl⟩
  obtain ⟨body, htake⟩ : ∃ body, body = (takeBytes? m.source n).getD m.source := ⟨_, rfl⟩
  have hinside : ∀ item ∈ m.items, item.span.hi ≤ n := fun item hitem =>
    hn ▸ Nat.le_min.mpr ⟨hbody item hitem, (hm.cut item hitem).2.2.le⟩
  have hcut := hm.toCut (s := ⟨config, path, m.source, n⟩) rfl htake hinside hdelete hwhole
  obtain ⟨done, hdone, hedits⟩ := convertItems_recorded hcut.converting {}
  obtain ⟨t, hwoven, happly⟩ := hcut.woven_ok (List.nil_append body).symm (Nat.zero_le _)
    (fun _ _ => Nat.zero_le _) 0 false
  have hsorted := sorted_recorded hm hcut.mem hcut.ordered hcut.converting 0
  rw [hm.metasInAny_items] at hsorted
  have hall : applyAll (done.edits ++ metaEdits config m.metas) body = .ok t := by
    rw [applyAll, hedits]
    show applyFrom body 0 (sorted (recorded _ 0 m.items ++ _)) = _
    rw [hsorted]
    exact happly
  obtain ⟨c, hc, htext⟩ := convert_ok hn hdone htake hall
  refine ⟨c, hc, ?_⟩
  rw [htext, ← bodyEnd_min, ← hn, ← hwoven, ← hcut.length]
  rfl

end

/-- Converting a module weaves the replacements of its items into the text between them. An item
without a value is replaced by nothing, and a statement by itself with its metas renamed. -/
theorem convert_woven (config : Config) (path : String) (bodyLength : Nat) {m : Module}
    (hm : WellSpanned m) (hbody : ∀ item ∈ m.items, item.span.hi ≤ bodyLength)
    (hmetas : ∀ item ∈ m.items, ∀ span ∈ m.metas, span.within item.span = true →
      erased item.shape = false ∧ replacedWhole item.shape = false) :
    (∃ c, (convert config path bodyLength m).1 = .ok c ∧
      woven config m (bodyEnd m.source bodyLength) 0 0 false m.items = .ok c.body.toList) ∧
    ∀ item ∈ m.items, ∀ first,
      (erased item.shape = true → (pieceOf m item).replacement config first = .ok []) ∧
      (exportForm? item.shape = none → erased item.shape = false →
        (pieceOf m item).replacement config first = .ok (named config.importMetaIdent.toList
          (pieceOf m item).text 0 (byPlace (pieceOf m item).metas))) := by
  have hdelete : ∀ item ∈ m.items, erased item.shape = true → metasIn m item = [] := by
    intro item hitem herased
    refine metasIn_nil fun span hspan hin => ?_
    rw [(hmetas item hitem span hspan hin).1] at herased
    cases herased
  have hwhole : ∀ item ∈ m.items, replacedWhole item.shape = true → metasIn m item = [] := by
    intro item hitem hreplaced
    refine metasIn_nil fun span hspan hin => ?_
    rw [(hmetas item hitem span hspan hin).2] at hreplaced
    cases hreplaced
  refine ⟨hm.converts config path hbody hdelete hwhole, fun item hitem first => ⟨?_, ?_⟩⟩
  · intro herased
    exact replacement_deleted config herased (hdelete item hitem herased) first
  · intro hnone hkeep
    have hform : exportForm? (pieceOf m item).shape = none := by
      show exportForm? (item.shape.rebase _) = none
      rw [exportForm?_rebase, hnone]
      rfl
    exact replacement_statement (hm.pieces item hitem) hform ((erased_rebase _ _).trans hkeep)
      config first

def mixed : Module where
  source :=
    ['i', 'm', 'p', 'o', 'r', 't', ' ', '\'', 'a', '\'', '\n',
      'e', 'x', 'p', 'o', 'r', 't', ' ', 'l', 'e', 't', ' ', 'x', '=',
      'i', 'm', 'p', 'o', 'r', 't', '.', 'm', 'e', 't', 'a', '\n',
      'i', 'm', 'p', 'o', 'r', 't', '.', 'm', 'e', 't', 'a']
  items :=
    [⟨⟨0, 10⟩, .importFrom "a" [] false⟩,
      ⟨⟨11, 35⟩, .exportDecl (.variable false [⟨⟨22, 35⟩, .name ⟨22, 23⟩ "x", some ⟨24, 35⟩⟩])⟩,
      ⟨⟨36, 47⟩, .statement⟩]
  metas := [⟨24, 35⟩, ⟨36, 47⟩]
  lineComments := []

theorem mixed_piece {item : Item} (hitem : item ∈ mixed.items) :
    (pieceOf mixed item).WellFormed := by
  have htokens : ∀ item ∈ mixed.items, StartsToken (pieceOf mixed item).text 0 ∧
      (∀ span ∈ (pieceOf mixed item).metas, span.lo < span.hi ∧
        StartsToken (pieceOf mixed item).text span.lo ∧
        Boundary (pieceOf mixed item).text span.hi) ∧
      (pieceOf mixed item).metas.Pairwise fun a b => a.hi ≤ b.lo ∨ b.hi ≤ a.lo := by
    decide +kernel
  obtain ⟨htoken, hmetas, hapart⟩ := htokens item hitem
  refine ⟨htoken, hmetas, hapart, fun form hform => ?_⟩
  rcases hitem with _ | ⟨_, _ | ⟨_, _ | ⟨_, ⟨⟩⟩⟩⟩ <;> cases hform
  refine ⟨(mixed.source.drop 17).take 18, by decide +kernel, by decide +kernel,
    by decide +kernel, ?_⟩
  intro d hd
  obtain rfl := List.mem_singleton.mp hd
  refine ⟨by decide +kernel, ?_⟩
  constructor <;> decide +kernel

theorem mixed_wellSpanned : WellSpanned mixed where
  ordered := by decide
  cut := by decide +kernel
  inside := by decide
  nested := by
    intro item hitem form hform
    rcases hitem with _ | ⟨_, _ | ⟨_, _ | ⟨_, ⟨⟩⟩⟩⟩ <;> cases hform
    decide
  pieces := fun _ => mixed_piece

theorem convert_woven_mixed : ∃ c, (convert {} "a.js" 47 mixed).1 = .ok c ∧
    woven {} mixed 47 0 0 false mixed.items = .ok c.body.toList := by
  have hend : bodyEnd mixed.source 47 = 47 := by decide +kernel
  have hmixed := (convert_woven {} "a.js" 47 mixed_wellSpanned (by decide) (by decide)).1
  rwa [hend] at hmixed

end ModuleHost.Wrap
