import ModuleHost.Proofs.Wrap.Scattered

/-! Exported classes with decorators. What binds such a class takes the place of the keywords of its
export, so its decorators stay in front of it only where they were written behind these keywords. -/

namespace ModuleHost.Wrap

open ModuleHost.Syntax ModuleHost.Text ModuleHost.Wrap.Edit

/-- How a class is exported: under its name, or as the default, with a name or without one. -/
inductive ClassExport where
  | named (name : String)
  | default (name : Option String)

def classExport? : ItemShape → Option ClassExport
  | .exportDecl (.classDecl name false) => some (.named name)
  | .exportDefaultDecl (.classDecl name) => some (.default name)
  | _ => none

namespace ClassExport

def form : ClassExport → ExportForm
  | .named name => .classForm name
  | .default name => .default name

/-- What takes the place of the keywords. -/
def binding (exports : String) : ClassExport → String
  | .named name => "const " ++ name ++ " = " ++ member exports name ++ " ="
  | .default name =>
    (name.elim "" fun n => "const " ++ n ++ " = ") ++ (member exports "default" ++ " = ")

/-- How many bytes of an export give way to the binding: its keywords, and the white space behind
those of a default export. -/
def keywordsLength (e : ClassExport) (text : List Char) : Nat :=
  let rest := (behindKeywords e.form text).getD []
  match e with
  | .named _ => byteLength text - byteLength rest
  | .default _ => headLength text rest

end ClassExport

def keywordsEnd (m : Module) (item : Item) (e : ClassExport) : Nat :=
  item.span.lo + e.keywordsLength (pieceOf m item).text

/-- Where the decorators of an exported class are, from the first to the last, and the word with which
the class itself begins. Decorators stand in front of the item or behind its keywords, and nothing else
in front of that word can use `import.meta`. -/
structure Decorated (m : Module) (before : List Item) (item : Item) (e : ClassExport)
    (decorators word : Span) : Prop where
  token : StartsToken m.source decorators.lo
  nonempty : decorators.lo ≤ decorators.hi
  cut : Boundary m.source decorators.hi ∧ Boundary m.source word.hi
  own : keywordsEnd m item e ≤ word.lo ∧ word.lo ≤ word.hi ∧ word.hi ≤ item.span.hi
  ahead : ∀ earlier ∈ before, earlier.span.hi ≤ decorators.lo
  place : decorators.hi ≤ item.span.lo ∨
    (keywordsEnd m item e ≤ decorators.lo ∧ decorators.hi ≤ word.lo)
  metas : ∀ span ∈ m.metas, (span.hi ≤ decorators.lo ∧ span.hi ≤ item.span.lo) ∨
    span.within decorators = true ∨ word.hi ≤ span.lo

def metasOf (m : Module) (decorators : Span) : List Span :=
  byPlace (m.metas.filter (·.within decorators))

/-- Decorators with their metas renamed. -/
def decoratorText (config : Config) (m : Module) (decorators : Span) : List Char :=
  named config.importMetaIdent.toList (upTo m.source decorators.hi) decorators.lo
    (metasOf m decorators)

variable {config : Config} {path : String} {bodyLength n : Nat} {m : Module} {c : Converted}
  {item : Item} {before after : List Item} {cls : ClassExport} {decorators word : Span}
  {text t kept body : List Char} {spans : List Span} {s : Setting} {X : List Edit}

theorem classExport_form {shape : ItemShape} (h : classExport? shape = some cls) :
    exportForm? shape = some cls.form ∧ erased shape = false := by
  unfold classExport? at h
  split at h
  · cases h
    exact ⟨rfl, rfl⟩
  · cases h
    exact ⟨rfl, rfl⟩
  · cases h

def bindingEdit (config : Config) (m : Module) (item : Item) (cls : ClassExport) : Edit :=
  ⟨item.span.lo, keywordsEnd m item cls, cls.binding config.exportsIdent⟩

theorem WellSpanned.class_edits (hm : WellSpanned m) (hsource : s.source = m.source)
    (hitem : item ∈ m.items) (hclass : classExport? item.shape = some cls) (first : Nat) :
    Boundary m.source (keywordsEnd m item cls) ∧ ∃ closing,
      itemEdits s first item = bindingEdit s.config m item cls :: closing ∧
        ∀ e ∈ closing, item.span.hi ≤ e.start ∧ e.start ≤ e.stop := by
  obtain ⟨hform, hkeep⟩ := classExport_form hclass
  obtain ⟨pre, post, htext, hlo, hhi⟩ := hm.source_eq hitem
  have hstands : Stands s item.span pre (pieceOf m item).text post :=
    ⟨hsource.trans htext, hlo.symm, by rw [hlo, hhi]⟩
  have hshape : exportForm? (pieceOf m item).shape = some cls.form := by
    show exportForm? (item.shape.rebase _) = _
    rw [exportForm?_rebase, hform]
    cases cls <;> rfl
  obtain ⟨rest, hkey⟩ := (hm.pieces item hitem).keywords _ hshape
  obtain ⟨found, hfound, hedits, -⟩ := hstands.convertExport first (erased_eq hform hkeep)
    hkey.keywords hkey.more (hlo ▸ hm.nested item hitem _ hform)
  have hclosing : exportEdits s first (pieceOf m item).text rest (cls.form.rebase (byteLength pre)) =
      ⟨0, cls.keywordsLength (pieceOf m item).text, cls.binding s.config.exportsIdent⟩ ::
        closing (pieceOf m item).text "" := by
    unfold ClassExport.keywordsLength
    rw [hkey.keywords]
    cases cls <;> rfl
  refine ⟨?_, (closing (pieceOf m item).text "").map (shift item.span.lo), ?_, fun e he => ?_⟩
  · have hcut : Boundary (pieceOf m item).text (cls.keywordsLength (pieceOf m item).text) := by
      unfold ClassExport.keywordsLength
      rw [hkey.keywords]
      cases cls with
      | named name => exact hkey.boundary.1
      | default name => exact hkey.boundary.2
    obtain ⟨u, v, hpiece, hu⟩ := hcut
    refine ⟨pre ++ u, v ++ post, ?_, by rw [byteLength_append, hlo, hu]; rfl⟩
    rw [htext]
    nth_rewrite 1 [hpiece]
    simp
  · rw [itemEdits, convertItem_export s first item hform, hfound]
    show found.edits = _
    rw [hedits, hclosing, List.map_cons, hlo]
    rfl
  · obtain ⟨e', he', rfl⟩ := List.mem_map.mp he
    rw [mem_closing he']
    exact ⟨hhi.ge, Nat.le_refl _⟩

theorem Scattered.decorators_ahead (hm : Scattered m) (hsource : m.source = text ++ kept)
    (htoken : StartsToken m.source decorators.lo) (hle : decorators.lo ≤ byteLength text)
    (hend : decorators.hi ≤ byteLength text) :
    Ahead text decorators.lo (metasOf m decorators) ∧
      ∀ span ∈ metasOf m decorators, span.hi ≤ decorators.hi := by
  have hin : ∀ span ∈ metasOf m decorators, span ∈ m.metas ∧ decorators.lo ≤ span.lo ∧
      span.hi ≤ decorators.hi := by
    intro span hspan
    obtain ⟨hmem, hwithin⟩ := List.mem_filter.mp (mem_byPlace.mp hspan)
    simp only [Span.within, Bool.and_eq_true, decide_eq_true_eq] at hwithin
    exact ⟨hmem, hwithin⟩
  refine ⟨⟨(hsource ▸ htoken.boundary).of_append hle, fun span hspan => ?_, ?_⟩,
    fun span hspan => (hin span hspan).2.2⟩
  · obtain ⟨hmem, hlo, hhi⟩ := hin span hspan
    obtain ⟨hlt, hcutLo, hcutHi⟩ := hm.metas span hmem
    rw [hsource] at hcutLo hcutHi
    exact ⟨hlo, hlt, hcutLo.of_append (by omega), hcutHi.of_append (by omega)⟩
  · exact byPlace_apart (fun span hspan => (hm.metas span (List.mem_filter.mp hspan).1).1)
      (hm.apart.sublist List.filter_sublist)

theorem Decorated.le (h : Decorated m before item cls decorators word) : decorators.hi ≤ word.hi := by
  have hkeywords : item.span.lo ≤ keywordsEnd m item cls := Nat.le_add_right _ _
  obtain ⟨hlo, hhi, -⟩ := h.own
  rcases h.place with hfront | ⟨-, hbehind⟩
  · omega
  · omega

theorem Decorated.edits_from (hd : Decorated m before item cls decorators word) (hm : Scattered m)
    (h : Cut (itemMetas m) s body (item :: after)) (hclass : classExport? item.shape = some cls)
    (hn : n ≤ decorators.lo)
    (hmetas : ∀ span ∈ m.metas, span.hi ≤ n ∨ span.within decorators = true ∨ word.hi ≤ span.lo)
    (first : Nat) : ∃ X B,
      sorted (recorded s first (item :: after) ++ metaEdits s.config (metasFrom m n)) =
        sorted (bindingEdit s.config m item cls :: X ++
          metaEdits s.config (metasOf m decorators ++ B)) ∧
      ∀ b ∈ X ++ metaEdits s.config B, word.hi ≤ b.start ∧ b.start ≤ b.stop := by
  obtain ⟨-, closing, hedits, hclosing⟩ :=
    h.spans.class_edits h.source (h.mem item List.mem_cons_self) hclass first
  obtain ⟨hlater, -⟩ := List.pairwise_cons.mp h.ordered
  have hrecorded : recorded s first (item :: after) = bindingEdit s.config m item cls ::
      (closing ++ recorded s (first + temporariesIn item.shape) after) := by
    rw [recorded, hedits]
    rfl
  have hperm : (metasFrom m n).Perm (metasOf m decorators ++ metasOutside m n decorators) :=
    (hm.window_perm hn).trans (.append_right _ (List.mergeSort_perm _ _).symm)
  have hends : ∀ e ∈ closing ++ recorded s (first + temporariesIn item.shape) after,
      item.span.hi ≤ e.start ∧ e.start ≤ e.stop := fun e he =>
    (List.mem_append.mp he).elim (hclosing e) (h.tail.starts_behind hlater e)
  refine ⟨_, _, (sorted_metas hperm _ _).trans (by rw [hrecorded]), fun e he => ?_⟩
  rcases List.mem_append.mp he with he | he
  · exact ⟨hd.own.2.2.trans (hends e he).1, (hends e he).2⟩
  · exact hm.metasOutside_edits s.config hmetas e he

namespace Ahead

variable {front : Edit} {stays stays' : List Char} {B : List Span}

theorem in_front (hD : Ahead text decorators.lo spans) (hDend : ∀ span ∈ spans, span.hi ≤ decorators.hi)
    (hhi : Boundary text decorators.hi) (hle : decorators.lo ≤ decorators.hi)
    (hfront : decorators.hi ≤ front.start ∧ front.start ≤ front.stop ∧ front.stop ≤ n)
    (hgap : slice? text decorators.hi front.start = some stays)
    (hown : slice? text front.stop n = some stays')
    (hbehind : ∀ b ∈ X ++ metaEdits config B, n ≤ b.start ∧ b.start ≤ b.stop)
    (happly : applyFrom text decorators.lo
      (Edit.sorted (front :: X ++ metaEdits config (spans ++ B))) = .ok t) :
    ∃ v, t = named config.importMetaIdent.toList (upTo text decorators.hi) decorators.lo spans ++
      stays ++ front.text.toList ++ stays' ++ v := by
  have hlater : ∀ b ∈ X ++ metaEdits config B, front.stop ≤ b.start ∧ b.start ≤ b.stop :=
    fun b hb => ⟨hfront.2.2.trans (hbehind b hb).1, (hbehind b hb).2⟩
  rw [hD.sorted_around config (fun span hspan => (hDend span hspan).trans hfront.1) hfront.2.1 hlater,
    hD.apply config hhi hle hDend fun e he => by cases he; exact hfront.1] at happly
  obtain ⟨bound, hbound, rfl⟩ := map_ok happly
  obtain ⟨-, -, -, kept, more, hkept, hmore, rfl⟩ := applyFrom_cons_ok hbound
  obtain rfl := Option.some.inj (hgap.symm.trans hkept)
  rw [applyFrom_slice hown fun e he =>
    (hbehind e (mem_sorted.mp (List.mem_of_mem_head? he))).1] at hmore
  obtain ⟨v, -, rfl⟩ := map_ok hmore
  exact ⟨v, by simp⟩

theorem behind_keywords (hD : Ahead text decorators.lo spans)
    (hDend : ∀ span ∈ spans, span.hi ≤ decorators.hi) (hhi : Boundary text decorators.hi)
    (hfront : front.start ≤ front.stop ∧ front.stop ≤ decorators.lo)
    (hle : decorators.lo ≤ decorators.hi ∧ decorators.hi ≤ n)
    (hgap : slice? text front.stop decorators.lo = some stays)
    (hown : slice? text decorators.hi n = some stays')
    (hbehind : ∀ b ∈ X ++ metaEdits config B, n ≤ b.start ∧ b.start ≤ b.stop)
    (happly : applyFrom text front.start
      (Edit.sorted (front :: X ++ metaEdits config (spans ++ B))) = .ok t) :
    ∃ v, t = front.text.toList ++ stays ++
      named config.importMetaIdent.toList (upTo text decorators.hi) decorators.lo spans ++
        stays' ++ v := by
  rw [hD.sorted_behind config hDend hle.1 hfront fun b hb =>
    ⟨hle.2.trans (hbehind b hb).1, (hbehind b hb).2⟩] at happly
  obtain ⟨-, -, -, none, more, hnone, hmore, rfl⟩ := applyFrom_cons_ok happly
  obtain ⟨_, _, -, -, hlength⟩ := slice?_eq_some.mp hnone
  obtain rfl : none = [] := eq_nil_of_byteLength (Nat.add_eq_left.mp hlength)
  have hrest : ∀ e ∈ (Edit.sorted (X ++ metaEdits config B)).head?, n ≤ e.start :=
    fun e he => (hbehind e (mem_sorted.mp (List.mem_of_mem_head? he))).1
  have hdecorated : ∀ e ∈ (metaEdits config spans ++
      Edit.sorted (X ++ metaEdits config B)).head?, decorators.lo ≤ e.start := by
    intro e he
    rcases List.mem_append.mp (List.mem_of_mem_head? he) with he | he
    · exact (hD.edits_behind config e he).1
    · exact (hle.1.trans hle.2).trans (hbehind e (mem_sorted.mp he)).1
  rw [applyFrom_slice hgap hdecorated, hD.apply config hhi hle.1 hDend fun e he =>
    hle.2.trans (hrest e he), applyFrom_slice hown hrest] at hmore
  obtain ⟨_, hnamed, rfl⟩ := map_ok hmore
  obtain ⟨_, hword, rfl⟩ := map_ok hnamed
  obtain ⟨v, -, rfl⟩ := map_ok hword
  exact ⟨v, by simp⟩

end Ahead

theorem slice?_between {post : List Char} {lo hi : Nat} (hsource : m.source = text ++ post)
    (hlo : Boundary m.source lo) (hhi : Boundary m.source hi) (hle : lo ≤ hi)
    (hend : hi ≤ byteLength text) : slice? text lo hi = some (between m lo hi false) := by
  rw [hsource] at hlo hhi
  obtain ⟨kept, hkept⟩ := (hlo.of_append (hle.trans hend)).slice (hhi.of_append hend) hle
  obtain ⟨p, r, rfl, rfl, rfl⟩ := slice?_eq_some.mp hkept
  have hslice : slice? m.source (byteLength p) (byteLength p + byteLength kept) = some kept := by
    rw [hsource, List.append_assoc, List.append_assoc]
    exact slice?_append
  rw [hkept, between_eq hslice]
  rfl

/-- The binding of an exported class takes the place of its keywords. Decorators in front of these are
parted from their class by it, and behind them they stay in front of the class, with nothing in
between but what was there before. -/
theorem binding_beside_decorators (hm : Scattered m)
    (hbody : ∀ item ∈ m.items, item.span.hi ≤ bodyLength)
    (h : (convert config path bodyLength m).1 = .ok c) (hitems : m.items = before ++ item :: after)
    (hclass : classExport? item.shape = some cls)
    (hd : Decorated m before item cls decorators word) :
    (decorators.hi ≤ item.span.lo → ∃ ahead behind,
      madeUpTo config path bodyLength m before decorators.lo = .ok ahead ∧ c.body.toList = ahead ++
        (decoratorText config m decorators ++ between m decorators.hi item.span.lo false ++
          (cls.binding config.exportsIdent).toList ++
            between m (keywordsEnd m item cls) word.hi false) ++ behind) ∧
    (keywordsEnd m item cls ≤ decorators.lo → ∃ ahead behind,
      madeUpTo config path bodyLength m before item.span.lo = .ok ahead ∧ c.body.toList = ahead ++
        ((cls.binding config.exportsIdent).toList ++
          between m (keywordsEnd m item cls) decorators.lo false ++
            decoratorText config m decorators ++ between m decorators.hi word.hi false) ++ behind) := by
  obtain ⟨hcut, -⟩ := hm.converted hbody h
  have hmem : item ∈ m.items := hitems ▸ List.mem_append_right _ List.mem_cons_self
  have hsuffix : Cut (itemMetas m) _ _ (item :: after) := (hitems ▸ hcut).behind
  obtain ⟨post, hsource⟩ := hcut.start
  have hkeywords : item.span.lo ≤ keywordsEnd m item cls := Nat.le_add_right _ _
  obtain ⟨hown, hword, hlast⟩ := hd.own
  have hle := hd.le
  have hinside := hlast.trans (hcut.hi_le hmem)
  have hlo := (hcut.spans.cut item hmem).2.1
  have hkeywordsEnd := (hcut.spans.class_edits (s := settingOf config path bodyLength m) rfl hmem
    hclass 0).1
  have hhi := (hsource ▸ hd.cut.1).of_append (hle.trans hinside)
  obtain ⟨hD, hDend⟩ := hm.decorators_ahead hsource hd.token ((hd.nonempty.trans hle).trans hinside)
    (hle.trans hinside)
  have hnamed : decoratorText config m decorators = named config.importMetaIdent.toList
      (upTo (bodyText m bodyLength) decorators.hi) decorators.lo (metasOf m decorators) := by
    rw [decoratorText, ← upTo_append hhi post]
    exact congrArg (fun text => named _ (upTo text _) _ _) hsource
  rw [hnamed]
  constructor
  · -- the decorators come first, so the edits are cut in front of them
    intro hfront
    have hmetas := fun span hspan => (hd.metas span hspan).imp_left And.left
    obtain ⟨ahead, rest, hbodyText, hahead, hrest⟩ := hm.cut_at hbody h hitems hd.ahead
      (hd.nonempty.trans hfront) hd.token fun span hspan =>
        beside_place (Nat.le_refl _) (hd.nonempty.trans hle) (hmetas span hspan)
    obtain ⟨X, B, hsorted, hbehind⟩ :=
      hd.edits_from hm hsuffix hclass (Nat.le_refl _) hmetas (temporariesBefore before)
    obtain ⟨behind, rfl⟩ := hD.in_front hDend hhi hd.nonempty ⟨hfront, hkeywords, hown.trans hword⟩
      (slice?_between hsource hd.cut.1 hlo hfront ((hkeywords.trans (hown.trans hword)).trans hinside))
      (slice?_between hsource hkeywordsEnd hd.cut.2 (hown.trans hword) hinside) hbehind
      (hsorted ▸ hrest)
    exact ⟨ahead, behind, hahead, hbodyText.trans (List.append_assoc _ _ _).symm⟩
  · -- the keywords come first, so the edits are cut where the item starts
    intro hbehind
    have hmetas := fun span hspan => (hd.metas span hspan).imp_left And.right
    have hin := hkeywords.trans hbehind
    obtain ⟨-, -, hapart⟩ := List.pairwise_append.mp (hitems ▸ hcut.ordered)
    obtain ⟨ahead, rest, hbodyText, hahead, hrest⟩ := hm.cut_at hbody h hitems
      (fun earlier hearlier => hapart earlier hearlier item List.mem_cons_self) (Nat.le_refl _)
      (hcut.spans.token hmem) fun span hspan =>
        beside_place hin (hin.trans (hd.nonempty.trans hle)) (hmetas span hspan)
    obtain ⟨X, B, hsorted, hlater⟩ :=
      hd.edits_from hm hsuffix hclass hin hmetas (temporariesBefore before)
    have hfrom : applyFrom (bodyText m bodyLength) (bindingEdit config m item cls).start _ = .ok rest :=
      hsorted ▸ hrest
    obtain ⟨behind, rfl⟩ := hD.behind_keywords hDend hhi ⟨hkeywords, hbehind⟩ ⟨hd.nonempty, hle⟩
      (slice?_between hsource hkeywordsEnd hd.token.boundary hbehind
        ((hd.nonempty.trans hle).trans hinside))
      (slice?_between hsource hd.cut.1 hd.cut.2 hle hinside) hlater hfrom
    exact ⟨ahead, behind, hahead, hbodyText.trans (List.append_assoc _ _ _).symm⟩

def decorated : Module where
  source :=
    ['@', 'a', ' ', 'e', 'x', 'p', 'o', 'r', 't', ' ', 'c', 'l', 'a', 's', 's', ' ', 'A', '{',
      '}', '\n', 'e', 'x', 'p', 'o', 'r', 't', ' ', 'd', 'e', 'f', 'a', 'u', 'l', 't', '@',
      'b', '(', 'i', 'm', 'p', 'o', 'r', 't', '.', 'm', 'e', 't', 'a', ')', ' ', 'c', 'l',
      'a', 's', 's', '{', '}']
  items :=
    [⟨⟨3, 19⟩, .exportDecl (.classDecl "A" false)⟩, ⟨⟨20, 57⟩, .exportDefaultDecl (.classDecl none)⟩]
  metas := [⟨37, 48⟩]
  lineComments := []

theorem decorated_spanned : Spanned decorated where
  ordered := by decide
  cut := by decide +kernel
  inside := by decide
  metas := by decide
  nested := by
    intro item hitem form hform
    rcases hitem with _ | ⟨_, _ | ⟨_, ⟨⟩⟩⟩ <;> cases hform <;> exact nofun
  words := by
    intro item hitem name hform
    rcases hitem with _ | ⟨_, _ | ⟨_, ⟨⟩⟩⟩ <;> cases hform
    exact ⟨[' '], [], decorated.source.drop 34, by decide +kernel, by simp [isBlank], nofun⟩
  pieces := by
    intro item hitem _
    have htokens : ∀ item ∈ decorated.items, StartsToken (pieceOf decorated item).text 0 ∧
        (∀ span ∈ (pieceOf decorated item).metas, span.lo < span.hi ∧
          StartsToken (pieceOf decorated item).text span.lo ∧
          Boundary (pieceOf decorated item).text span.hi) ∧
        (pieceOf decorated item).metas.Pairwise fun a b => a.hi ≤ b.lo ∨ b.hi ≤ a.lo := by
      decide +kernel
    obtain ⟨htoken, hmetas, hapart⟩ := htokens item hitem
    refine ⟨htoken, hmetas, hapart, fun form hform => ?_⟩
    rcases hitem with _ | ⟨_, _ | ⟨_, ⟨⟩⟩⟩ <;> cases hform
    · exact ⟨(decorated.source.drop 9).take 10, by decide +kernel, by decide +kernel,
        by decide +kernel, nofun⟩
    · exact ⟨decorated.source.drop 34, by decide +kernel, by decide +kernel, by decide +kernel, nofun⟩

theorem binding_beside_decorators_decorated : ∃ c u v u' v',
    (convert {} "/a.js" 57 decorated).1 = .ok c ∧
      c.body.toList = u ++ "@a const A = exports.A = class".toList ++ v ∧
      c.body.toList = u' ++ "exports.default = @b(__import_meta) class".toList ++ v' := by
  have hinside : ∀ item ∈ decorated.items, item.span.hi ≤ 57 := by decide
  obtain ⟨c, hc⟩ := (convert_accepts_iff {} "/a.js" decorated_spanned hinside).mpr fun item hitem => by
    rcases hitem with _ | ⟨_, _ | ⟨_, ⟨⟩⟩⟩
    · exact ⟨nofun, by decide⟩
    · refine ⟨fun name hform => ?_, by decide⟩
      cases hform
      decide +kernel
  have hscattered : Scattered decorated :=
    ⟨decorated_spanned, by decide +kernel, List.pairwise_singleton _ _, by decide⟩
  have hnamed : Decorated decorated [] ⟨⟨3, 19⟩, .exportDecl (.classDecl "A" false)⟩ (.named "A")
      ⟨0, 2⟩ ⟨10, 15⟩ :=
    ⟨by decide +kernel, by decide, by decide +kernel, by decide +kernel, nofun, .inl (by decide),
      by decide⟩
  have hdefault : Decorated decorated [⟨⟨3, 19⟩, .exportDecl (.classDecl "A" false)⟩]
      ⟨⟨20, 57⟩, .exportDefaultDecl (.classDecl none)⟩ (.default none) ⟨34, 49⟩ ⟨50, 55⟩ :=
    ⟨by decide +kernel, by decide, by decide +kernel, by decide +kernel, by decide,
      .inr (by decide +kernel), by decide⟩
  obtain ⟨u, v, -, hfront⟩ :=
    (binding_beside_decorators hscattered hinside hc rfl rfl hnamed).1 (by decide)
  obtain ⟨u', v', -, hbehind⟩ :=
    (binding_beside_decorators hscattered hinside hc rfl rfl hdefault).2 (by decide +kernel)
  refine ⟨c, u, v, u', v', hc, hfront.trans ?_, hbehind.trans ?_⟩
  · congr 2
    decide +kernel
  · congr 2
    decide +kernel

/-- The binding of a class comes between the class and its decorator. -/
theorem decorator_parted : ∃ m c, Module.parse "@dec export class C \x7b\x7d" = .ok m ∧
    m.items.map Item.span = [⟨5, 22⟩] ∧ (convert {} "/a.js" 22 m).1 = .ok c ∧
    c.body = "@dec const C = exports.C = class C \x7b\x7d;" := by
  obtain ⟨m, hparse, hm⟩ : ∃ m, Module.parse "@dec export class C \x7b\x7d" = .ok m ∧
      (decide (m.items.map Item.span = [⟨5, 22⟩]) && convertsInOrder {} "/a.js" 22 m
        "@dec const C = exports.C = class C \x7b\x7d;".toList) = true :=
    exists_of_answers (by decide +kernel)
  obtain ⟨hspans, hconvert⟩ := (Bool.and_eq_true _ _).mp hm
  obtain ⟨c, hc, hbody⟩ := convert_in_order hconvert
  exact ⟨m, c, hparse, of_decide_eq_true hspans, hc, String.toList_inj.mp hbody⟩

end ModuleHost.Wrap
