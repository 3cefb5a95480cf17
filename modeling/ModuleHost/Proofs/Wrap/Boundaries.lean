import ModuleHost.Proofs.Wrap.Closing
import ModuleHost.Syntax.Parse

/-! Where one statement ends and the next begins, if no semicolon says so. What is taken out between
two items takes with it what kept them apart, so the earlier one has to have an end of its own. -/

namespace ModuleHost.Wrap

open ModuleHost.Syntax ModuleHost.Text ModuleHost.Wrap.Edit

/-- Characters with which a statement may begin that otherwise go on with the one before. -/
def openers : List Char := ['(', '[', '`', '+', '-', '/']

/-- The text between two places when the items there have vanished. -/
def remains (m : Module) (hi cursor : Nat) (behindErased : Bool) : List Item → List Char
  | [] => between m cursor hi behindErased
  | item :: more =>
    between m cursor item.span.lo behindErased ++
      remains m hi item.span.hi (erased item.shape) more

variable {config : Config} {path : String} {m : Module} {p : Piece} {item : Item} {t : List Char}
  {first hi cursor : Nat} {behindErased : Bool}

theorem replacement_vanishes (hv : vanishes item.shape = true) (hmetas : metasIn m item = [])
    (first : Nat) : (pieceOf m item).replacement config first = .ok [] := by
  rcases (Bool.or_eq_true _ _).mp hv with herased | hreplaced
  · exact replacement_deleted config herased hmetas first
  · obtain ⟨hwhole, hopen⟩ := (Bool.and_eq_true _ _).mp hreplaced
    obtain ⟨form, hform, hreplaces⟩ := (Option.any_eq_true _ _).mp hwhole
    have hcloses : closesForm form = false := by
      rw [closes, hform, Option.any_some, Bool.not_eq_true'] at hopen
      exact hopen
    have hnone : (pieceOf m item).metas = [] :=
      congrArg (List.map (Span.rebase item.span.lo)) hmetas
    have hshape : exportForm? (pieceOf m item).item.shape = some (form.rebase item.span.lo) := by
      show exportForm? (item.shape.rebase _) = _
      rw [exportForm?_rebase, hform]
      rfl
    have hconvert := convertItem_export ((pieceOf m item).setting config) first _ hshape
    rw [Piece.replacement, hconvert, hnone]
    cases form with
    | localList entries =>
      have hpairs : entries.filterMap ExportEntry.pair? = [] := by simpa [closesForm] using hcloses
      simp only [ExportForm.rebase, Setting.convertExport, Setting.convertLocalList, hpairs]
      exact congrArg (Except.mapError EmitFault.edit) (applyAll_whole "")
    | reexportList entries source =>
      have hpairs : ((entries.filterMap ExportEntry.pair?).isEmpty &&
          (entries.filterMap ExportEntry.namespaceName?).isEmpty) = true := by
        rwa [closesForm, Bool.not_eq_false'] at hcloses
      simp only [ExportForm.rebase, Setting.convertExport, Setting.convertReexports, if_pos hpairs]
      exact congrArg (Except.mapError EmitFault.edit) (applyAll_whole "")
    | wildcard source => cases hcloses
    | _ => cases hreplaces

section

variable {items before after gone : List Item} {n : Item}

def temporariesBefore : List Item → Nat
  | [] => 0
  | item :: more => temporariesIn item.shape + temporariesBefore more

/-- A woven module falls apart at each of its items. -/
theorem woven_split (h : woven config m hi first cursor behindErased (before ++ item :: after) =
    .ok t) : ∃ u text v, woven config m item.span.lo first cursor behindErased before = .ok u ∧
      (pieceOf m item).replacement config (first + temporariesBefore before) = .ok text ∧
      woven config m hi (first + temporariesBefore before + temporariesIn item.shape) item.span.hi
        (erased item.shape) after = .ok v ∧ t = u ++ (text ++ v) := by
  induction before generalizing first cursor behindErased t with
  | nil =>
    rw [List.nil_append, woven] at h
    obtain ⟨text, htext, h⟩ := bind_ok h
    obtain ⟨v, hv, h⟩ := bind_ok h
    obtain rfl := Except.ok.inj h
    exact ⟨_, text, v, rfl, htext, hv, List.append_assoc _ _ _⟩
  | cons head before ih =>
    rw [List.cons_append, woven] at h
    obtain ⟨made, hmade, h⟩ := bind_ok h
    obtain ⟨rest, hrest, h⟩ := bind_ok h
    obtain rfl := Except.ok.inj h
    obtain ⟨u, text, v, hu, htext, hv, rfl⟩ := ih hrest
    have hsum : first + temporariesBefore (head :: before) =
        first + temporariesIn head.shape + temporariesBefore before := (Nat.add_assoc _ _ _).symm
    rw [hsum]
    refine ⟨_, text, v, ?_, htext, hv, (List.append_assoc _ _ _).symm⟩
    rw [woven, hmade]
    simp only [bind, Except.bind, hu]
    rfl

theorem woven_vanishes (h : ∀ item ∈ gone, ∀ first,
    (pieceOf m item).replacement config first = .ok []) :
    woven config m hi first cursor behindErased gone = .ok (remains m hi cursor behindErased gone) := by
  induction gone generalizing first cursor behindErased with
  | nil => rfl
  | cons item gone ih =>
    obtain ⟨hitem, hmore⟩ := List.forall_mem_cons.mp h
    rw [woven, hitem first]
    simp only [bind, Except.bind, ih hmore]
    show Except.ok (_ ++ [] ++ _) = _
    rw [List.append_nil]
    rfl

theorem opener_kept (hp : p.WellFormed) (hv : p.Visible) (hkeep : vanishes p.shape = false)
    {d : Char} (hstart : p.text.head? = some d) (hd : d ∈ openers)
    (h : p.replacement config first = .ok t) : t.head? = some d := by
  obtain ⟨herased, -⟩ := Bool.or_eq_false_iff.mp hkeep
  cases hform : exportForm? p.shape with
  | some form =>
    -- an export begins with a letter
    obtain ⟨rest, hkey⟩ := hp.keywords form hform
    have hword : ∃ r, dropStart? Setting.exportWord p.text = some r := by
      have hkeywords := hkey.keywords
      cases form with
      | default name =>
        obtain ⟨r, hr, -⟩ := Option.bind_eq_some_iff.mp hkeywords
        exact ⟨r, hr⟩
      | _ => exact ⟨rest, hkeywords⟩
    obtain ⟨r, hr⟩ := hword
    rw [dropStart?_eq_some.mp hr] at hstart
    obtain rfl : 'e' = d := Option.some.inj hstart
    exact absurd hd (by decide)
  | none =>
    have hnamed := replacement_statement hp hform herased config first
    obtain rfl := Except.ok.inj (hnamed.symm.trans h)
    cases hspans : byPlace p.metas with
    | nil =>
      have hdrop : dropBytes? p.text 0 = some p.text := dropBytes?_eq_some.mpr ⟨[], rfl, rfl⟩
      rw [named, hdrop]
      exact hstart
    | cons span spans =>
      have hspan : span ∈ p.metas := by
        have hmem : span ∈ byPlace p.metas := by
          rw [hspans]
          exact List.mem_cons_self
        exact (List.mergeSort_perm p.metas _).mem_iff.mp hmem
      obtain ⟨-, htoken, -⟩ := hp.metas span hspan
      obtain ⟨q, r, htext, hq⟩ := htoken.boundary
      have hslice : slice? p.text 0 span.lo = some q :=
        slice?_eq_some.mpr ⟨[], r, htext, rfl, by rw [Nat.zero_add, hq]⟩
      rw [named, hslice]
      cases q with
      | nil =>
        have hi := hv.metas span hspan
        rw [← hq, htext, byteLength_nil] at hi
        have hdrop : dropBytes? r 0 = some r := dropBytes?_eq_some.mpr ⟨[], rfl, rfl⟩
        rw [List.nil_append, hdrop, Option.bind_some] at hi
        rw [htext, List.nil_append, hi] at hstart
        obtain rfl : 'i' = d := Option.some.inj hstart
        exact absurd hd (by decide)
      | cons a q =>
        rw [htext] at hstart
        exact hstart

theorem closesForm_rebase (k : Nat) (form : ExportForm) :
    closesForm (form.rebase k) = closesForm form := by
  cases form with
  | «variable» declarators =>
    have hnames : ((declarators.map (Declarator.rebase k)).flatMap fun d =>
        topLevelBindings d.target) = declarators.flatMap fun d => topLevelBindings d.target := by
      rw [List.flatMap_map]
      congr 1
      funext d
      exact topLevelBindings_rebase k d.target
    rw [ExportForm.rebase, closesForm, closesForm, hnames]
  | _ => rfl

theorem closes_piece (m : Module) (item : Item) : closes (pieceOf m item).shape = closes item.shape := by
  rw [closes, pieceOf, exportForm?_rebase, Option.any_map, closes]
  congr 1
  funext form
  exact closesForm_rebase _ form

theorem replacedWhole_piece (m : Module) (item : Item) :
    replacedWhole (pieceOf m item).shape = replacedWhole item.shape := by
  rw [replacedWhole, pieceOf, exportForm?_rebase, Option.any_map, replacedWhole]
  congr 1
  funext form
  cases form <;> rfl

theorem vanishes_piece (m : Module) (item : Item) :
    vanishes (pieceOf m item).shape = vanishes item.shape := by
  rw [vanishes, replacedWhole_piece, closes_piece, pieceOf, erased_rebase, vanishes]

/-- Between two items that are left when those between them have vanished, and of which the later one
would go on with the earlier one, the earlier one is closed exactly if it has an end of its own. -/
theorem boundary_closed_iff (config : Config) (path : String) {bodyLength : Nat} {left right : Item}
    (hm : WellSpanned m) (hv : ∀ item ∈ m.items, (pieceOf m item).Visible)
    (hident : ∃ d ∈ config.importMetaIdent.toList.getLast?, isBlank d = false ∧ isCloser d = false)
    (hbody : ∀ item ∈ m.items, item.span.hi ≤ bodyLength)
    (hmetas : ∀ item ∈ m.items, erased item.shape = true ∨ replacedWhole item.shape = true →
      metasIn m item = [])
    (hitems : m.items = before ++ left :: (gone ++ right :: after))
    (hgone : ∀ item ∈ gone, vanishes item.shape = true) (hleft : vanishes left.shape = false)
    (hright : vanishes right.shape = false) (hopen : ¬Closed (pieceOf m left).text) {d : Char}
    (hstart : (pieceOf m right).text.head? = some d) (hd : d ∈ openers) :
    ∃ c u textLeft textRight v, (convert config path bodyLength m).1 = .ok c ∧
      woven config m left.span.lo 0 0 false before = .ok u ∧
      (pieceOf m left).replacement config (temporariesBefore before) = .ok textLeft ∧
      c.body.toList = u ++ (textLeft ++
        (remains m right.span.lo left.span.hi (erased left.shape) gone ++ (textRight ++ v))) ∧
      textRight.head? = some d ∧ (Closed textLeft ↔ closes left.shape = true) := by
  have hmemLeft : left ∈ m.items := by simp [hitems]
  have hmemRight : right ∈ m.items := by simp [hitems]
  have hmemGone : ∀ item ∈ gone, item ∈ m.items := by
    intro item hitem
    simp [hitems, hitem]
  obtain ⟨c, hc, hwoven⟩ := hm.converts config path hbody
    (fun item hitem herased => hmetas item hitem (.inl herased))
    (fun item hitem hreplaced => hmetas item hitem (.inr hreplaced))
  rw [hitems] at hwoven
  obtain ⟨u, textLeft, rest, hu, htextLeft, hrest, htext⟩ := woven_split hwoven
  obtain ⟨mid, textRight, v, hmid, htextRight, -, rfl⟩ := woven_split hrest
  -- nothing is left of an item that vanishes, since no use of `import.meta` lies in it
  have hvanish : ∀ item ∈ gone, ∀ first,
      (pieceOf m item).replacement config first = .ok [] := by
    intro item hitem
    have hnone : metasIn m item = [] := by
      refine hmetas item (hmemGone item hitem) ?_
      rcases (Bool.or_eq_true _ _).mp (hgone item hitem) with herased | hreplaced
      · exact .inl herased
      · exact .inr ((Bool.and_eq_true _ _).mp hreplaced).1
    exact replacement_vanishes (hgone item hitem) hnone
  obtain rfl := Except.ok.inj ((woven_vanishes hvanish).symm.trans hmid)
  rw [Nat.zero_add] at htextLeft
  have hopener := opener_kept (hm.pieces right hmemRight) (hv right hmemRight)
    ((vanishes_piece m right).trans hright) hstart hd htextRight
  have hclosed := closed_replacement_iff (hm.pieces left hmemLeft) (hv left hmemLeft) hident
    ((vanishes_piece m left).trans hleft) (fun hwhole => ?_) hopen htextLeft
  · rw [closes_piece] at hclosed
    exact ⟨c, u, textLeft, textRight, v, hc, hu, htextLeft, htext, hopener, hclosed⟩
  · rw [replacedWhole_piece] at hwhole
    exact congrArg (List.map (Span.rebase left.span.lo)) (hmetas left hmemLeft (.inr hwhole))

end

def parted : Module where
  source :=
    ['e', 'x', 'p', 'o', 'r', 't', ' ', 'c', 'o', 'n', 's', 't', ' ', '[', 'a', ']', '=', 'b', '\n',
      'i', 'm', 'p', 'o', 'r', 't', '\'', 'x', '\'', '\n', '(', 'g', ')', '(', ')']
  items :=
    [⟨⟨0, 18⟩, .exportDecl (.variable false
        [⟨⟨13, 18⟩, .array ⟨13, 16⟩ [some (.name ⟨14, 15⟩ "a")], some ⟨17, 18⟩⟩])⟩,
      ⟨⟨19, 28⟩, .importFrom "x" [] false⟩, ⟨⟨29, 34⟩, .statement⟩]
  metas := []
  lineComments := []

theorem parted_piece {item : Item} (hitem : item ∈ parted.items) :
    (pieceOf parted item).WellFormed := by
  have htokens : ∀ item ∈ parted.items, StartsToken (pieceOf parted item).text 0 ∧
      (pieceOf parted item).metas = [] := by decide +kernel
  obtain ⟨htoken, hmetas⟩ := htokens item hitem
  refine ⟨htoken, ?_, ?_, fun form hform => ?_⟩
  · rw [hmetas]
    exact nofun
  · rw [hmetas]
    exact .nil
  · rcases hitem with _ | ⟨_, _ | ⟨_, _ | ⟨_, ⟨⟩⟩⟩⟩ <;> cases hform
    refine ⟨(parted.source.drop 6).take 12, by decide +kernel, by decide +kernel,
      by decide +kernel, ?_⟩
    intro d hd
    obtain rfl := List.mem_singleton.mp hd
    refine ⟨by decide +kernel, ?_⟩
    constructor <;> decide +kernel

theorem parted_wellSpanned : WellSpanned parted where
  ordered := by decide
  cut := by decide +kernel
  inside := nofun
  nested := by
    intro item hitem form hform
    rcases hitem with _ | ⟨_, _ | ⟨_, _ | ⟨_, ⟨⟩⟩⟩⟩ <;> cases hform
    decide
  pieces := fun _ => parted_piece

theorem parted_visible {item : Item} (hitem : item ∈ parted.items) :
    (pieceOf parted item).Visible := by
  have hmetas : ∀ item ∈ parted.items, (pieceOf parted item).metas = [] := by decide +kernel
  constructor
  · rw [hmetas item hitem]
    exact nofun
  · intro form hform
    rcases hitem with _ | ⟨_, _ | ⟨_, _ | ⟨_, ⟨⟩⟩⟩⟩ <;> cases hform
    intro d hd
    obtain rfl := List.mem_singleton.mp hd
    decide +kernel

theorem boundary_closed_iff_parted : ∃ c u textLeft textRight v,
    (convert {} "/a.js" 34 parted).1 = .ok c ∧
      c.body.toList = u ++ (textLeft ++ ('\n' :: (textRight ++ v))) ∧
      textRight.head? = some '(' ∧ Closed textLeft := by
  have hitems : parted.items = [] ++ ⟨⟨0, 18⟩, .exportDecl (.variable false
      [⟨⟨13, 18⟩, .array ⟨13, 16⟩ [some (.name ⟨14, 15⟩ "a")], some ⟨17, 18⟩⟩])⟩ ::
        ([⟨⟨19, 28⟩, .importFrom "x" [] false⟩] ++ ⟨⟨29, 34⟩, .statement⟩ :: []) := rfl
  have hinside : ∀ item ∈ parted.items, item.span.hi ≤ 34 := by decide
  obtain ⟨c, u, textLeft, textRight, v, hc, -, -, hbody, hopener, hclosed⟩ :=
    boundary_closed_iff {} "/a.js" parted_wellSpanned (fun _ => parted_visible)
      ⟨'a', by decide +kernel, by decide, by decide⟩ hinside (by decide) hitems (by decide) rfl rfl
      (by decide +kernel) (d := '(') (by decide +kernel) (by decide)
  have hmid : remains parted 29 18 false [⟨⟨19, 28⟩, .importFrom "x" [] false⟩] = ['\n'] := by
    decide +kernel
  refine ⟨c, u, textLeft, textRight, v, hc, ?_, hopener, hclosed.mpr rfl⟩
  have hbody' : c.body.toList = u ++ (textLeft ++
      (remains parted 29 18 false [⟨⟨19, 28⟩, .importFrom "x" [] false⟩] ++ (textRight ++ v))) :=
    hbody
  rwa [hmid] at hbody'

/-- Without the import that kept them apart, two statements become one. -/
theorem statements_joined : ∃ m c, Module.parse "f()\nimport 'a'\n(g)()" = .ok m ∧
    m.items.map Item.span = [⟨0, 3⟩, ⟨4, 14⟩, ⟨15, 20⟩] ∧
    (convert {} "/a.js" 20 m).1 = .ok c ∧ c.body = "f()\n(g)()" := by
  obtain ⟨m, hparse, hm⟩ : ∃ m, Module.parse "f()\nimport 'a'\n(g)()" = .ok m ∧
      (decide (m.items.map Item.span = [⟨0, 3⟩, ⟨4, 14⟩, ⟨15, 20⟩]) &&
        answers (fun c => decide (c.body = "f()\n(g)()")) (convert {} "/a.js" 20 m).1) = true :=
    exists_of_answers (by decide +kernel)
  obtain ⟨hspans, hbody⟩ := (Bool.and_eq_true _ _).mp hm
  obtain ⟨c, hc, htext⟩ := exists_of_answers hbody
  exact ⟨m, c, hparse, of_decide_eq_true hspans, hc, of_decide_eq_true htext⟩

end ModuleHost.Wrap
