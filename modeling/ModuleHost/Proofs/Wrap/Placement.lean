import ModuleHost.Proofs.Wrap.Boundaries
import ModuleHost.Proofs.Wrap.Contributions
import ModuleHost.Proofs.Wrap.Refusals

/-! Where the items of a module are in its converted body. Each one is rewritten in its place, so a list
of exports reads a binding behind its declaration only if the list was written there. -/

namespace ModuleHost.Wrap

open ModuleHost.Syntax ModuleHost.Text ModuleHost.Wrap.Edit

variable {config : Config} {path name exported : String} {bodyLength first : Nat} {m : Module}
  {c : Converted} {item list decl : Item} {before after before' after' : List Item}
  {u u' text text' body : List Char} {entries : List ExportEntry}

/-- The text that an item has become in a body, and the text in front of it there. -/
structure Placed (config : Config) (m : Module) (body : List Char) (before : List Item) (item : Item)
    (ahead text : List Char) : Prop where
  front : woven config m item.span.lo 0 0 false before = .ok ahead
  becomes : (pieceOf m item).replacement config (temporariesBefore before) = .ok text
  stands : ahead ++ text <+: body

theorem woven_placed (hwoven : woven config m bodyLength 0 0 false m.items = .ok body)
    (hitems : m.items = before ++ item :: after) :
    ∃ ahead text, Placed config m body before item ahead text := by
  rw [hitems] at hwoven
  obtain ⟨u, text, v, hu, htext, -, rfl⟩ := woven_split hwoven
  rw [Nat.zero_add] at htext
  exact ⟨u, text, hu, htext, v, List.append_assoc _ _ _⟩

theorem split_behind {α : Type} {before after before' after' : List α} {a b : α}
    (h : before ++ a :: after = before' ++ b :: after') (hlt : before'.length < before.length) :
    ∃ mid, before = before' ++ b :: mid := by
  rcases List.append_eq_append_iff.mp h with ⟨w, rfl, -⟩ | ⟨w, rfl, hw⟩
  · rw [List.length_append] at hlt
    omega
  · cases w with
    | nil =>
      rw [List.append_nil] at hlt
      exact absurd hlt (Nat.lt_irrefl _)
    | cons x mid =>
      obtain ⟨rfl, -⟩ := List.cons.inj hw
      exact ⟨mid, rfl⟩

theorem Placed.behind (h : Placed config m body before item u text)
    (h' : Placed config m body before' decl u' text')
    (hitems : m.items = before ++ item :: after) (hitems' : m.items = before' ++ decl :: after')
    (hlt : before'.length < before.length) : u' ++ text' <+: u := by
  obtain ⟨mid, rfl⟩ := split_behind (hitems.symm.trans hitems') hlt
  obtain ⟨v, made, w, hv, hmade, -, rfl⟩ := woven_split h.front
  obtain rfl := Except.ok.inj (h'.front.symm.trans hv)
  rw [Nat.zero_add] at hmade
  obtain rfl := Except.ok.inj (h'.becomes.symm.trans hmade)
  exact ⟨w, List.append_assoc _ _ _⟩

theorem Placed.behind_iff (h : Placed config m body before item u text)
    (h' : Placed config m body before' decl u' text')
    (hitems : m.items = before ++ item :: after) (hitems' : m.items = before' ++ decl :: after')
    (hne : item ≠ decl) (htext : text ≠ []) :
    (u' ++ text' <+: u ↔ before'.length < before.length) ∧
      (u ++ text <+: u' ↔ before.length < before'.length) := by
  have hlength := List.length_pos_iff.mpr htext
  have hapart : before.length ≠ before'.length := by
    intro heq
    have hsplit := hitems.symm.trans hitems'
    obtain ⟨-, hcons⟩ := List.append_inj hsplit heq
    exact hne (List.cons.inj hcons).1
  -- the two cannot both be the earlier one
  have hnot : u' ++ text' <+: u → ¬u ++ text <+: u' := by
    intro hbehind hahead
    have hle := hbehind.length_le
    have hle' := hahead.length_le
    rw [List.length_append] at hle hle'
    omega
  constructor
  · refine ⟨fun hbehind => ?_, h.behind h' hitems hitems'⟩
    by_contra hlt
    exact hnot hbehind (h'.behind h hitems' hitems (by omega))
  · refine ⟨fun hahead => ?_, h'.behind h hitems' hitems⟩
    by_contra hlt
    exact hnot (h.behind h' hitems hitems' (by omega)) hahead

/-- An entry of a list of exports names what an exported declaration of a class or of variables
introduces. -/
structure Lists (list decl : Item) (name exported : String) : Prop where
  entry : ∃ entries renamed, list.shape = .exportList entries none false ∧
    .named name renamed false ∈ entries ∧ renamed.getD name = exported
  introduced : decl.shape = .exportDecl (.classDecl name false) ∨
    ∃ declarators, decl.shape = .exportDecl (.variable false declarators) ∧
      name ∈ declarators.flatMap Declarator.names

theorem Lists.ne (h : Lists list decl name exported) : list ≠ decl := by
  rintro rfl
  obtain ⟨entries, renamed, hshape, -⟩ := h.entry
  rcases h.introduced with hclass | ⟨declarators, hvariable, -⟩
  · exact nomatch hshape.symm.trans hclass
  · exact nomatch hshape.symm.trans hvariable

theorem replacement_list (hshape : item.shape = .exportList entries none false)
    (hmetas : metasIn m item = []) : (pieceOf m item).replacement config first =
      .ok (String.intercalate " " ((entries.filterMap ExportEntry.pair?).map fun pair =>
        assignText config.exportsIdent pair.2 pair.1)).toList := by
  have hform : exportForm? (pieceOf m item).item.shape = some (.localList entries) := by
    show exportForm? (item.shape.rebase _) = _
    rw [hshape]
    rfl
  have hnone : (pieceOf m item).metas = [] :=
    congrArg (List.map (Span.rebase item.span.lo)) hmetas
  have hconvert := convertItem_export ((pieceOf m item).setting config) first _ hform
  rw [Piece.replacement, hconvert, hnone]
  exact congrArg (Except.mapError EmitFault.edit) (applyAll_whole _)

theorem Lists.assigned (h : Lists list decl name exported) (hmetas : metasIn m list = [])
    (htext : (pieceOf m list).replacement config first = .ok text) :
    (assignText config.exportsIdent exported name).toList <:+: text := by
  obtain ⟨entries, renamed, hshape, hentry, rfl⟩ := h.entry
  rw [replacement_list hshape hmetas] at htext
  obtain rfl := Except.ok.inj htext
  have hpair : (name, renamed.getD name) ∈ entries.filterMap ExportEntry.pair? :=
    List.mem_filterMap.mpr ⟨_, hentry, rfl⟩
  have hmem : assignText config.exportsIdent (renamed.getD name) name ∈
      (entries.filterMap ExportEntry.pair?).map fun pair =>
        assignText config.exportsIdent pair.2 pair.1 := List.mem_map.mpr ⟨_, hpair, rfl⟩
  exact (Occurs.refl _).intercalate hmem " "

theorem Spanned.woven (hm : Spanned m) (hbody : ∀ item ∈ m.items, item.span.hi ≤ bodyLength)
    (h : (convert config path bodyLength m).1 = .ok c) :
    Wrap.woven config m (bodyEnd m.source bodyLength) 0 0 false m.items = .ok c.body.toList ∧
      ∀ item ∈ m.items, erased item.shape = true ∨ replacedWhole item.shape = true →
        metasIn m item = [] := by
  have haccepted := (convert_accepts_iff config path hm hbody).mp ⟨c, h⟩
  have hwell := hm.wellSpanned fun item hitem => (haccepted item hitem).1
  have hmetas := fun item hitem => (haccepted item hitem).2
  obtain ⟨c', hc', hwoven⟩ := hwell.converts config path hbody
    (fun item hitem herased => hmetas item hitem (.inl herased))
    (fun item hitem hwhole => hmetas item hitem (.inr hwhole))
  obtain rfl := Except.ok.inj (h.symm.trans hc')
  exact ⟨hwoven, hmetas⟩

/-- An entry of a list of exports is assigned where the list stood: behind the declaration that it
names exactly if the list was written behind it, and otherwise in front of it. -/
theorem entry_behind_declaration_iff (hm : Spanned m)
    (hbody : ∀ item ∈ m.items, item.span.hi ≤ bodyLength)
    (h : (convert config path bodyLength m).1 = .ok c) (hlists : Lists list decl name exported)
    (hlist : m.items = before ++ list :: after) (hdecl : m.items = before' ++ decl :: after') :
    ∃ u text u' text', Placed config m c.body.toList before list u text ∧
      Placed config m c.body.toList before' decl u' text' ∧
      (assignText config.exportsIdent exported name).toList <:+: text ∧
      (u' ++ text' <+: u ↔ before'.length < before.length) ∧
      (u ++ text <+: u' ↔ before.length < before'.length) := by
  obtain ⟨hwoven, hmetas⟩ := hm.woven hbody h
  obtain ⟨u, text, hplaced⟩ := woven_placed hwoven hlist
  obtain ⟨u', text', hplaced'⟩ := woven_placed hwoven hdecl
  have hmem : list ∈ m.items := by
    rw [hlist]
    exact List.mem_append_right _ List.mem_cons_self
  have hnone : metasIn m list = [] := by
    obtain ⟨entries, renamed, hshape, -⟩ := hlists.entry
    exact hmetas list hmem (.inr (by rw [hshape]; rfl))
  have hassigned := hlists.assigned hnone hplaced.becomes
  have htext : text ≠ [] := by
    rintro rfl
    have hempty := List.infix_nil.mp hassigned
    simp [assignText] at hempty
  obtain ⟨hbehind, hahead⟩ := hplaced.behind_iff hplaced' hlist hdecl hlists.ne htext
  exact ⟨u, text, u', text', hplaced, hplaced', hassigned, hbehind, hahead⟩

def listed : Module where
  source :=
    ['e', 'x', 'p', 'o', 'r', 't', ' ', 'l', 'e', 't', ' ', 'a', '=', '1', ';', 'e', 'x', 'p',
      'o', 'r', 't', '{', 'a', ' ', 'a', 's', ' ', 'b', '}']
  items :=
    [⟨⟨0, 15⟩, .exportDecl (.variable false [⟨⟨11, 14⟩, .name ⟨11, 12⟩ "a", some ⟨13, 14⟩⟩])⟩,
      ⟨⟨15, 29⟩, .exportList [.named "a" (some "b") false] none false⟩]
  metas := []
  lineComments := []

theorem listed_piece {item : Item} (hitem : item ∈ listed.items) :
    (pieceOf listed item).WellFormed := by
  have htokens : ∀ item ∈ listed.items, StartsToken (pieceOf listed item).text 0 ∧
      (pieceOf listed item).metas = [] := by decide +kernel
  obtain ⟨htoken, hmetas⟩ := htokens item hitem
  refine ⟨htoken, ?_, ?_, fun form hform => ?_⟩
  · rw [hmetas]
    exact nofun
  · rw [hmetas]
    exact .nil
  · rcases hitem with _ | ⟨_, _ | ⟨_, ⟨⟩⟩⟩ <;> cases hform
    · refine ⟨(listed.source.drop 6).take 9, by decide +kernel, by decide +kernel,
        by decide +kernel, ?_⟩
      intro d hd
      obtain rfl := List.mem_singleton.mp hd
      refine ⟨by decide +kernel, ?_⟩
      constructor <;> decide +kernel
    · exact ⟨listed.source.drop 21, by decide +kernel, by decide +kernel, by decide +kernel, nofun⟩

theorem listed_spanned : Spanned listed where
  ordered := by decide
  cut := by decide +kernel
  inside := nofun
  metas := nofun
  nested := by
    intro item hitem form hform
    rcases hitem with _ | ⟨_, _ | ⟨_, ⟨⟩⟩⟩ <;> cases hform
    · decide
    · exact nofun
  words := by
    intro item hitem name hform
    rcases hitem with _ | ⟨_, _ | ⟨_, ⟨⟩⟩⟩ <;> cases hform
  pieces := fun _ hitem _ => listed_piece hitem

theorem entry_behind_declaration_iff_listed : ∃ c u text u' text',
    (convert {} "/a.js" 29 listed).1 = .ok c ∧ u' ++ text' <+: u ∧ u ++ text <+: c.body.toList ∧
      "exports.b = a;".toList <:+: text := by
  have hinside : ∀ item ∈ listed.items, item.span.hi ≤ 29 := by decide
  have htogether : ∀ item ∈ listed.items, Together listed item := by
    intro item hitem name hform
    rcases hitem with _ | ⟨_, _ | ⟨_, ⟨⟩⟩⟩ <;> cases hform
  obtain ⟨c, hc⟩ := (convert_accepts_iff {} "/a.js" listed_spanned hinside).mpr fun item hitem =>
    ⟨htogether item hitem, fun _ => rfl⟩
  have hlist : listed.items =
      [⟨⟨0, 15⟩, .exportDecl (.variable false [⟨⟨11, 14⟩, .name ⟨11, 12⟩ "a", some ⟨13, 14⟩⟩])⟩] ++
        ⟨⟨15, 29⟩, .exportList [.named "a" (some "b") false] none false⟩ :: [] := rfl
  have hdecl : listed.items = [] ++
      ⟨⟨0, 15⟩, .exportDecl (.variable false [⟨⟨11, 14⟩, .name ⟨11, 12⟩ "a", some ⟨13, 14⟩⟩])⟩ ::
        [⟨⟨15, 29⟩, .exportList [.named "a" (some "b") false] none false⟩] := rfl
  obtain ⟨u, text, u', text', hplaced, -, hassigned, hbehind, -⟩ :=
    entry_behind_declaration_iff listed_spanned hinside hc
      ⟨⟨_, some "b", rfl, List.mem_singleton_self _, rfl⟩,
        .inr ⟨_, rfl, List.mem_singleton_self _⟩⟩ hlist hdecl
  exact ⟨c, u, text, u', text', hc, hbehind.mpr Nat.zero_lt_one, hplaced.stands, hassigned⟩

/-- A conversion records its edits in order of their place, and what they make of the body passes. -/
def recordsInOrder (config : Config) (path : String) (bodyLength : Nat) (m : Module)
    (passes : List Char → Bool) : Bool :=
  match (settingOf config path bodyLength m).convertItems {} m.items with
  | (done, none) =>
    let edits := done.edits ++ metaEdits config m.metas
    decide (edits.Pairwise Before) && answers passes (applyFrom (bodyText m bodyLength) 0 edits)
  | (_, some _) => false

theorem convert_recorded {p : List Char → Bool}
    (h : recordsInOrder config path bodyLength m p = true) :
    ∃ c, (convert config path bodyLength m).1 = .ok c ∧ p c.body.toList = true := by
  unfold recordsInOrder at h
  split at h
  · rename_i done hdone
    obtain ⟨hsorted, happly⟩ := (Bool.and_eq_true _ _).mp h
    obtain ⟨t, ht, hpasses⟩ := exists_of_answers happly
    have hall : applyAll (done.edits ++ metaEdits config m.metas) (bodyText m bodyLength) = .ok t := by
      rw [applyAll, List.mergeSort_of_pairwise (of_decide_eq_true hsorted)]
      exact ht
    obtain ⟨c, hc, rfl⟩ := convert_ok rfl hdone rfl hall
    exact ⟨c, hc, hpasses⟩
  · cases h

def convertsInOrder (config : Config) (path : String) (bodyLength : Nat) (m : Module)
    (text : List Char) : Bool := recordsInOrder config path bodyLength m fun t => decide (t = text)

theorem convert_in_order (h : convertsInOrder config path bodyLength m text = true) :
    ∃ c, (convert config path bodyLength m).1 = .ok c ∧ c.body.toList = text := by
  obtain ⟨c, hc, htext⟩ := convert_recorded (p := fun t => decide (t = text)) h
  exact ⟨c, hc, of_decide_eq_true htext⟩

def listsAhead : List Item → Bool
  | [⟨_, .exportList [.named listed (some renamed) false] none false⟩,
      ⟨_, .exportDecl (.variable false [⟨_, .name _ bound, _⟩])⟩] =>
    decide (listed = "a" ∧ renamed = "b" ∧ bound = "a")
  | _ => false

theorem lists_of_listsAhead {items : List Item} (h : listsAhead items = true) :
    ∃ list decl, items = [list, decl] ∧ Lists list decl "a" "b" := by
  unfold listsAhead at h
  split at h
  · obtain ⟨rfl, rfl, rfl⟩ := of_decide_eq_true h
    exact ⟨_, _, rfl, ⟨_, some "b", rfl, List.mem_singleton_self _, rfl⟩,
      .inr ⟨_, rfl, List.mem_singleton_self _⟩⟩
  · cases h

/-- A list in front of a declaration reads the constant before that has its value. -/
theorem entry_ahead_of_declaration : ∃ m c list decl,
    Module.parse "export \x7b a as b \x7d;\nexport const a = 1;" = .ok m ∧
    m.items = [list, decl] ∧ Lists list decl "a" "b" ∧
    (convert {} "/a.js" 38 m).1 = .ok c ∧
    c.body = "exports.b = a;\nconst a = exports.a = 1;" := by
  obtain ⟨m, hparse, hm⟩ : ∃ m,
      Module.parse "export \x7b a as b \x7d;\nexport const a = 1;" = .ok m ∧
      (listsAhead m.items && convertsInOrder {} "/a.js" 38 m
        "exports.b = a;\nconst a = exports.a = 1;".toList) = true :=
    exists_of_answers (by decide +kernel)
  obtain ⟨hitems, hconvert⟩ := (Bool.and_eq_true _ _).mp hm
  obtain ⟨list, decl, hboth, hlists⟩ := lists_of_listsAhead hitems
  obtain ⟨c, hc, hbody⟩ := convert_in_order hconvert
  exact ⟨m, c, list, decl, hparse, hboth, hlists, hc, String.toList_inj.mp hbody⟩

end ModuleHost.Wrap
