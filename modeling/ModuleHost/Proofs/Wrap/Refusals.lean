import ModuleHost.Proofs.Wrap.Weave
import ModuleHost.Wrap.Transform

/-! Which modules are refused although they can be read: those with a comment in front of `default`,
and those with an `import.meta` in an item that is taken out or replaced as a whole. -/

namespace ModuleHost.Wrap

open ModuleHost.Syntax ModuleHost.Text ModuleHost.Wrap.Edit

/-- The beginning of a default export: between its two words there is white space, and then perhaps
something else that separates them, such as a comment. -/
structure DefaultWords (text blanks other rest : List Char) : Prop where
  text : text = Setting.exportWord ++ (blanks ++ (other ++ ("default".toList ++ rest)))
  blanks : ∀ c ∈ blanks, isBlank c = true
  other : ∀ c ∈ other.head?, isBlank c = false ∧ c ≠ 'd'

/-- Nothing but white space stands between the two words of a default export. -/
def Together (m : Module) (item : Item) : Prop :=
  ∀ name, exportForm? item.shape = some (.default name) →
    (behindKeywords (.default name) (pieceOf m item).text).isSome

/-- What a parser promises wherever comments stand. -/
structure Spanned (m : Module) : Prop where
  ordered : m.items.Pairwise fun a b => a.span.hi ≤ b.span.lo
  cut : ∀ item ∈ m.items, item.span.lo ≤ item.span.hi ∧ Boundary m.source item.span.lo ∧
    Boundary m.source item.span.hi
  inside : ∀ span ∈ m.metas, ∃ item ∈ m.items, span.within item.span
  metas : ∀ span ∈ m.metas, span.lo < span.hi
  nested : ∀ item ∈ m.items, ∀ form, exportForm? item.shape = some form →
    ∀ d ∈ declaratorsOf form, item.span.lo ≤ d.span.lo ∧ d.span.lo ≤ d.span.hi ∧
      ∀ value ∈ d.value, item.span.lo ≤ value.lo
  words : ∀ item ∈ m.items, ∀ name, exportForm? item.shape = some (.default name) →
    ∃ blanks other rest, DefaultWords (pieceOf m item).text blanks other rest
  pieces : ∀ item ∈ m.items, Together m item → (pieceOf m item).WellFormed

variable {m : Module} {item : Item} {items : List Item} {s : Setting} {span : Span}
  {text blanks other rest pre post : List Char} {first : Nat} {c done next : Contribution}
  {config : Config} {path : String} {bodyLength : Nat} {out : Converted}

theorem Spanned.wellSpanned (hm : Spanned m) (h : ∀ item ∈ m.items, Together m item) :
    WellSpanned m :=
  ⟨hm.ordered, hm.cut, hm.inside, hm.nested, fun item hitem => hm.pieces item hitem (h item hitem)⟩

namespace DefaultWords

theorem nonblank (h : DefaultWords text blanks other rest) : ∃ c u,
    other ++ ("default".toList ++ rest) = c :: u ∧ isBlank c = false ∧ (other = [] ↔ c = 'd') := by
  cases other with
  | nil => exact ⟨'d', _, rfl, by decide, iff_of_true rfl rfl⟩
  | cons c other =>
    obtain ⟨hblank, hd⟩ := h.other c rfl
    exact ⟨c, _, rfl, hblank, iff_of_false (List.cons_ne_nil _ _) hd⟩

theorem takeWhile_blank (h : DefaultWords text blanks other rest) :
    (blanks ++ (other ++ ("default".toList ++ rest))).takeWhile isBlank = blanks := by
  obtain ⟨c, u, hnext, hc, -⟩ := h.nonblank
  rw [hnext, List.takeWhile_append_of_pos h.blanks, List.takeWhile_cons, hc]
  exact List.append_nil blanks

theorem any (h : DefaultWords text blanks other rest) :
    (blanks ++ (other ++ ("default".toList ++ rest))).any (!isBlank ·) = true := by
  obtain ⟨c, u, hnext, hc, -⟩ := h.nonblank
  rw [hnext]
  simp [hc]

theorem together (h : DefaultWords text blanks [] rest) (name : Option String) :
    (behindKeywords (.default name) text).isSome := by
  have hexport := dropStart?_eq_some.mpr h.text
  have htrim : trimStart (blanks ++ ([] ++ ("default".toList ++ rest))) =
      "default".toList ++ rest := by
    have hsplit := List.takeWhile_append_dropWhile (p := isBlank)
      (l := blanks ++ ([] ++ ("default".toList ++ rest)))
    rw [h.takeWhile_blank] at hsplit
    exact List.append_cancel_left hsplit
  rw [behindKeywords, hexport, Option.bind_some, htrim, dropStart?_eq_some.mpr rfl]
  rfl

theorem replaceDefault (h : DefaultWords text blanks other rest)
    (hs : Stands s span pre text post) {new : String} {e : Edit}
    (hok : s.replaceDefault span new = .ok e) : other = [] := by
  obtain ⟨keyword, hkeyword, hok⟩ := bind_ok hok
  rw [hs.exportKeyword h.text] at hkeyword
  cases hkeyword
  have hblanks : s.blanksAt (byteLength pre + 6) = byteLength blanks := by
    have hbehind := hs.blanksBehind h.text h.any
    rwa [h.takeWhile_blank] at hbehind
  have hsource : s.source = pre ++ Setting.exportWord ++ blanks ++
      (other ++ ("default".toList ++ rest) ++ post) := by
    rw [hs.source, h.text]
    simp
  have hfrom : s.sourceFrom (byteLength pre + 6 + byteLength blanks) =
      other ++ ("default".toList ++ rest) ++ post := by
    have hsix : byteLength pre + 6 + byteLength blanks =
        byteLength (pre ++ Setting.exportWord ++ blanks) := by
      rw [byteLength_append, byteLength_append]
      rfl
    rw [hsix, Stands.sourceFrom_append hsource]
  obtain ⟨c, u, hnext, -, hc⟩ := h.nonblank
  rw [hnext] at hfrom
  dsimp only at hok
  rw [hblanks, hfrom] at hok
  split at hok
  · cases hok
  · rename_i hdefault
    rw [dropStart?_eq_some] at hdefault
    exact hc.mpr (List.head_eq_of_cons_eq hdefault)

end DefaultWords

theorem convertItems_each (h : s.convertItems done items = (c, none)) :
    (∀ e ∈ done.edits, e ∈ c.edits) ∧ ∀ item ∈ items, ∃ first next,
      s.convertItem first item = .ok next ∧ ∀ e ∈ next.edits, e ∈ c.edits := by
  induction items generalizing done with
  | nil =>
    cases h
    exact ⟨fun _ he => he, nofun⟩
  | cons item items ih =>
    rw [Setting.convertItems] at h
    split at h
    · rename_i next hnext
      obtain ⟨hkeep, hmore⟩ := ih h
      refine ⟨fun e he => hkeep e (List.mem_append_left _ he),
        List.forall_mem_cons.mpr ⟨⟨_, next, hnext, fun e he => ?_⟩, hmore⟩⟩
      exact hkeep e (List.mem_append_right _ he)
    · cases h

theorem whole_edit (h : s.convertItem first item = .ok next)
    (hgone : erased item.shape = true ∨ replacedWhole item.shape = true) :
    ∃ e ∈ next.edits, e.start = item.span.lo ∧ item.span.hi ≤ e.stop := by
  rcases hgone with herased | hreplaced
  · obtain ⟨c, hc, hedits, -⟩ := item_erased s first item herased
    rw [h] at hc
    cases hc
    rw [hedits]
    exact ⟨_, List.mem_singleton_self _, rfl, Nat.le_add_right _ _⟩
  · obtain ⟨form, hform, hreplaces⟩ := (Option.any_eq_true _ _).mp hreplaced
    rw [convertItem_export s first item hform] at h
    cases form with
    | localList entries =>
      cases h
      exact ⟨_, List.mem_singleton_self _, rfl, Nat.le_refl _⟩
    | reexportList entries source =>
      cases h
      unfold Setting.convertReexports
      dsimp only
      split
      · exact ⟨_, List.mem_singleton_self _, rfl, Nat.le_refl _⟩
      · rw [(resolutionOf_found s source _).1]
        exact ⟨_, List.mem_singleton_self _, rfl, Nat.le_refl _⟩
    | wildcard source =>
      have hedits : ∃ text, next.edits = [⟨item.span.lo, item.span.hi, text⟩] := by
        cases h
        exact ⟨_, (resolutionOf_found s source _).1⟩
      obtain ⟨text, hedits⟩ := hedits
      rw [hedits]
      exact ⟨_, List.mem_singleton_self _, rfl, Nat.le_refl _⟩
    | _ => cases hreplaces

theorem converted_together (h : (convert config path bodyLength m).1 = .ok out) (hitem : item ∈ m.items)
    (hcut : item.span.lo ≤ item.span.hi ∧ Boundary m.source item.span.lo ∧
      Boundary m.source item.span.hi)
    (hwords : ∀ name, exportForm? item.shape = some (.default name) →
      ∃ blanks other rest, DefaultWords (pieceOf m item).text blanks other rest) : Together m item := by
  intro name hform
  obtain ⟨done, hdone, -⟩ := convert_inv h
  obtain ⟨first, next, hnext, -⟩ := (convertItems_each hdone).2 item hitem
  obtain ⟨blanks, other, rest, hwords⟩ := hwords name hform
  obtain ⟨pre, post, hsource, hlo, hhi⟩ := source_cut hcut
  have hstands : Stands ⟨config, path, m.source, min bodyLength (byteLength m.source)⟩
      item.span pre (pieceOf m item).text post := ⟨hsource, hlo.symm, by rw [hlo, hhi]⟩
  rw [convertItem_export _ first item hform] at hnext
  obtain ⟨e, he, -⟩ := bind_ok hnext
  obtain rfl := hwords.replaceDefault hstands he
  exact hwords.together name

theorem converted_metasIn (h : (convert config path bodyLength m).1 = .ok out) (hitem : item ∈ m.items)
    (hmetas : ∀ span ∈ m.metas, span.lo < span.hi)
    (hgone : erased item.shape = true ∨ replacedWhole item.shape = true) : metasIn m item = [] := by
  obtain ⟨done, hdone, happly⟩ := convert_inv h
  obtain ⟨first, next, hnext, hkeep⟩ := (convertItems_each hdone).2 item hitem
  obtain ⟨e, he, hlo, hhi⟩ := whole_edit hnext hgone
  refine metasIn_nil fun span hspan hwithin => ?_
  have hapart := (List.pairwise_append.mp (applyAll_apart happly)).2.2 e (hkeep e he) _
    (List.mem_map_of_mem hspan)
  have hlt := hmetas span hspan
  simp only [Span.within, Bool.and_eq_true, decide_eq_true_eq] at hwithin
  rcases hapart with hbefore | hbehind
  · dsimp only at hbefore
    omega
  · dsimp only at hbehind
    omega

theorem convert_accepts_iff (config : Config) (path : String) (hm : Spanned m)
    (hbody : ∀ item ∈ m.items, item.span.hi ≤ bodyLength) :
    (∃ c, (convert config path bodyLength m).1 = .ok c) ↔ ∀ item ∈ m.items, Together m item ∧
      (erased item.shape = true ∨ replacedWhole item.shape = true → metasIn m item = []) := by
  constructor
  · rintro ⟨c, hc⟩ item hitem
    exact ⟨converted_together hc hitem (hm.cut item hitem) (hm.words item hitem),
      converted_metasIn hc hitem hm.metas⟩
  · intro h
    have hwell : WellSpanned m := hm.wellSpanned fun item hitem => (h item hitem).1
    obtain ⟨c, hc, -⟩ := hwell.converts config path hbody
      (fun item hitem herased => (h item hitem).2 (.inl herased))
      (fun item hitem hreplaced => (h item hitem).2 (.inr hreplaced))
    exact ⟨c, hc⟩

/-- A reference in the last line is no part of the body. -/
def bodyLengthOf (m : Module) (code : String) : Nat :=
  let split := SourceMap.split code.toList
  if (confirmedReference m split).isSome then byteLength split.body else byteLength code.toList

theorem transform_ok_iff {code : String} (h : Module.parse code = .ok m) :
    (∃ output, (transform config code path).1 = .ok output) ↔
      ∃ c, (convert config path (bodyLengthOf m code) m).1 = .ok c := by
  unfold transform bodyLengthOf
  rw [h]
  dsimp only
  rcases convert config path _ m with ⟨fault | c, events⟩
  · simp
  · simp

/-- A text that can be read is transformed, provided that its body takes in all items, exactly if
only white space stands in front of each `default` and every `import.meta` is in an item that
stays. -/
theorem transform_accepts_iff (config : Config) (path : String) {code : String}
    (h : Module.parse code = .ok m) (hm : Spanned m)
    (hbody : ∀ item ∈ m.items, item.span.hi ≤ bodyLengthOf m code) :
    (∃ output, (transform config code path).1 = .ok output) ↔ ∀ item ∈ m.items,
      Together m item ∧
      (erased item.shape = true ∨ replacedWhole item.shape = true → metasIn m item = []) :=
  (transform_ok_iff h).trans (convert_accepts_iff config path hm hbody)

def imported : Module where
  source :=
    ['i', 'm', 'p', 'o', 'r', 't', '\'', 'a', '\'', '\n',
      'e', 'x', 'p', 'o', 'r', 't', ' ', 'd', 'e', 'f', 'a', 'u', 'l', 't', ' ',
      'i', 'm', 'p', 'o', 'r', 't', '.', 'm', 'e', 't', 'a']
  items := [⟨⟨0, 9⟩, .importFrom "a" [] false⟩, ⟨⟨10, 36⟩, .exportDefaultExpr⟩]
  metas := [⟨25, 36⟩]
  lineComments := []

def isImported : Except Refusal Module → Bool
  | .ok ⟨source, [⟨first, .importFrom name [] false⟩, ⟨second, .exportDefaultExpr⟩], metas,
      comments⟩ =>
    decide (source = imported.source ∧ first = ⟨0, 9⟩ ∧ name = "a" ∧ second = ⟨10, 36⟩ ∧
      metas = imported.metas ∧ comments = [])
  | _ => false

theorem eq_imported {r : Except Refusal Module} (h : isImported r = true) : r = .ok imported := by
  unfold isImported at h
  split at h
  · obtain ⟨rfl, rfl, rfl, rfl, rfl, rfl⟩ := of_decide_eq_true h
    rfl
  · cases h

theorem parse_imported : Module.parse "import'a'\nexport default import.meta" = .ok imported :=
  eq_imported (by decide +kernel)

theorem imported_piece {item : Item} (hitem : item ∈ imported.items) :
    (pieceOf imported item).WellFormed := by
  have htokens : ∀ item ∈ imported.items, StartsToken (pieceOf imported item).text 0 ∧
      (∀ span ∈ (pieceOf imported item).metas, span.lo < span.hi ∧
        StartsToken (pieceOf imported item).text span.lo ∧
        Boundary (pieceOf imported item).text span.hi) ∧
      (pieceOf imported item).metas.Pairwise fun a b => a.hi ≤ b.lo ∨ b.hi ≤ a.lo := by
    decide +kernel
  obtain ⟨htoken, hmetas, hapart⟩ := htokens item hitem
  refine ⟨htoken, hmetas, hapart, fun form hform => ?_⟩
  rcases hitem with _ | ⟨_, _ | ⟨_, ⟨⟩⟩⟩ <;> cases hform
  exact ⟨imported.source.drop 24, by decide +kernel, by decide +kernel, by decide +kernel, nofun⟩

theorem imported_spanned : Spanned imported where
  ordered := by decide
  cut := by decide +kernel
  inside := by decide
  metas := by decide
  nested := by
    intro item hitem form hform
    rcases hitem with _ | ⟨_, _ | ⟨_, ⟨⟩⟩⟩ <;> cases hform
    exact nofun
  words := by
    intro item hitem name hform
    rcases hitem with _ | ⟨_, _ | ⟨_, ⟨⟩⟩⟩ <;> cases hform
    exact ⟨[' '], [], imported.source.drop 24, by decide +kernel, by simp [isBlank], nofun⟩
  pieces := fun _ hitem _ => imported_piece hitem

theorem transform_accepts_iff_imported :
    ∃ output, (transform {} "import'a'\nexport default import.meta" "/a.js").1 = .ok output := by
  refine (transform_accepts_iff {} "/a.js" parse_imported imported_spanned (by decide +kernel)).mpr
    fun item hitem => ⟨fun name hform => ?_, ?_⟩
  · rcases hitem with _ | ⟨_, _ | ⟨_, ⟨⟩⟩⟩ <;> cases hform
    decide +kernel
  · revert item
    decide

/-- A comment in front of `default` is enough for a refusal. -/
theorem transform_commented : (Module.parse "export/**/default 1;").toBool = true ∧
    (transform {} "export/**/default 1;" "/a.js").1 = .error (.emit "/a.js" .defaultKeyword) := by
  have hrun : (match (transform {} "export/**/default 1;" "/a.js").1 with
      | .error (.emit path .defaultKeyword) => decide (path = "/a.js")
      | _ => false) = true := by decide +kernel
  refine ⟨by decide +kernel, ?_⟩
  split at hrun
  · rename_i heq
    rw [heq, of_decide_eq_true hrun]
  · cases hrun

end ModuleHost.Wrap
