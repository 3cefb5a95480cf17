import ModuleHost.Proofs.Wrap.Exported
import ModuleHost.Proofs.Wrap.Scattered

/-! Exported variables. What their statement has become is its text with something written into the
declarators of single names, one declarator after the other, and the names of patterns behind it. -/

namespace ModuleHost.Wrap

open ModuleHost.Syntax ModuleHost.Text ModuleHost.Wrap.Edit

def written? (exports : String) (d : Declarator) : Option (Nat × String) :=
  match d.target, d.value with
  | .name _ name, some value => some (value.lo, member exports name ++ " = ")
  | .name _ name, none => some (d.span.hi, " = " ++ member exports name ++ " = undefined")
  | _, _ => none

/-- A statement from `cursor` on. The stretch up to where something is written stays as it is, apart
from the metas in it, which come in order. -/
def writtenFrom (config : Config) (text : List Char) (cursor : Nat) (metas : List Span) :
    List Declarator → List Char
  | [] => named config.importMetaIdent.toList text cursor metas
  | d :: more =>
    match written? config.exportsIdent d with
    | none => writtenFrom config text cursor metas more
    | some (at', new) =>
      named config.importMetaIdent.toList (upTo text at') cursor (metas.takeWhile (·.hi ≤ at')) ++
        new.toList ++ writtenFrom config text at' (metas.dropWhile (·.hi ≤ at')) more

/-- What follows a statement whose patterns bind some names at their top level. -/
def behindStatement (exports : String) (text : List Char) (names : List String) : String :=
  if names.isEmpty then ""
  else
    (if (trimEnd text).getLast? = some ';' then "" else ";") ++ " " ++
      String.intercalate " " (names.map fun name => assignText exports name name)

/-- Declarators come one behind the other, each with its value inside. -/
structure Nested (declarators : List Declarator) : Prop where
  ordered : declarators.Pairwise fun a b => a.span.hi ≤ b.span.lo
  values : ∀ d ∈ declarators, ∀ value ∈ d.value, value.lo ≤ d.span.hi

variable {config : Config} {path : String} {bodyLength first cursor n : Nat} {m : Module}
  {c : Converted} {item : Item} {before after : List Item} {declarators : List Declarator}
  {d : Declarator} {p : Piece} {text t rest : List Char} {spans : List Span} {s : Setting}
  {B E : List Edit} {e : Edit}

theorem assigned_written (s : Setting) (d : Declarator) : assigned s d =
    (written? s.config.exportsIdent d).map fun place => .insert place.1 place.2 := by
  obtain ⟨span, target, value⟩ := d
  cases target <;> cases value <;> rfl

theorem written_place {exports new : String} (hd : DeclaratorFits text spans d)
    (hvalue : ∀ value ∈ d.value, value.lo ≤ d.span.hi) (h : written? exports d = some (n, new)) :
    Boundary text n ∧ d.span.lo ≤ n ∧ n ≤ d.span.hi ∧
      ∀ span ∈ spans, n ≤ span.lo ∨ span.hi ≤ n := by
  unfold written? at h
  split at h
  · rename_i value _ hsome
    cases h
    obtain ⟨hlo, hcut⟩ := hd.value value hsome
    exact ⟨hcut, hlo, hvalue value hsome, fun span hspan => (hd.metas span hspan).2 value hsome⟩
  · cases h
    exact ⟨hd.cut, hd.nonempty, Nat.le_refl _, fun span hspan => (hd.metas span hspan).1⟩
  · cases h

theorem Nested.tail (h : Nested (d :: declarators)) : Nested declarators :=
  ⟨h.ordered.tail, (List.forall_mem_cons.mp h.values).2⟩

theorem DeclaratorFits.mono {spans' : List Span} (h : DeclaratorFits text spans d)
    (hsub : spans' ⊆ spans) : DeclaratorFits text spans' d :=
  ⟨h.token, h.nonempty, h.cut, h.value, fun span hspan => h.metas span (hsub hspan)⟩

/-- What may stand behind a statement. -/
structure Closes (text : List Char) (tail : List Edit) : Prop where
  form : tail = [] ∨ ∃ new, tail = [.insert (byteLength text) new]

def textsOf (edits : List Edit) : List Char := edits.flatMap (·.text.toList)

theorem Ahead.apply_closed {tail : List Edit} (h : Ahead text cursor spans) (config : Config)
    (htail : Closes text tail) : applyFrom text cursor (Edit.sorted (tail ++ metaEdits config spans)) =
      .ok (named config.importMetaIdent.toList text cursor spans ++ textsOf tail) := by
  have hsorted : Edit.sorted (tail ++ metaEdits config spans) = metaEdits config spans ++ tail := by
    rcases htail.form with rfl | ⟨new, rfl⟩
    · rw [List.nil_append, List.append_nil, h.sorted config]
    · have hmetas : ∀ b ∈ metaEdits config spans, b.start < b.stop ∧ b.stop ≤ byteLength text := by
        intro b hb
        obtain ⟨-, span, hspan, hlo, hhi⟩ := mem_metaEdits hb
        obtain ⟨-, hlt, -, hcut⟩ := h.metas span hspan
        exact ⟨hlo ▸ hhi ▸ hlt, hhi ▸ hcut.le⟩
      have hend := sorted_insert_end (G := []) (s := new) nofun hmetas
        fun b hb => (mem_metaEdits hb).1
      rw [List.nil_append, List.nil_append, h.sorted config] at hend
      exact hend
  have hlast : applyFrom text (byteLength text) tail = .ok (textsOf tail) := by
    have hdrop : dropBytes? text (byteLength text) = some [] :=
      dropBytes?_eq_some.mpr ⟨text, (List.append_nil text).symm, rfl⟩
    rcases htail.form with rfl | ⟨new, rfl⟩
    · rw [applyFrom, hdrop]
      rfl
    · rw [applyFrom_insert boundary_end, applyFrom, hdrop]
      rfl
  have hbehind : ∀ e ∈ tail.head?, byteLength text ≤ e.start := by
    intro e he
    rcases htail.form with rfl | ⟨new, rfl⟩
    · cases he
    · cases he
      exact Nat.le_refl _
  rw [hsorted, h.apply config boundary_end h.cut.le (fun span hspan => (h.metas span hspan).2.2.2.le)
    hbehind, hlast, upTo_end]
  rfl

theorem inserted_behind {tail : List Edit} (hn : n ≤ byteLength text)
    (hstart : ∀ d ∈ declarators, n ≤ d.span.lo) (hnested : Nested declarators)
    (hfits : ∀ d ∈ declarators, DeclaratorFits text spans d) (htail : Closes text tail) :
    ∀ e ∈ declarators.filterMap (assigned s) ++ tail, n ≤ e.start ∧ e.start = e.stop := by
  intro e he
  rcases List.mem_append.mp he with he | he
  · obtain ⟨d, hd, hassigned⟩ := List.mem_filterMap.mp he
    rw [assigned_written] at hassigned
    obtain ⟨⟨k, new⟩, hwritten, rfl⟩ := Option.map_eq_some_iff.mp hassigned
    obtain ⟨-, hlo, -, -⟩ := written_place (hfits d hd) (hnested.values d hd) hwritten
    exact ⟨(hstart d hd).trans hlo, rfl⟩
  · rcases htail.form with rfl | ⟨new, rfl⟩
    · cases he
    · obtain rfl := List.mem_singleton.mp he
      exact ⟨hn, rfl⟩

theorem applyFrom_written {tail : List Edit} (h : Ahead text cursor spans)
    (hcursor : ∀ d ∈ declarators, cursor ≤ d.span.lo) (hnested : Nested declarators)
    (hfits : ∀ d ∈ declarators, DeclaratorFits text spans d) (htail : Closes text tail) :
    applyFrom text cursor
        (sorted (declarators.filterMap (assigned s) ++ tail ++ metaEdits s.config spans)) =
      .ok (writtenFrom s.config text cursor spans declarators ++ textsOf tail) := by
  -- every declarator that is written to takes the cursor to its place and the uses of
  -- `import.meta` in front of it off the list, so both are general
  induction declarators generalizing cursor spans with
  | nil => exact h.apply_closed s.config htail
  | cons d declarators ih =>
    obtain ⟨hfirst, hlater⟩ := List.forall_mem_cons.mp hcursor
    obtain ⟨hd, hmore⟩ := List.forall_mem_cons.mp hfits
    obtain ⟨hahead, -⟩ := List.pairwise_cons.mp hnested.ordered
    cases hwritten : written? s.config.exportsIdent d with
    | none =>
      have hnone : assigned s d = none := by rw [assigned_written, hwritten]; rfl
      rw [List.filterMap_cons_none hnone, writtenFrom, hwritten]
      exact ih h hlater hnested.tail hmore
    | some place =>
      obtain ⟨n, new⟩ := place
      have hsome : assigned s d = some (.insert n new) := by rw [assigned_written, hwritten]; rfl
      obtain ⟨hn, hlo, hhi, hapart⟩ :=
        written_place hd (hnested.values d List.mem_cons_self) hwritten
      have hinserted := inserted_behind (s := s) hn.le (fun d' hd' => hhi.trans (hahead d' hd'))
        hnested.tail hmore htail
      obtain ⟨A, hA⟩ : ∃ A, A = spans.takeWhile (·.hi ≤ n) := ⟨_, rfl⟩
      obtain ⟨B, hB⟩ : ∃ B, B = spans.dropWhile (·.hi ≤ n) := ⟨_, rfl⟩
      have hsplit : spans = A ++ B := by rw [hA, hB, List.takeWhile_append_dropWhile]
      have hAhead : Ahead text cursor A := hA ▸ h.takeWhile
      have hBehind : Ahead text n B := hB ▸ h.behind hn hapart
      have hAend : ∀ span ∈ A, span.hi ≤ n := hA ▸ Ahead.takeWhile_le
      have hstart : ∀ d' ∈ declarators, n ≤ d'.span.lo := fun d' hd' => hhi.trans (hahead d' hd')
      have hstep : writtenFrom s.config text cursor spans (d :: declarators) =
          named s.config.importMetaIdent.toList (upTo text n) cursor A ++ new.toList ++
            writtenFrom s.config text n B declarators := by
        rw [writtenFrom, hwritten, hA, hB]
      have hsorted := hAhead.sorted_around s.config (e := .insert n new) hAend (Nat.le_refl n)
        fun e he => (List.mem_append.mp he).elim
          (fun he => ⟨(hinserted e he).1, (hinserted e he).2.le⟩) (hBehind.edits_behind s.config e)
      have hrest := ih hBehind hstart hnested.tail
        fun d' hd' => (hmore d' hd').mono (hB ▸ (List.dropWhile_sublist _).subset)
      have hmeta := hAhead.apply s.config hn (hfirst.trans hlo) hAend
        (B := .insert n new :: sorted (declarators.filterMap (assigned s) ++ tail ++
          metaEdits s.config B)) fun e he => by
            cases he
            exact Nat.le_refl _
      rw [List.filterMap_cons_some hsome, hstep, hsplit, List.cons_append, hsorted, hmeta,
        applyFrom_insert hn, hrest]
      simp [Except.map]

theorem closing_texts (text : List Char) (added : String) : Closes text (closing text added) ∧
    textsOf (closing text added) = ((if (trimEnd text).getLast? = some ';' then "" else ";") ++
      (if added.isEmpty then "" else " " ++ added)).toList := by
  obtain ⟨appended, happended⟩ : ∃ appended, appended =
      (if (trimEnd text).getLast? = some ';' then "" else ";") ++
        (if added.isEmpty then "" else " " ++ added) := ⟨_, rfl⟩
  have hclosing : closing text added =
      if appended.isEmpty then [] else [.insert (byteLength text) appended] := by
    rw [happended]
    rfl
  rw [hclosing, ← happended]
  split
  · rename_i hempty
    obtain rfl := String.isEmpty_iff.mp hempty
    exact ⟨⟨.inl rfl⟩, rfl⟩
  · exact ⟨⟨.inr ⟨_, rfl⟩⟩, List.append_nil _⟩

def behindEdits (s : Setting) (text : List Char) (names : List String) : List Edit :=
  if names.isEmpty then []
  else closing text (String.intercalate " " (names.map fun name => s.assignment name name))

theorem behindEdits_texts (s : Setting) (text : List Char) (names : List String) :
    Closes text (behindEdits s text names) ∧ textsOf (behindEdits s text names) =
      (behindStatement s.config.exportsIdent text names).toList := by
  unfold behindEdits behindStatement
  split
  · exact ⟨⟨.inl rfl⟩, rfl⟩
  · rename_i hsome
    have hne : names ≠ [] := fun hnil => hsome (List.isEmpty_iff.mpr hnil)
    have hadded : (String.intercalate " " (names.map fun name => s.assignment name name)).isEmpty =
        false := String.isEmpty_eq_false_iff.mpr (assignments_ne_empty s names id id hne)
    obtain ⟨hcloses, htexts⟩ := closing_texts text
      (String.intercalate " " (names.map fun name => s.assignment name name))
    rw [hadded, if_neg Bool.false_ne_true, ← String.append_assoc] at htexts
    exact ⟨hcloses, htexts⟩

theorem applyFrom_removal {X : List Edit} (config : Config) (hahead : Ahead text n spans)
    (hX : ∀ e ∈ X, n ≤ e.start ∧ e.start = e.stop) :
    applyFrom text 0 (sorted (.remove 0 n :: X ++ metaEdits config spans)) =
      applyFrom text n (sorted (X ++ metaEdits config spans)) := by
  have hfirst : sorted (.remove 0 n :: X ++ metaEdits config spans) =
      .remove 0 n :: sorted (X ++ metaEdits config spans) := by
    refine sorted_first (Nat.zero_le n) fun b hb => ?_
    rcases List.mem_append.mp hb with hb | hb
    · exact ⟨(hX b hb).1, (hX b hb).2.le⟩
    · exact hahead.edits_behind config b hb
  have hnone : slice? text 0 0 = some [] := slice?_eq_some.mpr ⟨[], text, rfl, rfl, rfl⟩
  rw [hfirst, applyFrom_cons (e := .remove 0 n) (Nat.le_refl 0) (Nat.zero_le n) hahead.cut.le hnone]
  show (applyFrom text n _).map _ = _
  cases applyFrom text n (sorted (X ++ metaEdits config spans)) <;> rfl

theorem replacement_variable (hp : p.WellFormed) (hnested : Nested declarators)
    (hform : exportForm? p.shape = some (.variable declarators)) (config : Config) (first : Nat) :
    ∃ blanks rest, p.text = Setting.exportWord ++ (blanks ++ rest) ∧
      (∀ b ∈ blanks, isBlank b = true) ∧ (∀ b ∈ rest.head?, isBlank b = false) ∧
      p.replacement config first = .ok (writtenFrom config p.text
        (byteLength (Setting.exportWord ++ blanks)) (byPlace p.metas) declarators ++
          (behindStatement config.exportsIdent p.text
            (declarators.flatMap fun d => topLevelBindings d.target)).toList) := by
  obtain ⟨rest, hkey, hfitting, hreplacement⟩ :=
    hp.replacement_export hform nofun nofun config first
  have htext : p.text = Setting.exportWord ++ (rest.takeWhile isBlank ++ rest.dropWhile isBlank) := by
    rw [List.takeWhile_append_dropWhile]
    exact dropStart?_eq_some.mp hkey.keywords
  have hcursor : byteLength (Setting.exportWord ++ rest.takeWhile isBlank) =
      headLength p.text rest := by
    rw [headLength, dropStart?_eq_some.mp hkey.keywords, byteLength_append, byteLength_append,
      Nat.add_sub_cancel]
  have hahead : Ahead p.text (headLength p.text rest) (byPlace p.metas) := by
    refine ⟨hkey.boundary.2, fun span hspan => ?_, byPlace_chain hp⟩
    have hmem : span ∈ p.metas := mem_byPlace.mp hspan
    obtain ⟨hlt, htoken, hcut⟩ := hp.metas span hmem
    exact ⟨hkey.headLength_le htoken (hkey.metas span hmem), hlt, htoken.boundary, hcut⟩
  have hstart : ∀ d ∈ declarators, headLength p.text rest ≤ d.span.lo := by
    intro d hd
    obtain ⟨hbehind, hfits⟩ := hkey.declarators d hd
    exact hkey.headLength_le hfits.token hbehind
  have hfits : ∀ d ∈ declarators, DeclaratorFits p.text (byPlace p.metas) d := fun d hd =>
    (hkey.declarators d hd).2.mono fun _ => mem_byPlace.mp
  obtain ⟨hcloses, htexts⟩ := behindEdits_texts (p.setting config) p.text
    (declarators.flatMap fun d => topLevelBindings d.target)
  have hwritten := applyFrom_written (s := p.setting config) hahead hstart hnested hfits hcloses
  have hinserted := inserted_behind (s := p.setting config) hkey.boundary.2.le hstart hnested hfits
    hcloses
  refine ⟨_, _, htext, fun b hb => List.mem_takeWhile_imp hb, ?_, ?_⟩
  · intro b hb
    have hfirst := List.head?_dropWhile_not isBlank rest
    rw [hb] at hfirst
    exact hfirst
  · rw [htexts] at hwritten
    -- the removal of the keyword leaves the cursor behind it
    have hremoved := applyFrom_removal config hahead hinserted
    have hedits : applyAll (exportEdits (p.setting config) first p.text rest (.variable declarators) ++
        metaEdits config p.metas) p.text = applyFrom p.text (headLength p.text rest)
          (sorted (declarators.filterMap (assigned (p.setting config)) ++ behindEdits (p.setting config)
            p.text (declarators.flatMap fun d => topLevelBindings d.target) ++
              metaEdits config (byPlace p.metas))) := by
      rw [← hremoved]
      exact congrArg (applyFrom p.text 0) (sorted_metas (List.mergeSort_perm p.metas _).symm _ config)
    rw [hreplacement, hcursor, hedits]
    exact congrArg (Except.mapError _) hwritten

theorem Nested.rebase (h : Nested declarators) (n : Nat) :
    Nested (declarators.map (Declarator.rebase n)) where
  ordered := List.pairwise_map.mpr (h.ordered.imp fun hab => Nat.sub_le_sub_right hab n)
  values := by
    rw [List.forall_mem_map]
    intro d hd value hvalue
    obtain ⟨value', hvalue', rfl⟩ := Option.mem_map.mp hvalue
    exact Nat.sub_le_sub_right (h.values d hd value' hvalue') n

/-- An exported statement of variables stays where it was, without `export` and the white space behind
that. It is written into each of its declarators that has a single name, its metas are renamed, and
the names of its patterns are assigned behind it. -/
theorem variables_rewritten (hm : Scattered m) (hbody : ∀ item ∈ m.items, item.span.hi ≤ bodyLength)
    (h : (convert config path bodyLength m).1 = .ok c) (hitems : m.items = before ++ item :: after)
    (hshape : item.shape = .exportDecl (.variable false declarators)) (hnested : Nested declarators) :
    ∃ ahead text blanks rest,
      Rewritten config path bodyLength m c.body.toList before item ahead text ∧
      (pieceOf m item).text = Setting.exportWord ++ (blanks ++ rest) ∧
      (∀ b ∈ blanks, isBlank b = true) ∧ (∀ b ∈ rest.head?, isBlank b = false) ∧
      text = writtenFrom config (pieceOf m item).text (byteLength (Setting.exportWord ++ blanks))
          (byPlace (pieceOf m item).metas) (declarators.map (Declarator.rebase item.span.lo)) ++
        (behindStatement config.exportsIdent (pieceOf m item).text
          (declarators.flatMap fun d => topLevelBindings d.target)).toList := by
  obtain ⟨ahead, text, hrewritten⟩ := hm.rewritten hbody h hitems
  have hitem : item ∈ m.items := hitems ▸ List.mem_append_right _ List.mem_cons_self
  have htogether : Together (itemMetas m) item := by
    intro name hform
    rw [hshape] at hform
    cases hform
  have hpiece := hm.items.pieces item hitem htogether
  rw [pieceOf_itemMetas hitem] at hpiece
  have hform : exportForm? (pieceOf m item).shape =
      some (.variable (declarators.map (Declarator.rebase item.span.lo))) := by
    show exportForm? (item.shape.rebase _) = _
    rw [hshape]
    rfl
  have hnames : (declarators.map (Declarator.rebase item.span.lo)).flatMap
      (fun d => topLevelBindings d.target) =
        declarators.flatMap fun d => topLevelBindings d.target := by
    rw [List.flatMap_map]
    congr 1
    funext d
    exact topLevelBindings_rebase _ _
  obtain ⟨blanks, rest, htext, hblanks, hrest, hreplaced⟩ :=
    replacement_variable hpiece (hnested.rebase _) hform config (temporariesBefore before)
  rw [hnames] at hreplaced
  exact ⟨ahead, text, blanks, rest, hrewritten, htext, hblanks, hrest,
    Except.ok.inj (hrewritten.becomes.symm.trans hreplaced)⟩

def assorted : Module where
  source :=
    ['e', 'x', 'p', 'o', 'r', 't', ' ', 'l', 'e', 't', ' ', 'a', '=', 'i', 'm', 'p', 'o', 'r',
     't', '.', 'm', 'e', 't', 'a', ',', '{', 'b', '}', '=', 'f', '(', ')', ',', 'c']
  items :=
    [⟨⟨0, 34⟩, .exportDecl (.variable false
      [⟨⟨11, 24⟩, .name ⟨11, 12⟩ "a", some ⟨13, 24⟩⟩,
        ⟨⟨25, 32⟩, .object ⟨25, 28⟩ [.short ⟨26, 27⟩ "b"], some ⟨29, 32⟩⟩,
        ⟨⟨33, 34⟩, .name ⟨33, 34⟩ "c", none⟩])⟩]
  metas := [⟨13, 24⟩]
  lineComments := []

theorem assorted_spanned : Spanned assorted where
  ordered := List.pairwise_singleton _ _
  cut := by decide +kernel
  inside := by
    intro span hspan
    obtain rfl := List.mem_singleton.mp hspan
    exact ⟨_, List.mem_singleton_self _, by decide⟩
  metas := by decide
  nested := by
    intro item hitem form hform
    obtain rfl := List.mem_singleton.mp hitem
    cases hform
    decide
  words := by
    intro item hitem name hform
    obtain rfl := List.mem_singleton.mp hitem
    cases hform
  pieces := by
    intro item hitem _
    obtain rfl := List.mem_singleton.mp hitem
    refine ⟨by decide +kernel, by decide +kernel, List.pairwise_singleton _ _, fun form hform => ?_⟩
    cases hform
    refine ⟨assorted.source.drop 6, by decide +kernel, by decide +kernel, by decide +kernel, ?_⟩
    intro d hd
    rcases hd with _ | ⟨_, _ | ⟨_, _ | ⟨_, ⟨⟩⟩⟩⟩
    all_goals
      refine ⟨by decide +kernel, ?_⟩
      constructor <;> decide +kernel

theorem variables_rewritten_assorted : ∃ c ahead text,
    (convert { exportsIdent := "e", importMetaIdent := "m" } "/a.js" 34 assorted).1 = .ok c ∧
      ahead ++ text <+: c.body.toList ∧
      text = "let a=e.a = m,\x7bb\x7d=f(),c = e.c = undefined; e.b = b;".toList := by
  have hinside : ∀ item ∈ assorted.items, item.span.hi ≤ 34 := by decide
  have haccepted : ∀ item ∈ assorted.items, Together assorted item ∧
      (erased item.shape = true ∨ replacedWhole item.shape = true → metasIn assorted item = []) := by
    intro item hitem
    obtain rfl := List.mem_singleton.mp hitem
    refine ⟨fun name hform => ?_, by decide⟩
    cases hform
  obtain ⟨c, hc⟩ := (convert_accepts_iff _ "/a.js" assorted_spanned hinside).mpr haccepted
  have hscattered : Scattered assorted :=
    ⟨assorted_spanned, by decide +kernel, List.pairwise_singleton _ _, by decide⟩
  obtain ⟨ahead, text, blanks, rest, hrewritten, htext, hblanks, hrest, hwritten⟩ :=
    variables_rewritten hscattered hinside hc (show assorted.items = [] ++ _ :: [] from rfl) rfl
      ⟨by decide, by decide⟩
  obtain rfl : [' '] = blanks := by
    have hexact := takeWhile_exact hblanks hrest
    have hbehind : blanks ++ rest = (pieceOf assorted ⟨⟨0, 34⟩, _⟩).text.drop 6 :=
      (congrArg (List.drop 6) htext).symm
    rw [← hexact, hbehind]
    decide +kernel
  refine ⟨c, ahead, text, hc, hrewritten.stands, hwritten.trans ?_⟩
  decide +kernel

end ModuleHost.Wrap
