import ModuleHost.Syntax.Parse

/-! What the reader of a module makes of an import declaration: at most one default, and behind it
either a namespace or a list of names. -/

namespace ModuleHost.Syntax

def ImportClause (entries : List ImportEntry) : Prop :=
  ∃ (first : Option String) (rest : List ImportEntry),
    entries = (first.map .defaultAs).toList ++ rest ∧
      ((∃ name, rest = [.namespaceAs name]) ∨
        ∀ e ∈ rest, ∃ imported name typeOnly, e = .named imported name typeOnly)

def ClauseShaped (shape : ItemShape) : Prop :=
  ∀ source entries typeOnly, shape = .importFrom source entries typeOnly → ImportClause entries

namespace Read

/-- A round leads to another one from a good state, or to a good result. -/
def Step.Keeps {σ β : Type} (I : σ → Prop) (P : β → Prop) : Step σ β → Prop
  | .again state => I state
  | .done b => P b

/-- Whatever a reading yields has a property. -/
def Yields {α : Type} (x : Read α) (P : α → Prop) : Prop :=
  ∀ s a s', x s = .ok a s' → P a

variable {α β σ : Type} {x : Read α} {f : α → Read β} {P : β → Prop} {Q : α → Prop} {g : Grammar}

namespace Yields

theorem bind (hx : Yields x Q) (hf : ∀ a, Q a → Yields (f a) P) : Yields (x >>= f) P := by
  intro s b s' h
  have hbind : EStateM.bind x f s = .ok b s' := h
  unfold EStateM.bind at hbind
  split at hbind
  · rename_i a t ha
    exact hf a (hx s a t ha) t b s' hbind
  · cases hbind

theorem andThen (hf : ∀ a, Yields (f a) P) : Yields (x >>= f) P :=
  bind (Q := fun _ => True) (fun _ _ _ _ => trivial) fun a _ => hf a

theorem pure {b : β} (h : P b) : Yields (Pure.pure b : Read β) P := by
  intro s a s' hok
  cases hok
  exact h

theorem ite {c : Prop} [Decidable c] {y z : Read β} (hy : Yields y P) (hz : Yields z P) :
    Yields (if c then y else z) P := by
  split
  · exact hy
  · exact hz

theorem map {k : β → α} {y : Read β} (hy : Yields y fun b => Q (k b)) : Yields (k <$> y) Q := by
  intro s a s' h
  have hmap : EStateM.map k y s = .ok a s' := h
  unfold EStateM.map at hmap
  split at hmap
  · rename_i b t hb
    cases hmap
    exact hy s b _ hb
  · cases hmap

/-- What holds before a first round, and is kept from round to round, holds of the result. -/
theorem iterateN {I : σ → Prop} {step : σ → Read (Step σ β)}
    (hstep : ∀ state, I state → Yields (step state) (Step.Keeps I P)) (n : Nat) {state : σ}
    (hI : I state) :
    Yields (Read.iterateN n step state) P := by
  induction n generalizing state with
  | zero =>
    intro s a s' h
    cases h
  | succ n ih =>
    refine bind (hstep state hI) fun r hr => ?_
    cases r with
    | again state => exact ih hr
    | done b => exact pure hr

theorem iterate {I : σ → Prop} {step : σ → Read (Step σ β)}
    (hstep : ∀ state, I state → Yields (step state) (Step.Keeps I P)) {state : σ} (hI : I state) :
    Yields (Read.iterate step state) P :=
  andThen fun _ => iterateN hstep _ hI

theorem withFlags {change : Flags → Flags} (hx : Yields x Q) :
    Yields (Read.withFlags change x) Q := by
  intro s a s' h
  unfold Read.withFlags at h
  split at h
  · rename_i b t hb
    cases h
    exact hx _ _ _ hb
  · cases h

theorem collectWhile {condition : Read Bool} (hx : Yields x Q) :
    Yields (Read.collectWhile condition x) fun taken => ∀ a ∈ taken, Q a := by
  refine map (iterate (I := fun taken => ∀ a ∈ taken, Q a) (fun taken htaken => ?_) nofun)
  refine andThen fun more => ite ?_ ?_
  · refine bind hx fun a ha => pure ?_
    exact List.forall_mem_cons.mpr ⟨ha, htaken⟩
  · refine pure fun a ha => htaken a (List.mem_reverse.mp ha)

end Yields

def IsNamed (e : ImportEntry) : Prop := ∃ imported name typeOnly, e = .named imported name typeOnly

theorem importEntryAfter_named (imported : String) (here : Span) (typeOnly : Bool) :
    Yields (importEntryAfter imported here typeOnly) IsNamed := by
  have hnamed : ∀ imported name typeOnly, IsNamed (.named imported name typeOnly) :=
    fun _ _ _ => ⟨_, _, _, rfl⟩
  unfold importEntryAfter
  refine .andThen fun renamed => .ite ?_ ?_
  · exact .andThen fun _ => .pure (hnamed _ _ _)
  · exact .ite (.andThen fun _ => .pure (hnamed _ _ _)) (.pure (hnamed _ _ _))

theorem importEntryTypeAs_named (typeOnly : Bool) (typeWord : Span) :
    Yields (importEntryTypeAs typeOnly typeWord) IsNamed := by
  have hnamed : ∀ imported name typeOnly, IsNamed (.named imported name typeOnly) :=
    fun _ _ _ => ⟨_, _, _, rfl⟩
  unfold importEntryTypeAs
  refine .andThen fun word => .ite ?_ ?_
  · exact .andThen fun _ => .pure (hnamed _ _ _)
  · refine .andThen fun second => .ite ?_ (.pure (hnamed _ _ _))
    refine .andThen fun again => .ite ?_ (.pure (hnamed _ _ _))
    exact .andThen fun _ => .andThen fun _ => .pure (hnamed _ _ _)

theorem importEntry_named (typeOnly : Bool) : Yields (importEntry typeOnly) IsNamed := by
  have hnamed : ∀ imported name typeOnly, IsNamed (.named imported name typeOnly) :=
    fun _ _ _ => ⟨_, _, _, rfl⟩
  unfold importEntry
  refine .andThen fun listed => ?_
  cases listed with
  | string value here =>
    refine .andThen fun renamed => .ite ?_ ?_
    · exact .andThen fun _ => .pure (hnamed _ _ _)
    · exact .andThen fun _ => .andThen fun _ => .pure (hnamed _ _ _)
  | name imported here =>
    -- the test for a modifier ends in the same two ways
    refine .ite (.andThen fun modified => ?_) (.andThen fun modified => ?_)
    all_goals
      refine .ite (importEntryAfter_named _ _ _) (.andThen fun word => ?_)
      exact .ite (importEntryTypeAs_named _ _) (.andThen fun _ => importEntryAfter_named _ _ _)

theorem listEntries_all {α : Type} {entry : Read α} {Q : α → Prop} (h : Yields entry Q) :
    Yields (listEntries entry) fun entries => ∀ e ∈ entries, Q e := by
  unfold listEntries
  refine .andThen fun _ => .bind (.iterate (I := fun found => ∀ e ∈ found, Q e)
    (P := fun found => ∀ e ∈ found, Q e) (fun found hfound => ?_) nofun) fun found hfound => ?_
  · refine .andThen fun _ => .ite (.andThen fun done => ?_) (.andThen fun done => ?_)
    all_goals
      refine .ite (.pure hfound) (.bind h fun next hnext => .andThen fun closed => ?_)
      have hmore := List.forall_mem_cons.mpr ⟨hnext, hfound⟩
      exact .ite (.pure hmore) (.andThen fun _ => .pure hmore)
  · exact .andThen fun _ => .pure fun e he => hfound e (List.mem_reverse.mp he)

theorem importEntries_clause (typeOnly : Bool) : Yields (importEntries typeOnly) fun rest =>
    (∃ name, rest = [.namespaceAs name]) ∨ ∀ e ∈ rest, IsNamed e := by
  unfold importEntries
  refine .andThen fun star => .ite ?_ ?_
  · exact .andThen fun _ => .andThen fun name => .pure (.inl ⟨name, rfl⟩)
  · refine .andThen fun brace => .ite ?_ (.pure (.inr nofun))
    have hlist := listEntries_all (importEntry_named typeOnly)
    exact fun s rest s' h => .inr (hlist s rest s' h)

theorem clauseShaped_of_ne {shape : ItemShape}
    (h : ∀ source entries typeOnly, shape ≠ .importFrom source entries typeOnly) :
    ClauseShaped shape := fun source entries typeOnly heq => absurd heq (h source entries typeOnly)

theorem importEquals_shaped : Yields importEquals ClauseShaped := by
  have hshape : ClauseShaped .importEquals := clauseShaped_of_ne fun _ _ _ => nofun
  unfold importEquals
  refine .andThen fun _ => .andThen fun require => ?_
  refine .ite (.andThen fun call => ?_) (.andThen fun call => ?_)
  all_goals
    refine .ite (.andThen fun _ => .andThen fun _ => .andThen fun _ => .andThen fun _ => ?_)
      (.andThen fun _ => ?_)
    all_goals exact .andThen fun _ => .pure hshape

theorem importItem_shaped (g : Grammar) : Yields (importItem g) ClauseShaped := by
  have hclause : ∀ source entries typeOnly, ImportClause entries →
      ClauseShaped (.importFrom source entries typeOnly) := by
    intro source entries typeOnly h source' entries' typeOnly' heq
    cases heq
    exact h
  unfold importItem
  refine .andThen fun _ => .andThen fun text => .ite ?_ ?_
  · refine .andThen fun source => .andThen fun _ => .andThen fun _ => .pure (hclause _ _ _ ?_)
    exact ⟨none, [], rfl, .inr nofun⟩
  · refine .andThen fun start => ?_
    cases start with
    | equals => exact importEquals_shaped
    | clause first typeOnly =>
      have hentries : Yields (importEntries typeOnly >>= fun rest => fromClause g >>= fun source =>
          pure (.importFrom source ((first.map .defaultAs).toList ++ rest) typeOnly)) ClauseShaped :=
        .bind (importEntries_clause typeOnly) fun rest hrest => .andThen fun source =>
          .pure (hclause _ _ _ ⟨first, rest, rfl, hrest⟩)
      refine .ite (.andThen fun comma => .ite hentries (.andThen fun word => ?_)) hentries
      exact .ite hentries (.andThen fun _ => hentries)

theorem exportDefault_shaped (g : Grammar) (decorated : Bool) :
    Yields (exportDefault g decorated) ClauseShaped := by
  have hshape : ∀ decl, ClauseShaped (.exportDefaultDecl decl) := fun decl =>
    clauseShaped_of_ne fun _ _ _ => nofun
  have hexpr : ClauseShaped .exportDefaultExpr := clauseShaped_of_ne fun _ _ _ => nofun
  unfold exportDefault
  refine .andThen fun _ => .andThen fun abstract => ?_
  -- every way through ends with one of these shapes
  repeat' first
    | refine .ite ?_ ?_
    | refine .andThen fun _ => ?_
    | exact .pure (hshape _)
    | exact .pure hexpr

theorem exportNames_shaped (g : Grammar) (typeOnly : Bool) :
    Yields (exportNames g typeOnly) ClauseShaped := by
  have hall : ∀ source, ClauseShaped (.exportAll source typeOnly) := fun source =>
    clauseShaped_of_ne fun _ _ _ => nofun
  have hlist : ∀ entries source, ClauseShaped (.exportList entries source typeOnly) :=
    fun entries source => clauseShaped_of_ne fun _ _ _ => nofun
  unfold exportNames exportList
  refine .andThen fun star => .ite ?_ ?_
  · refine .andThen fun found => .andThen fun fromWord => .ite ?_ ?_
    · exact .andThen fun source => .pure (hlist _ _)
    · exact .andThen fun _ => .andThen fun _ => .pure (hlist _ _)
  · refine .andThen fun _ => .andThen fun asWord => .ite ?_ ?_
    · exact .andThen fun source => .pure (hall _)
    · exact .andThen fun name => .andThen fun source => .pure (hlist _ _)

theorem exportForTypes?_shaped (g : Grammar) :
    Yields (exportForTypes? g) fun shape => ∀ s ∈ shape, ClauseShaped s := by
  have hassigned : ClauseShaped .exportAssignment := clauseShaped_of_ne fun _ _ _ => nofun
  have hnamespace : ClauseShaped .exportAsNamespace := clauseShaped_of_ne fun _ _ _ => nofun
  have hsome : ∀ shape, ClauseShaped shape → ∀ s ∈ some shape, ClauseShaped s := by
    rintro shape h _ ⟨⟩
    exact h
  unfold exportForTypes?
  refine .andThen fun importWord => .ite ?_ (.andThen fun equals => .ite ?_ ?_)
  · refine .andThen fun typeWord => .ite (.andThen fun typed => ?_) (.andThen fun typed => ?_)
    all_goals
      refine .ite (.andThen fun _ => .andThen fun _ => ?_) (.andThen fun _ => ?_)
      all_goals exact .bind importEquals_shaped fun shape hshape => .pure (hsome shape hshape)
  · exact .andThen fun _ => .andThen fun _ => .pure (hsome _ hassigned)
  · refine .andThen fun asWord => .ite ?_ (.pure nofun)
    exact .andThen fun _ => .andThen fun _ => .andThen fun _ => .pure (hsome _ hnamespace)

theorem exportItem_shaped (g : Grammar) (decorated : Bool) :
    Yields (exportItem g decorated) ClauseShaped := by
  have hdecl : ∀ decl, ClauseShaped (.exportDecl decl) := fun decl =>
    clauseShaped_of_ne fun _ _ _ => nofun
  unfold exportItem
  refine .andThen fun _ => .andThen fun _ => .andThen fun declared => ?_
  cases declared with
  | some decl => exact .pure (hdecl decl)
  | none =>
    refine .bind (exportForTypes?_shaped g) fun types htypes => ?_
    cases types with
    | some shape => exact .pure (htypes shape rfl)
    | none =>
      refine .andThen fun typeOnly => ?_
      have hnames := exportNames_shaped g typeOnly
      refine .ite (.andThen fun default => .ite (exportDefault_shaped g decorated) ?_) ?_
      all_goals
        refine .andThen fun _ => .ite (.andThen fun exported => ?_) hnames
        cases exported with
        | some decl => exact .pure (hdecl decl)
        | none => exact hnames

theorem item_shaped (g : Grammar) : Yields (item g) fun r => ClauseShaped r.1.shape := by
  have hstatement : ClauseShaped .statement := clauseShaped_of_ne fun _ _ _ => nofun
  unfold item
  refine .andThen fun first => .andThen fun decorators => ?_
  have hitem : ∀ (shape : Read ItemShape) (start : Nat), Yields shape ClauseShaped →
      Yields (shape >>= fun shape => spanFrom start >>= fun span =>
        (pure (⟨span, shape⟩, none) : Read (Item × Option String))) fun r => ClauseShaped r.1.shape :=
    fun shape start h => .bind h fun _ hshape => .andThen fun _ => .pure hshape
  cases decorators
  -- decorators may be dropped first; the item behind them is read in the same way
  case' some here => refine .andThen fun kept => .ite ?_ (.andThen fun _ => ?_)
  all_goals
    refine .andThen fun start => .andThen fun word => .ite (.andThen fun value => ?_)
      (.andThen fun value => ?_)
    all_goals
      refine .ite ?_ (.andThen fun importWord => .ite (hitem _ _ (importItem_shaped g)) ?_)
      · exact .andThen fun _ => .andThen fun _ => .andThen fun _ => .pure hstatement
      · refine .andThen fun exportWord => .ite (hitem _ _ (exportItem_shaped g _)) ?_
        exact .andThen fun _ => .pure hstatement

theorem items_shaped (g : Grammar) :
    Yields (items g) fun items => ∀ item ∈ items, ClauseShaped item.shape := by
  have hitem : Yields (do return (← item g).1) fun item : Item => ClauseShaped item.shape :=
    .bind (item_shaped g) fun _ hshape => .pure hshape
  unfold items
  refine .andThen fun shebang => .ite (.andThen fun _ => ?_) ?_
  all_goals exact .collectWhile hitem

end Read

theorem parse_clauses {code : String} {m : Module} (h : Module.parse code = .ok m) :
    ∀ item ∈ m.items, ClauseShaped item.shape := by
  unfold Module.parse at h
  dsimp only at h
  split at h
  · cases h
  · rename_i items s hitems
    split at h
    · cases h
    · cases h
      exact Read.items_shaped _ _ _ _ hitems

end ModuleHost.Syntax
