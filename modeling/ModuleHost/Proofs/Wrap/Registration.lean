import ModuleHost.Proofs.Wrap.Valueless

/-! The wrapper of a module registers it if something is written into its object of exports, and only
then. -/

namespace ModuleHost.Wrap

open ModuleHost.Syntax ModuleHost.Text ModuleHost.Wrap.Edit

def Setting.registering (s : Setting) (function : String) : Setting :=
  { s with config := s.config.withRegisterFn function }

/-- Edits write into the object of exports, whatever that is called: they assign to a name of it, or
copy a whole module into it. -/
def WritesExports (edits : String → List Edit) : Prop :=
  (∃ name, Assigns edits name) ∨ ∀ exports, 0 < copies (edits exports) exports

/-- What stands behind the function in the call that registers a module. -/
def registered (path : String) : List Char := ("(" ++ Json.quote path ++ ", ").toList

/-- How the call begins that registers a module. -/
def registrationStart (function path : String) : List Char := function.toList ++ registered path

/-- The text of a wrapper up to the end of its body. -/
def upToBody (config : Config) (path : String) (c : Converted) : String :=
  wrapperHead config path ++ importSection config c.imports ++ String.ofList (trimEnd c.body.toList)

variable {config : Config} {path : String} {bodyLength first : Nat} {m : Module} {c : Converted}

theorem convertItem_registering (s : Setting) (function : String) (first : Nat) (item : Item) :
    (s.registering function).convertItem first item = s.convertItem first item := by
  obtain ⟨span, shape⟩ := item
  cases shape <;> rfl

theorem convertItems_registering (s : Setting) (function : String) (done : Contribution)
    (items : List Item) :
    (s.registering function).convertItems done items = s.convertItems done items := by
  induction items generalizing done with
  | nil => rfl
  | cons item items ih =>
    rw [Setting.convertItems, Setting.convertItems, convertItem_registering]
    simp only [ih]

theorem convert_registering (config : Config) (function path : String) (bodyLength : Nat)
    (m : Module) :
    convert (config.withRegisterFn function) path bodyLength m = convert config path bodyLength m := by
  have hitems : (settingOf (config.withRegisterFn function) path bodyLength m).convertItems {} m.items =
      (settingOf config path bodyLength m).convertItems {} m.items :=
    convertItems_registering (settingOf config path bodyLength m) function {} m.items
  unfold convert
  dsimp only
  rw [settingOf, settingOf] at hitems
  rw [hitems]
  rfl

def registrationStencil (config : Config) (path : String) (hasExports : Bool) : Stencil :=
  if hasExports then none :: Stencil.solid (registered path ++ (config.exportsIdent ++ ");\n").toList)
  else []

def wrapperStencil (config : Config) (path : String) (c : Converted) : Stencil :=
  Stencil.solid (upToBody config path c ++ "\n\n").toList ++
    (registrationStencil config path c.hasExports ++
      Stencil.solid ("  return " ++ config.moduleIdent ++ ";\n\x7d)();\n").toList)

theorem registration_filled (config : Config) (function path : String) (hasExports : Bool) :
    (registration (config.withRegisterFn function) path hasExports).toList =
      (registrationStencil config path hasExports).fill function.toList := by
  cases hasExports with
  | false => rfl
  | true =>
    have hcall : registration (config.withRegisterFn function) path true =
        function ++ (("(" ++ Json.quote path ++ ", ") ++ (config.exportsIdent ++ ");\n")) := by
      show function ++ "(" ++ Json.quote path ++ ", " ++ config.exportsIdent ++ ");\n" = _
      simp only [String.append_assoc]
    rw [hcall, registrationStencil, if_pos rfl, Stencil.fill_open, Stencil.fill_solid,
      String.toList_append, String.toList_append, registered]

theorem wrapper_filled (config : Config) (function path : String) (c : Converted) :
    (c.wrap (config.withRegisterFn function) path).toList =
      (wrapperStencil config path c).fill function.toList := by
  have hwrap : c.wrap (config.withRegisterFn function) path = (upToBody config path c ++ "\n\n") ++
      (registration (config.withRegisterFn function) path c.hasExports ++
        ("  return " ++ config.moduleIdent ++ ";\n\x7d)();\n")) := by
    have hhead : wrapperHead (config.withRegisterFn function) path = wrapperHead config path := rfl
    have himports : importSection (config.withRegisterFn function) c.imports =
        importSection config c.imports := rfl
    have hmodule : (config.withRegisterFn function).moduleIdent = config.moduleIdent := rfl
    rw [Converted.wrap, hhead, himports, hmodule, upToBody]
    simp only [String.append_assoc, -String.reduceAppend]
  rw [hwrap, String.toList_append, String.toList_append (s := registration _ _ _),
    registration_filled, wrapperStencil, Stencil.fill_append, Stencil.fill_append,
    Stencil.fill_solid, Stencil.fill_solid]

theorem occurrences_only_solid {needle : Stencil} {text : List Char} :
    occurrences (none :: needle) (Stencil.solid text) = 0 := by
  have hsolid : occurrences (none :: needle) (Stencil.solid text ++ []) =
      occurrences (none :: needle) [] := occurrences_solid
  rw [List.append_nil] at hsolid
  rw [hsolid, occurrences_nil (List.cons_ne_nil _ _)]

theorem occurrences_wrapper (config : Config) (path : String) (c : Converted) :
    occurrences (none :: Stencil.solid (registered path)) (wrapperStencil config path c) =
      if c.hasExports then 1 else 0 := by
  rw [wrapperStencil, occurrences_solid]
  cases c.hasExports with
  | false =>
    show occurrences _ ([] ++ Stencil.solid _) = 0
    rw [List.nil_append, occurrences_only_solid]
  | true =>
    have hhead : none :: Stencil.solid (registered path) <+:
        none :: (Stencil.solid (registered path ++ (config.exportsIdent ++ ");\n").toList) ++
          Stencil.solid ("  return " ++ config.moduleIdent ++ ";\n\x7d)();\n").toList) := by
      refine List.cons_prefix_cons.mpr ⟨rfl, ?_⟩
      exact (solid_isPrefix.mpr (List.prefix_append _ _)).trans (List.prefix_append _ _)
    rw [registrationStencil, if_pos rfl, List.cons_append, occurrences_cons, if_pos hhead,
      occurrences_solid, occurrences_only_solid, Nat.zero_add]
    rfl

theorem registered_visible (path : String) : some '\n' ∉ Stencil.solid (registered path) ∧
    some '\r' ∉ Stencil.solid (registered path) := by
  have hvisible : ∀ d ∈ registered path, 0x20 ≤ d.toNat := by
    intro d hd
    have hquoted : registered path = '(' :: (Json.quoteChars path.toList ++ [',', ' ']) := by
      simp [registered, Json.quote]
    rw [hquoted, List.mem_cons, List.mem_append] at hd
    rcases hd with rfl | hd | hd
    · decide
    · exact Json.quote_visible d hd
    · rcases hd with _ | ⟨_, _ | ⟨_, ⟨⟩⟩⟩
      · decide
      · decide
  have hnot : ∀ d : Char, d.toNat < 0x20 → some d ∉ Stencil.solid (registered path) := by
    intro d hd hmem
    obtain ⟨e, he, heq⟩ := List.mem_map.mp hmem
    obtain rfl := Option.some.inj heq
    exact absurd (hvisible e he) (Nat.not_le.mpr hd)
  exact ⟨hnot '\n' (by decide), hnot '\r' (by decide)⟩

theorem registration_least (config : Config) (path : String) (c : Converted) :
    IsLeast (Set.range fun function => occurrences (registrationStart function path)
      (c.wrap (config.withRegisterFn function) path).toList) (if c.hasExports then 1 else 0) := by
  have hneedle : ∀ name : List Char, name ++ registered path =
      Stencil.fill name (none :: Stencil.solid (registered path)) := by
    intro name
    rw [Stencil.fill_open, Stencil.fill_solid]
  simp only [registrationStart, wrapper_filled, hneedle, ← occurrences_wrapper config path c]
  constructor
  · -- a name that stands out is found only where it was put
    obtain ⟨n, hn⟩ : ∃ n, (wrapperStencil config path c).count (some '\r') < n :=
      ⟨_, Nat.lt_succ_self _⟩
    obtain ⟨hline, hreturn⟩ := registered_visible path
    refine ⟨String.ofList (Stencil.longName n), ?_⟩
    dsimp only
    rw [String.toList_ofList]
    exact Stencil.occurrences_fill hn (List.cons_ne_nil _ _)
      (List.mem_cons.not.mpr (not_or.mpr ⟨Option.some_ne_none _, hline⟩))
      (List.mem_cons.not.mpr (not_or.mpr ⟨Option.some_ne_none _, hreturn⟩))
  · rintro _ ⟨function, rfl⟩
    dsimp only
    rw [occurrences_wrapper]
    split
    · rename_i hexports
      have hfound : 0 < occurrences (none :: Stencil.solid (registered path))
          (wrapperStencil config path c) := by
        rw [occurrences_wrapper, if_pos hexports]
        exact Nat.one_pos
      exact occurrences_pos.mpr (Stencil.fill_infix (occurrences_pos.mp hfound))
    · exact Nat.zero_le _

theorem hasExports_iff (h : (convert config path bodyLength m).1 = .ok c) :
    c.hasExports = true ↔ ∃ item ∈ m.items, (marksIn item.shape).isEmpty = false := by
  obtain ⟨parts, hparts⟩ := convert_composed h
  have hitems : m.items.map (fun item => !(marksIn item.shape).isEmpty) =
      parts.map Contribution.hasExports := by
    have hall := hparts.items.forall₂ (P := fun item part =>
      (!(marksIn item.shape).isEmpty) = part.hasExports)
      fun _ _ _ _ _ hpart => (convertItem_hasExports hpart).symm
    rw [← List.forall₂_eq_eq_eq, List.forall₂_map_left_iff, List.forall₂_map_right_iff]
    exact hall
  have hany : parts.any Contribution.hasExports =
      m.items.any fun item => !(marksIn item.shape).isEmpty := by
    have hid := congrArg (List.any · id) hitems
    simp only [List.any_map] at hid
    exact hid.symm
  rw [hparts.hasExports, hany, List.any_eq_true]
  simp only [Bool.not_eq_true']

theorem writesExports_iff (h : (convert config path bodyLength m).1 = .ok c) :
    WritesExports (editsUnder config path bodyLength m) ↔
      ∃ item ∈ m.items, (marksIn item.shape).isEmpty = false := by
  have hassigned : (∃ name, Assigns (editsUnder config path bodyLength m) name) ↔
      ∃ item ∈ m.items, ∃ name, Counts item.shape name := by
    simp only [editsUnder_assigns h]
    exact ⟨fun ⟨name, item, hitem, hname⟩ => ⟨item, hitem, name, hname⟩,
      fun ⟨item, hitem, name, hname⟩ => ⟨name, item, hitem, hname⟩⟩
  have hcopied : (∀ exports, 0 < copies (editsUnder config path bodyLength m exports) exports) ↔
      ∃ item ∈ m.items, exportsAll item.shape = true := by
    obtain ⟨⟨exports, hexports⟩, hleast⟩ := editsUnder_copies h
    rw [← List.countP_pos_iff (p := fun item : Item => exportsAll item.shape)]
    constructor
    · intro hall
      rw [← hexports]
      exact hall exports
    · exact fun hpos other => hpos.trans_le (hleast ⟨other, rfl⟩)
  rw [WritesExports, hassigned, hcopied]
  simp only [marks_exports]
  constructor
  · rintro (⟨item, hitem, hnames⟩ | ⟨item, hitem, hall⟩)
    · exact ⟨item, hitem, .inl hnames⟩
    · exact ⟨item, hitem, .inr hall⟩
  · rintro ⟨item, hitem, hnames | hall⟩
    · exact .inl ⟨item, hitem, hnames⟩
    · exact .inr ⟨item, hitem, hall⟩

/-- A module is known to have exports exactly if one of its edits writes into the object of exports,
and then its wrapper registers it, once and behind the body. What only looks like the call, as in a
text of the module, does so under one name of the function and not under another. -/
theorem registered_iff (h : (convert config path bodyLength m).1 = .ok c) :
    applyAll (editsUnder config path bodyLength m config.exportsIdent) (bodyText m bodyLength) =
      .ok c.body.toList ∧
    (c.hasExports = true ↔ WritesExports (editsUnder config path bodyLength m)) ∧
    (∀ function, (convert (config.withRegisterFn function) path bodyLength m).1 = .ok c) ∧
    IsLeast (Set.range fun function => occurrences (registrationStart function path)
      (c.wrap (config.withRegisterFn function) path).toList) (if c.hasExports then 1 else 0) ∧
    ∃ behind, c.wrap config path = upToBody config path c ++ "\n\n" ++
      (if c.hasExports then String.ofList (registrationStart config.registerFn path) ++
        config.exportsIdent ++ ");\n" else "") ++ behind := by
  have hwrites := (hasExports_iff h).trans (writesExports_iff h).symm
  -- the call is written at one place and nowhere else
  have hcall : registration config path c.hasExports = if c.hasExports then
      String.ofList (registrationStart config.registerFn path) ++ config.exportsIdent ++ ");\n"
        else "" := by
    have hstart : String.ofList (registrationStart config.registerFn path) =
        config.registerFn ++ "(" ++ Json.quote path ++ ", " := by
      rw [registrationStart, registered, ← String.toList_append, String.ofList_toList]
      simp only [String.append_assoc]
    rw [hstart]
    rfl
  refine ⟨editsUnder_applied h, hwrites, fun function => ?_, registration_least config path c, ?_⟩
  · rw [convert_registering, h]
  · refine ⟨"  return " ++ config.moduleIdent ++ ";\n\x7d)();\n", ?_⟩
    rw [← hcall, Converted.wrap, upToBody]
    simp only [String.append_assoc, -String.reduceAppend]

theorem registered_iff_patterned : ∃ c, (convert {} "/a.js" 45 patterned).1 = .ok c ∧
    c.hasExports = true ∧ WritesExports (editsUnder {} "/a.js" 45 patterned) ∧
    IsLeast (Set.range fun function => occurrences (registrationStart function "/a.js")
      (c.wrap (Config.withRegisterFn {} function) "/a.js").toList) 1 := by
  obtain ⟨c, hc⟩ := patterned_converts
  have hexports : c.hasExports = true := (hasExports_iff hc).mpr (by decide)
  obtain ⟨-, hwrites, -, hleast, -⟩ := registered_iff hc
  rw [if_pos hexports] at hleast
  exact ⟨c, hc, hexports, hwrites.mp hexports, hleast⟩

end ModuleHost.Wrap
