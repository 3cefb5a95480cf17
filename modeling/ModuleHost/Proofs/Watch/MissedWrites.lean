import ModuleHost.Proofs.Watch.SharedOutputs

/-! Outputs that could not be written. A transform is remembered before its output is written, and
a failure to write is not. From then on the text counts as known, and whether the output is written
depends on nothing but whether there is one. -/

namespace ModuleHost.Watch

open ModuleHost.Files ModuleHost.Wrap ModuleHost.Wrap.Transformer

/-- What a mirror meets with: a source is brought in line, where the change of its output may be
refused for whatever reason, or something happens to the tree in between. -/
inductive Event where
  | sync (file : Path) (refused : Bool)
  | outside (tree : Tree)

namespace Mirror

def meet (s : Mirror) : Event → Mirror
  | .sync file refused =>
    let next := (s.act (.sync file)).1
    if refused then { next with tree := s.tree } else next
  | .outside tree => { s with tree }

def course (s : Mirror) (events : List Event) : Mirror := events.foldl meet s

/-- Whenever a module is brought in line in a run, this text is found. -/
def Steady (module code : String) : Mirror → List Event → Prop
  | _, [] => True
  | s, event :: events =>
    (∀ file refused, event = .sync file refused → s.outputs.modulePath? file = some module →
      s.tree.readLossy file = .ok code) ∧ Steady module code (s.meet event) events

end Mirror

theorem Change.apply_of_fails {t : Tree} (change : Change) (h : change.succeeds t = false) :
    change.apply t = t := by
  cases change with
  | write out code =>
    rw [succeeds] at h
    rw [apply]
    cases hwrite : t.write out code.toUTF8.toList with
    | error fault => rfl
    | ok t' =>
      rw [hwrite] at h
      cases h
  | remove out =>
    rw [succeeds] at h
    rw [apply]
    cases hremove : t.remove out with
    | error fault => rfl
    | ok t' =>
      rw [hremove] at h
      cases h

/-- What can become of what is remembered when one source is brought in line. -/
theorem Outputs.step_cases (m : Outputs) (file : Path) (source : Source) (outExists : Bool) :
    (m.step file source outExists).1 = m ∨
      ∃ module, m.modulePath? file = some module ∧
        ((source = .missing ∧ (m.step file source outExists).1 =
            { m with transformer := (m.transformer.invalidate module).2 }) ∨
          ∃ code, source = .text code ∧ (m.step file source outExists).1 =
            { m with transformer := (m.transformer.transform code module).2 }) := by
  rw [step]
  split
  · split
    · rename_i module out hmodule hout
      cases source with
      | missing => exact .inr ⟨module, hmodule, .inl ⟨rfl, rfl⟩⟩
      | unreadable => exact .inl rfl
      | text code =>
        refine .inr ⟨module, hmodule, .inr ⟨code, rfl, ?_⟩⟩
        rw [stepAt]
        split
        · rename_i hrun
          rw [hrun]
        · rename_i hrun
          rw [hrun]
    · exact .inl rfl
  · exact .inl rfl

theorem Outputs.step_outputs (m : Outputs) (file : Path) (source : Source) (outExists : Bool) :
    (m.step file source outExists).1 =
      { m with transformer := (m.step file source outExists).1.transformer } := by
  obtain hsame | ⟨module, -, ⟨-, hstep⟩ | ⟨code, -, hstep⟩⟩ := m.step_cases file source outExists
  · rw [hsame]
  · rw [hstep]
  · rw [hstep]

section

variable {m : Outputs} {file : Path} {module code : String} {made : Output}

theorem Outputs.hit?_step {source : Source} (h : m.transformer.hit? module code = some made)
    (hsteady : m.modulePath? file = some module → source = .text code) (outExists : Bool) :
    (m.step file source outExists).1.transformer.hit? module code = some made := by
  obtain hsame | ⟨module', hmodule', hstep⟩ := m.step_cases file source outExists
  · rw [hsame]
    exact h
  by_cases heq : module' = module
  · -- the module itself, of which the same text is found
    subst heq
    rw [hsteady hmodule'] at hstep ⊢
    obtain ⟨hmissing, -⟩ | ⟨code', hcode', hstep⟩ := hstep
    · cases hmissing
    · cases hcode'
      have hcached : m.transformer.isCached module' code = true := by
        rw [Transformer.isCached, h]
        rfl
      rw [hstep, transform_of_isCached hcached]
      exact h
  · obtain ⟨-, hstep⟩ | ⟨code', -, hstep⟩ := hstep
    · rw [hstep, hit?, invalidate, find?_forget, if_neg (Ne.symm heq)]
      exact h
    · rw [hstep, hit?, find?_transform_ne code' (Ne.symm heq)]
      exact h

end

namespace Mirror

variable {s : Mirror} {m : Outputs} {file out : Path} {module code text : String} {made : Output}

theorem act_sync_outputs (s : Mirror) (file : Path) :
    (s.act (.sync file)).1.outputs = (s.outputs.step file (Source.ofTree s.tree file)
      ((s.outputs.outputPath? file).any s.tree.exists?)).1 := by
  simp only [act, Outputs.sync]
  split <;> rename_i hstep <;> rw [hstep]

theorem meet_sync_outputs (s : Mirror) (file : Path) (refused : Bool) :
    (s.meet (.sync file refused)).outputs = (s.act (.sync file)).1.outputs := by
  cases refused <;> rfl

/-- The transform of a text is remembered as the result for a module. -/
structure Knows (m : Outputs) (module code : String) (made : Output) (s : Mirror) : Prop where
  outputs : s.outputs = { m with transformer := s.outputs.transformer }
  remembered : s.outputs.transformer.hit? module code = some made

theorem Knows.answer (h : s.Knows m module code made) :
    (s.outputs.transformer.transform code module).1.1 = .ok made := by
  rw [Transformer.transform, h.remembered]

theorem Knows.isCached (h : s.Knows m module code made) :
    s.outputs.transformer.isCached module code = true := by
  rw [Transformer.isCached, h.remembered]
  rfl

theorem Knows.meet (h : s.Knows m module code made) {event : Event}
    (hsteady : ∀ file refused, event = .sync file refused →
      s.outputs.modulePath? file = some module → s.tree.readLossy file = .ok code) :
    (s.meet event).Knows m module code made := by
  cases event with
  | outside tree => exact ⟨h.outputs, h.remembered⟩
  | sync file refused =>
    constructor
    · rw [meet_sync_outputs, act_sync_outputs, Outputs.step_outputs, h.outputs]
    · rw [meet_sync_outputs, act_sync_outputs]
      exact Outputs.hit?_step h.remembered
        (fun hmodule => Source.ofTree_text (hsteady file refused rfl hmodule)) _

theorem Knows.course (h : s.Knows m module code made) {events : List Event}
    (hsteady : Steady module code s events) : (s.course events).Knows m module code made := by
  induction events generalizing s with
  | nil => exact h
  | cons event events ih =>
    obtain ⟨hfirst, hrest⟩ := hsteady
    exact ih (h.meet hfirst) hrest

theorem Knows.isSource (h : s.Knows m module code made) :
    s.outputs.isSource file = m.isSource file := by
  rw [h.outputs]
  rfl

theorem Knows.place (h : s.Knows m module code made) (hplace : Place m file module out) :
    Place s.outputs file module out := by
  rw [h.outputs]
  exact ⟨hplace.module, hplace.output⟩

theorem tree_of_missed {change : Change} (h : s.change? file = some change) {refused : Bool}
    (hmissed : refused = true ∨ change.succeeds s.tree = false) :
    (s.meet (.sync file refused)).tree = s.tree := by
  cases refused with
  | true => rfl
  | false =>
    have hfails : change.succeeds s.tree = false := by simpa using hmissed
    rw [meet, if_neg Bool.false_ne_true, act_sync_tree, h]
    exact change.apply_of_fails hfails

/-- After a write that was missed, the tree is as it was, the text counts as known, and for as long
as no other text is found, a sync writes the output exactly if there is none: an older one stays as
it is. -/
theorem missed_write (hmodule : s.outputs.modulePath? file = some module)
    (hread : s.tree.readLossy file = .ok code)
    (hwrite : s.change? file = some (.write out text)) {refused : Bool}
    (hmissed : refused = true ∨ (Change.write out text).succeeds s.tree = false)
    {events : List Event} (hsteady : Steady module code (s.meet (.sync file refused)) events)
    (hsame : ((s.meet (.sync file refused)).course events).tree.readLossy file = .ok code) :
    let missed := s.meet (.sync file refused)
    let later := missed.course events
    missed.tree = s.tree ∧ (later.act (.sync file)).2 = some (.update module out true) ∧
      later.change? file =
        (if later.tree.exists? out = true then none else some (.write out text)) ∧
      (later.tree.exists? out = true → (later.act (.sync file)).1.tree = later.tree) := by
  obtain ⟨module', out', hsource, hplace, hmade⟩ := change_cases hwrite
  obtain rfl := Option.some.inj (hmodule.symm.trans hplace.module)
  have hfound := Source.ofTree_text hread
  obtain ⟨-, hremove⟩ | ⟨code', made, htext, hrun, hmade⟩ := hmade
  · cases hremove
  cases hmade
  obtain rfl : code = code' := Source.text.inj (hfound.symm.trans htext)
  obtain ⟨-, hact⟩ := act_sync_made hsource hplace hfound hrun
  intro missed later
  -- the transformer knows the text although nothing was written
  have hknows : missed.Knows s.outputs module code made := by
    have houtputs := (meet_sync_outputs s file refused).trans (congrArg (·.1.outputs) hact)
    exact ⟨by rw [houtputs], by rw [houtputs]; exact hit?_eq_some.mpr (find?_transform_ok hrun)⟩
  have hlater : later.Knows s.outputs module code made := hknows.course hsteady
  obtain ⟨hnext, hreport⟩ := act_sync_made (hlater.isSource.trans hsource) (hlater.place hplace)
    (Source.ofTree_text hsame) hlater.answer
  rw [hlater.isCached, Bool.true_and] at hnext
  refine ⟨?_, ?_, hnext, fun hexists => ?_⟩
  · exact tree_of_missed hwrite hmissed
  · rw [hreport, hlater.isCached]
  · rw [act_sync_tree, hnext, if_pos hexists]
    rfl

def edited : Mirror :=
  following.after [.write (.ofText "src/a.js") "1;".toUTF8.toList, .sync (.ofText "src/a.js"),
    .write (.ofText "src/a.js") "2;".toUTF8.toList]

def resynced : List Event :=
  [.sync (.ofText "src/a.js") false, .sync (.ofText "src/b.js") false]

theorem missed_write_edited :
    let file := Path.ofText "src/a.js"
    let later := (edited.meet (.sync file true)).course resynced
    later.tree.exists? (.ofText "out/a.js") = true ∧
      (later.act (.sync file)).2 = some (.update "/a.js" (.ofText "out/a.js") true) ∧
      (later.act (.sync file)).1.tree = later.tree := by
  intro file
  dsimp only
  obtain ⟨hmodule, hout, hread, hchange, hmissed, hother, hsame, hexists⟩ :
      edited.outputs.modulePath? file = some "/a.js" ∧
      edited.outputs.outputPath? file = some (.ofText "out/a.js") ∧
      edited.tree.readLossy file = .ok "2;" ∧ (edited.change? file).isSome = true ∧
      (edited.meet (.sync file true)).tree.readLossy file = .ok "2;" ∧
      ((edited.meet (.sync file true)).meet (.sync file false)).outputs.modulePath?
        (.ofText "src/b.js") ≠ some "/a.js" ∧
      ((edited.meet (.sync file true)).course resynced).tree.readLossy file = .ok "2;" ∧
      ((edited.meet (.sync file true)).course resynced).tree.exists? (.ofText "out/a.js") =
        true := by
    decide +kernel
  obtain ⟨change, hchange⟩ := Option.isSome_iff_exists.mp hchange
  obtain ⟨module, out, -, hplace, hmade⟩ := change_cases hchange
  obtain rfl := Option.some.inj (hout.symm.trans hplace.output)
  obtain ⟨hgone, -⟩ | ⟨code, made, -, -, rfl⟩ := hmade
  · cases hgone.symm.trans (Source.ofTree_text hread)
  have hsteady : Steady "/a.js" "2;" (edited.meet (.sync file true)) resynced := by
    refine ⟨fun _ _ hevent _ => ?_, fun _ _ hevent hplace => ?_, trivial⟩
    · cases hevent
      exact hmissed
    · cases hevent
      exact absurd hplace hother
  have hrefused : true = true ∨
      (Change.write (.ofText "out/a.js") made.code).succeeds edited.tree = false := .inl rfl
  obtain ⟨-, hreport, -, hkept⟩ := missed_write hmodule hread hchange hrefused hsteady hsame
  exact ⟨hexists, hreport, hkept hexists⟩

/-- An output that could not be written, as a file stood where its directory is to be. -/
def blocked : Mirror :=
  following.after [.write (.ofText "out/d") "x".toUTF8.toList,
    .write (.ofText "src/d/a.js") "1;".toUTF8.toList]

/-- When the output can be written and holds something else, it is not, and the module is said to be
cached. -/
theorem write_forgotten :
    let file := Path.ofText "src/d/a.js"
    let out := Path.ofText "out/d/a.js"
    let freed := blocked.after
      [.sync file, .remove (.ofText "out/d"), .write out "old".toUTF8.toList]
    let synced := freed.act (.sync file)
    blocked.tree.readLossy file = .ok "1;" ∧ blocked.succeeds (.sync file) = false ∧
      freed.tree.readLossy file = .ok "1;" ∧ (freed.change? file).isNone = true ∧
      (synced.2.any fun report =>
        match report with
        | .update _ _ cached => cached
        | _ => false) = true ∧
      synced.1.tree.readLossy out = .ok "old" ∧
      (Wrap.transform {} "1;" "/d/a.js").1.toOption.map Output.code ≠ some "old" := by
  decide +kernel

end Mirror

end ModuleHost.Watch
