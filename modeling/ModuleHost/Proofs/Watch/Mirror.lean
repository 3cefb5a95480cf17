import ModuleHost.Proofs.Watch.Layout
import ModuleHost.Proofs.Wrap.Recall

/-! Runs in which sources are written, removed and brought in line with their outputs. What the
transformer remembers of a module is what its output holds, so an output that is not written again
is up to date. -/

namespace ModuleHost.Watch

open ModuleHost.Files ModuleHost.Wrap ModuleHost.Wrap.Transformer

/-! ### Runs -/

/-- Outputs next to the tree that they follow. -/
structure Mirror where
  outputs : Outputs
  tree : Tree

inductive Action where
  | write (file : Path) (bytes : List UInt8)
  | remove (file : Path)
  | sync (file : Path)

/-- What a sync has found. -/
structure Seen where
  file : Path
  source : Source

/-- Whether a change can be made; what is to be removed need not be there. -/
def Change.succeeds (t : Tree) : Change → Bool
  | .write out code => (t.write out code.toUTF8.toList).isOk
  | .remove out =>
    match t.remove out with
    | .ok _ | .error .notFound => true
    | .error _ => false

namespace Mirror

/-- What a sync is going to do to the outputs. -/
def change? (s : Mirror) (file : Path) : Option Change :=
  (s.outputs.step file (Source.ofTree s.tree file)
    ((s.outputs.outputPath? file).any s.tree.exists?)).2.bind Prod.snd

def act (s : Mirror) : Action → Mirror × Option Report
  | .write file bytes => ({ s with tree := (s.tree.write file bytes).toOption.getD s.tree }, none)
  | .remove file => ({ s with tree := (s.tree.remove file).toOption.getD s.tree }, none)
  | .sync file =>
    let (outputs, tree, report) := s.outputs.sync s.tree file
    (⟨outputs, tree⟩, report)

def succeeds (s : Mirror) : Action → Bool
  | .write file bytes => (s.tree.write file bytes).isOk
  | .remove file => (s.tree.remove file).isOk
  | .sync file => (s.change? file).all (·.succeeds s.tree)

def found (s : Mirror) : Action → List Seen
  | .sync file => [⟨file, Source.ofTree s.tree file⟩]
  | .write .. | .remove _ => []

def after (s : Mirror) (actions : List Action) : Mirror :=
  actions.foldl (fun s action => (s.act action).1) s

/-- No operation on the files fails. -/
def allSucceed (s : Mirror) : List Action → Bool
  | [] => true
  | action :: actions => s.succeeds action && (s.act action).1.allSucceed actions

/-- What the syncs of a run have found, the first of them first. -/
def seen (s : Mirror) : List Action → List Seen
  | [] => []
  | action :: actions => s.found action ++ (s.act action).1.seen actions

end Mirror

/-- Only sources are brought in line, and nothing else touches their outputs. -/
def Action.Allowed (m : Outputs) (directory : Location) (sources : Set Path) : Action → Prop
  | .sync file => file ∈ sources
  | .write file _ | .remove file => ∀ source ∈ sources, ∀ out, m.outputPath? source = some out →
    file.location directory ≠ out.location directory

/-! ### What was seen -/

/-- The text of which the last sync of a file made a module, unless the file was pruned since. -/
def lastSynced (config : Config) (module : String) (file : Path) (log : List Seen) : Option String :=
  log.foldl (fun last seen =>
    if seen.file.components = file.components then
      match seen.source with
      | .missing => none
      | .unreadable => last
      | .text code => if Transformer.Succeeds config code module then some code else last
    else last) none

/-- What is asked of the transformer for a source, as far as it changes what is remembered. -/
def Source.calls (module : String) : Source → List Call
  | .missing => [.invalidate module]
  | .unreadable => []
  | .text code => [.transform code module]

def calls (m : Outputs) (log : List Seen) : List Call :=
  log.flatMap fun e => (m.modulePath? e.file).elim [] e.source.calls

theorem calls_snoc {m : Outputs} {file : Path} {module : String}
    (h : m.modulePath? file = some module) (log : List Seen) (source : Source) :
    calls m (log ++ [⟨file, source⟩]) = calls m log ++ source.calls module := by
  simp [calls, h]

theorem lastSynced_snoc (config : Config) (module : String) (file : Path) (log : List Seen)
    (e : Seen) : lastSynced config module file (log ++ [e]) =
      if e.file.components = file.components then
        match e.source with
        | .missing => none
        | .unreadable => lastSynced config module file log
        | .text code =>
          if Transformer.Succeeds config code module then some code
          else lastSynced config module file log
      else lastSynced config module file log := by
  rw [lastSynced, List.foldl_append]
  rfl

theorem lastSynced_iff {config : Config} {m : Outputs} {sources : Set Path} {file : Path}
    {module code : String} (hlayout : Layout m sources) (hfile : file ∈ sources)
    (hmodule : m.modulePath? file = some module) {log : List Seen}
    (hlog : ∀ e ∈ log, e.file ∈ sources) :
    lastSynced config module file log = some code ↔ LastText config (calls m log) module code := by
  induction log using List.reverseRecOn with
  | nil => simp [lastSynced, calls, not_lastText_nil]
  | append_singleton log e ih =>
    rw [List.forall_mem_append, List.forall_mem_singleton] at hlog
    obtain ⟨hbefore, he⟩ := hlog
    obtain ⟨other, source⟩ := e
    obtain ⟨module', -, ⟨hmodule', -⟩⟩ := hlayout.place he
    rw [lastSynced_snoc, calls_snoc hmodule']
    by_cases hsame : other.components = file.components
    · obtain rfl : module' = module := by
        rw [hlayout.module_of_same he hfile hsame, hmodule] at hmodule'
        exact (Option.some.inj hmodule').symm
      rw [if_pos hsame]
      cases source with
      | missing => simp [Source.calls, lastText_snoc, Call.Displaces]
      | unreadable => simpa [Source.calls] using ih hbefore
      | text seen =>
        by_cases hok : Transformer.Succeeds config seen module'
        · simp only [Source.calls, if_pos hok, lastText_transform hok, Option.some.injEq, eq_comm]
        · have hkept : ¬(Call.transform seen module').Displaces config module' := fun h => hok h.2
          simpa only [Source.calls, if_neg hok, lastText_undisplaced hkept] using ih hbefore
    · -- what is asked for another source concerns another module
      have hother : module' ≠ module := by
        rintro rfl
        exact hsame (hlayout.same_of_module he hfile hmodule' hmodule)
      rw [if_neg hsame, ih hbefore]
      cases source with
      | missing =>
        have hkept : ¬(Call.invalidate module').Displaces config module := hother
        exact (lastText_undisplaced hkept).symm
      | unreadable => rw [Source.calls, List.append_nil]
      | text seen =>
        have hkept : ¬(Call.transform seen module').Displaces config module := fun h => hother h.1
        exact (lastText_undisplaced hkept).symm

/-! ### One sync -/

theorem Source.ofTree_text {t : Tree} {file : Path} {code : String}
    (h : t.readLossy file = .ok code) : Source.ofTree t file = .text code := by
  have hexists : t.exists? file = true := by
    rw [Tree.exists?]
    cases hlookup : t.lookup file with
    | ok n => rfl
    | error fault =>
      rw [Tree.readLossy, Tree.read, hlookup] at h
      cases h
  rw [Source.ofTree, hexists, if_pos rfl, h]

theorem Source.ofTree_missing {t : Tree} {file : Path} (h : t.exists? file = false) :
    Source.ofTree t file = .missing := by
  rw [Source.ofTree, h, if_neg (by simp)]

theorem exists_of_isOk {x : Except Fault Tree} (h : x.isOk = true) : ∃ t, x = .ok t := by
  cases x with
  | ok t => exact ⟨t, rfl⟩
  | error fault => cases h

section

variable {t : Tree} {out : Path} {code : String}

theorem Change.remove_spec (h : (Change.remove out).succeeds t = true) :
    Tree.SameBut (out.location t.workingDirectory) t ((Change.remove out).apply t) ∧
      ((Change.remove out).apply t).exists? out = false := by
  simp only [succeeds] at h
  split at h
  · rename_i t' hremove
    have happly : (Change.remove out).apply t = t' := by
      rw [Change.apply, hremove]
      rfl
    rw [happly]
    exact Tree.remove_spec hremove
  · rename_i hnone
    have happly : (Change.remove out).apply t = t := by
      rw [Change.apply, hnone]
      rfl
    rw [happly]
    exact ⟨.refl _ t, Tree.remove_notFound hnone⟩
  · cases h

theorem Change.write_spec (h : (Change.write out code).succeeds t = true) :
    Tree.SameBut (out.location t.workingDirectory) t ((Change.write out code).apply t) ∧
      ((Change.write out code).apply t).read out = .ok code.toUTF8.toList ∧
      ((Change.write out code).apply t).file? (out.location t.workingDirectory) =
        some code.toUTF8.toList := by
  obtain ⟨t', hwrite⟩ := exists_of_isOk h
  have happly : (Change.write out code).apply t = t' := by
    rw [Change.apply, hwrite]
    rfl
  obtain ⟨hsame, hresolve, hfile⟩ := Tree.write_spec hwrite
  rw [happly]
  exact ⟨hsame, Tree.read_eq hresolve hfile, hfile⟩

end

namespace Mirror

variable {s : Mirror} {file out : Path} {module code : String}

theorem change_succeeds {change : Change} (h : s.succeeds (.sync file) = true)
    (hchange : s.change? file = some change) : change.succeeds s.tree = true := by
  rw [succeeds, hchange] at h
  exact h

variable (hsource : s.outputs.isSource file = true) (hplace : Place s.outputs file module out)
include hsource hplace

theorem step_eq (source : Source) (outExists : Bool) :
    s.outputs.step file source outExists = s.outputs.stepAt module out outExists source := by
  simp [Outputs.step, hsource, hplace.module, hplace.output]

theorem act_sync_missing (h : Source.ofTree s.tree file = .missing) :
    s.change? file = some (.remove out) ∧ s.act (.sync file) =
      (⟨{ s.outputs with transformer := (s.outputs.transformer.invalidate module).2 },
        (Change.remove out).apply s.tree⟩, some (.prune module)) := by
  simp [change?, act, Outputs.sync, step_eq hsource hplace, h, Outputs.stepAt]

theorem act_sync_unreadable (h : Source.ofTree s.tree file = .unreadable) :
    s.act (.sync file) = (s, none) := by
  simp [act, Outputs.sync, step_eq hsource hplace, h, Outputs.stepAt]

theorem act_sync_refused (h : Source.ofTree s.tree file = .text code) {cause : TransformError}
    (hrun : (s.outputs.transformer.transform code module).1.1 = .error cause) :
    s.act (.sync file) = (s, some (.error module cause)) := by
  have hkept := transform_of_error hrun
  rcases hcall : s.outputs.transformer.transform code module with ⟨⟨fault | output, events⟩, t⟩
  · rw [hcall] at hrun hkept
    cases hrun
    simp only [] at hkept
    simp [act, Outputs.sync, step_eq hsource hplace, h, Outputs.stepAt, hcall, hkept]
  · rw [hcall] at hrun
    cases hrun

theorem act_sync_made (h : Source.ofTree s.tree file = .text code) {output : Output}
    (hrun : (s.outputs.transformer.transform code module).1.1 = .ok output) :
    let cached := s.outputs.transformer.isCached module code
    let change := if cached && s.tree.exists? out then none else some (Change.write out output.code)
    s.change? file = change ∧ s.act (.sync file) =
      (⟨{ s.outputs with transformer := (s.outputs.transformer.transform code module).2 },
        change.elim s.tree (·.apply s.tree)⟩, some (.update module out cached)) := by
  intro cached change
  rcases hcall : s.outputs.transformer.transform code module with ⟨⟨fault | result, events⟩, t⟩
  · rw [hcall] at hrun
    cases hrun
  · rw [hcall] at hrun
    obtain rfl : result = output := Except.ok.inj hrun
    simp [change?, act, Outputs.sync, step_eq hsource hplace, h, Outputs.stepAt, hcall,
      hplace.output, change, cached]

end Mirror

/-! ### Outputs and what is remembered -/

/-- What holds in a run after some syncs: what is remembered of a module is what its output holds. -/
structure Kept (config : Config) (m : Outputs) (directory : Location) (sources : Set Path)
    (log : List Seen) (s : Mirror) : Prop where
  outputs : s.outputs = { m with transformer := s.outputs.transformer }
  based : s.tree.workingDirectory = directory
  logged : ∀ e ∈ log, e.file ∈ sources
  faithful : Faithful config (calls m log) s.outputs.transformer
  held : ∀ file ∈ sources, ∀ module out cached, Place m file module out →
    s.outputs.transformer.find? module = some cached →
      s.tree.file? (out.location directory) = some cached.output.code.toUTF8.toList

theorem texts_of_seen {m : Outputs} {log : List Seen} {texts : Set String}
    (h : ∀ e ∈ log, ∀ code, e.source = .text code → code ∈ texts) :
    ∀ text ∈ (calls m log).flatMap Call.texts, text ∈ texts := by
  intro text hmem
  obtain ⟨call, hcall, htext⟩ := List.mem_flatMap.mp hmem
  obtain ⟨⟨file, source⟩, he, hcall⟩ := List.mem_flatMap.mp hcall
  cases hmodule : m.modulePath? file with
  | none =>
    rw [hmodule] at hcall
    cases hcall
  | some module =>
    rw [hmodule] at hcall
    cases source with
    | missing =>
      obtain rfl := List.mem_singleton.mp hcall
      cases htext
    | unreadable => cases hcall
    | text code =>
      obtain rfl := List.mem_singleton.mp hcall
      obtain rfl := List.mem_singleton.mp htext
      exact h _ he _ rfl

namespace Kept

variable {config : Config} {m : Outputs} {directory : Location} {sources : Set Path}
  {log : List Seen} {s : Mirror} {file out : Path} {module : String}

theorem place (hk : Kept config m directory sources log s) (hplace : Place m file module out) :
    Place s.outputs file module out := by
  rw [hk.outputs]
  exact ⟨hplace.module, hplace.output⟩

theorem isSource (hk : Kept config m directory sources log s) (hlayout : Layout m sources)
    (hfile : file ∈ sources) : s.outputs.isSource file = true := by
  rw [hk.outputs]
  exact hlayout.source file hfile

theorem start (t : Tree) (h : m.transformer = { config }) :
    Kept config m t.workingDirectory sources [] ⟨m, t⟩ where
  outputs := rfl
  based := rfl
  logged := by simp
  faithful := by
    rw [h]
    exact .new
  held := by
    intro file hfile module out cached hplace hfind
    rw [h] at hfind
    cases hfind

theorem elsewhere (hk : Kept config m directory sources log s) {l : Location} {t : Tree}
    (h : Tree.SameBut l s.tree t) (hl : ∀ source ∈ sources, ∀ out,
      m.outputPath? source = some out → l ≠ out.location directory) :
    Kept config m directory sources log { s with tree := t } where
  outputs := hk.outputs
  based := h.workingDirectory.trans hk.based
  logged := hk.logged
  faithful := hk.faithful
  held := by
    intro file hfile module out cached hplace hfind
    rw [h.files _ (hl file hfile out hplace.output).symm]
    exact hk.held file hfile module out cached hplace hfind

/-- A sync leaves every other source as it stands, as it touches neither its module nor its
output. -/
theorem synced (hk : Kept config m directory sources log s) (hlayout : Layout m sources)
    (hfile : file ∈ sources) (hplace : Place m file module out) {source : Source}
    {transformer : Transformer} {t : Tree}
    (hfaithful : Faithful config (calls m log ++ source.calls module) transformer)
    (hothers : ∀ p, p ≠ module → transformer.find? p = s.outputs.transformer.find? p)
    (hsame : Tree.SameBut (out.location directory) s.tree t)
    (hheld : ∀ cached, transformer.find? module = some cached →
      t.file? (out.location directory) = some cached.output.code.toUTF8.toList) :
    Kept config m directory sources (log ++ [Seen.mk file source])
      ⟨{ s.outputs with transformer }, t⟩ where
  outputs := by rw [hk.outputs]
  based := hsame.workingDirectory.trans hk.based
  logged := List.forall_mem_append.mpr ⟨hk.logged, by simpa using hfile⟩
  faithful := by rwa [calls_snoc hplace.module]
  held := by
    intro other hother module' out' cached hplace' hfind
    by_cases heq : file.components = other.components
    · -- the same source, maybe written in another way
      have hmodule := hlayout.module_of_same hfile hother heq
      rw [hplace.module, hplace'.module] at hmodule
      obtain rfl := Option.some.inj hmodule
      rw [← hlayout.location_of_same hfile hother hplace.output hplace'.output heq]
      exact hheld cached hfind
    · -- another source has another module and another output
      have hmodule : module' ≠ module := by
        rintro rfl
        exact heq (hlayout.same_of_module hfile hother hplace.module hplace'.module)
      have hlocation : out'.location directory ≠ out.location directory := fun hl =>
        heq (hlayout.same_of_location hfile hother hplace.output hplace'.output hl.symm)
      rw [hothers module' hmodule] at hfind
      rw [hsame.files _ hlocation]
      exact hk.held other hother module' out' cached hplace' hfind

section

variable {texts : Set String} (hdigest : Set.InjOn Digest.ofText texts)
  (hlayout : Layout m sources) (hk : Kept config m directory sources log s)
  (hfile : file ∈ sources) (hplace : Place m file module out)
include hlayout hk hfile hplace

theorem sync_missing (hfound : Source.ofTree s.tree file = .missing)
    (hsucceeds : s.succeeds (.sync file) = true) :
    Kept config m directory sources (log ++ [Seen.mk file .missing]) (s.act (.sync file)).1 ∧
      Tree.SameBut (out.location directory) s.tree (s.act (.sync file)).1.tree ∧
      (s.act (.sync file)).1.tree.exists? out = false ∧
      (s.act (.sync file)).2 = some (.prune module) := by
  obtain ⟨hchange, hact⟩ := Mirror.act_sync_missing (hk.isSource hlayout hfile) (hk.place hplace)
    hfound
  obtain ⟨hsame, hgone⟩ := Change.remove_spec (Mirror.change_succeeds hsucceeds hchange)
  rw [hk.based] at hsame
  rw [hact]
  refine ⟨hk.synced hlayout hfile hplace ?_ (fun p hp => ?_) hsame fun cached hcached => ?_,
    hsame, hgone, rfl⟩
  · exact hk.faithful.invalidate module
  · rw [Transformer.invalidate, find?_forget, if_neg hp]
  · rw [Transformer.invalidate, find?_forget, if_pos rfl] at hcached
    cases hcached

theorem sync_unreadable (hfound : Source.ofTree s.tree file = .unreadable) :
    Kept config m directory sources (log ++ [Seen.mk file .unreadable]) (s.act (.sync file)).1 ∧
      Tree.SameBut (out.location directory) s.tree (s.act (.sync file)).1.tree := by
  rw [Mirror.act_sync_unreadable (hk.isSource hlayout hfile) (hk.place hplace) hfound]
  refine ⟨hk.synced hlayout hfile hplace ?_ (fun _ _ => rfl) (.refl _ _) fun cached hcached => ?_,
    .refl _ _⟩
  · rw [Source.calls, List.append_nil]
    exact hk.faithful
  · exact hk.held file hfile module out cached hplace hcached

include hdigest

variable {code : String} (hfound : Source.ofTree s.tree file = .text code) (hcode : code ∈ texts)
  (hlog : ∀ e ∈ log, ∀ code, e.source = .text code → code ∈ texts)
include hfound hcode hlog

theorem sync_refused {cause : TransformError}
    (hrun : (Wrap.transform config code module).1 = .error cause) :
    Kept config m directory sources (log ++ [Seen.mk file (.text code)]) (s.act (.sync file)).1 ∧
      (s.act (.sync file)).1.tree = s.tree ∧
      (s.act (.sync file)).2 = some (.error module cause) := by
  have hanswer : (s.outputs.transformer.transform code module).1.1 =
      (Wrap.transform config code module).1 :=
    hk.faithful.transform_eq hdigest (texts_of_seen hlog) hcode
  rw [hrun] at hanswer
  have hfaithful : Faithful config (calls m log ++ [.transform code module])
      (s.outputs.transformer.transform code module).2 :=
    hk.faithful.transform hdigest (texts_of_seen hlog) hcode
  rw [transform_of_error hanswer] at hfaithful
  rw [Mirror.act_sync_refused (hk.isSource hlayout hfile) (hk.place hplace) hfound hanswer]
  refine ⟨hk.synced hlayout hfile hplace hfaithful (fun _ _ => rfl) (.refl _ _)
    fun cached hcached => ?_, rfl, rfl⟩
  exact hk.held file hfile module out cached hplace hcached

theorem sync_made {output : Output} (hrun : (Wrap.transform config code module).1 = .ok output)
    (hsucceeds : s.succeeds (.sync file) = true) :
    Kept config m directory sources (log ++ [Seen.mk file (.text code)]) (s.act (.sync file)).1 ∧
      Tree.SameBut (out.location directory) s.tree (s.act (.sync file)).1.tree ∧
      (s.act (.sync file)).1.tree.read out = .ok output.code.toUTF8.toList ∧
      ∃ cached, (s.act (.sync file)).2 = some (.update module out cached) ∧
        (cached = true ↔ lastSynced config module file log = some code) := by
  have hanswer : (s.outputs.transformer.transform code module).1.1 =
      (Wrap.transform config code module).1 :=
    hk.faithful.transform_eq hdigest (texts_of_seen hlog) hcode
  rw [hrun] at hanswer
  have hfaithful : Faithful config (calls m log ++ [.transform code module])
      (s.outputs.transformer.transform code module).2 :=
    hk.faithful.transform hdigest (texts_of_seen hlog) hcode
  have hfind := find?_transform_ok hanswer
  obtain ⟨hchange, hact⟩ := Mirror.act_sync_made (hk.isSource hlayout hfile) (hk.place hplace)
    hfound hanswer
  have hcached : s.outputs.transformer.isCached module code = true ↔
      lastSynced config module file log = some code :=
    (hk.faithful.isCached_iff hdigest (texts_of_seen hlog) hcode).trans
      (lastSynced_iff hlayout hfile hplace.module hk.logged).symm
  have hothers : ∀ p, p ≠ module → (s.outputs.transformer.transform code module).2.find? p =
      s.outputs.transformer.find? p := fun p hp => find?_transform_ne code hp
  have hheld : ∀ t : Tree, t.file? (out.location directory) = some output.code.toUTF8.toList →
      ∀ cached, (s.outputs.transformer.transform code module).2.find? module = some cached →
        t.file? (out.location directory) = some cached.output.code.toUTF8.toList := by
    intro t ht cached hcached
    obtain rfl := Option.some.inj (hfind.symm.trans hcached)
    exact ht
  rw [hact]
  by_cases hkeep : (s.outputs.transformer.isCached module code && s.tree.exists? out) = true
  · rw [if_pos hkeep]
    -- nothing is written, as the output holds what is remembered
    rw [Bool.and_eq_true] at hkeep
    have hsame : s.tree.file? (out.location directory) = some output.code.toUTF8.toList := by
      rw [transform_of_isCached hkeep.1] at hfind
      exact hk.held file hfile module out _ hplace hfind
    have hread := Tree.read_of_exists hkeep.2 (hk.based.symm ▸ hsame)
    exact ⟨hk.synced hlayout hfile hplace hfaithful hothers (.refl _ _) (hheld _ hsame),
      .refl _ _, hread, _, rfl, hcached⟩
  · rw [if_neg hkeep] at hchange ⊢
    obtain ⟨hsame, hread, hwritten⟩ := Change.write_spec (Mirror.change_succeeds hsucceeds hchange)
    rw [hk.based] at hsame hwritten
    exact ⟨hk.synced hlayout hfile hplace hfaithful hothers hsame (hheld _ hwritten), hsame, hread,
      _, rfl, hcached⟩

end

/-! ### Runs -/

variable {texts : Set String}

theorem sync (hlayout : Layout m sources) (hdigest : Set.InjOn Digest.ofText texts)
    (hk : Kept config m directory sources log s) (hfile : file ∈ sources)
    (hplace : Place m file module out) (hsucceeds : s.succeeds (.sync file) = true)
    (htexts : ∀ e ∈ log ++ s.found (.sync file), ∀ code, e.source = .text code → code ∈ texts) :
    Kept config m directory sources (log ++ s.found (.sync file)) (s.act (.sync file)).1 ∧
      Tree.SameBut (out.location directory) s.tree (s.act (.sync file)).1.tree := by
  rw [Mirror.found, List.forall_mem_append, List.forall_mem_singleton] at htexts
  obtain ⟨hlog, hcode⟩ := htexts
  rw [Mirror.found]
  cases hfound : Source.ofTree s.tree file with
  | missing =>
    obtain ⟨hnext, hsame, -⟩ := hk.sync_missing hlayout hfile hplace hfound hsucceeds
    exact ⟨hnext, hsame⟩
  | unreadable => exact hk.sync_unreadable hlayout hfile hplace hfound
  | text code =>
    have hmem := hcode code hfound
    cases hrun : (Wrap.transform config code module).1 with
    | error cause =>
      obtain ⟨hnext, htree, -⟩ :=
        hk.sync_refused hdigest hlayout hfile hplace hfound hmem hlog hrun
      exact ⟨hnext, htree ▸ .refl _ _⟩
    | ok output =>
      obtain ⟨hnext, hsame, -⟩ :=
        hk.sync_made hdigest hlayout hfile hplace hfound hmem hlog hrun hsucceeds
      exact ⟨hnext, hsame⟩

theorem act (hlayout : Layout m sources) (hdigest : Set.InjOn Digest.ofText texts)
    (hk : Kept config m directory sources log s) {action : Action}
    (hallowed : action.Allowed m directory sources) (hsucceeds : s.succeeds action = true)
    (htexts : ∀ e ∈ log ++ s.found action, ∀ code, e.source = .text code → code ∈ texts) :
    Kept config m directory sources (log ++ s.found action) (s.act action).1 := by
  cases action with
  | write file bytes =>
    obtain ⟨t, hwrite⟩ := exists_of_isOk hsucceeds
    obtain ⟨hsame, -⟩ := Tree.write_spec hwrite
    have hact : (s.act (.write file bytes)).1 = { s with tree := t } := by
      simp only [Mirror.act, hwrite]
      rfl
    rw [hk.based] at hsame
    rw [hact, Mirror.found, List.append_nil]
    exact hk.elsewhere hsame hallowed
  | remove file =>
    obtain ⟨t, hremove⟩ := exists_of_isOk hsucceeds
    obtain ⟨hsame, -⟩ := Tree.remove_spec hremove
    have hact : (s.act (.remove file)).1 = { s with tree := t } := by
      simp only [Mirror.act, hremove]
      rfl
    rw [hk.based] at hsame
    rw [hact, Mirror.found, List.append_nil]
    exact hk.elsewhere hsame hallowed
  | sync file =>
    obtain ⟨module, out, hplace⟩ := hlayout.place hallowed
    exact (hk.sync hlayout hdigest hallowed hplace hsucceeds htexts).1

theorem after (hlayout : Layout m sources) (hdigest : Set.InjOn Digest.ofText texts)
    (hk : Kept config m directory sources log s) {actions : List Action}
    (hallowed : ∀ action ∈ actions, action.Allowed m directory sources)
    (hsucceeds : s.allSucceed actions = true)
    (htexts : ∀ e ∈ log ++ s.seen actions, ∀ code, e.source = .text code → code ∈ texts) :
    Kept config m directory sources (log ++ s.seen actions) (s.after actions) := by
  induction actions generalizing s log with
  | nil =>
    rw [Mirror.seen, List.append_nil]
    exact hk
  | cons action actions ih =>
    rw [List.forall_mem_cons] at hallowed
    rw [Mirror.seen, ← List.append_assoc] at htexts ⊢
    rw [Mirror.allSucceed, Bool.and_eq_true] at hsucceeds
    obtain ⟨hnow, hrest⟩ := hsucceeds
    have hfirst := hk.act hlayout hdigest hallowed.1 hnow fun e he =>
      htexts e (List.mem_append_left _ he)
    exact ih hfirst hallowed.2 hrest htexts

end Kept

theorem Mirror.allSucceed_append (s : Mirror) (as bs : List Action) :
    s.allSucceed (as ++ bs) = (s.allSucceed as && (s.after as).allSucceed bs) := by
  induction as generalizing s with
  | nil => rfl
  | cons a as ih =>
    rw [List.cons_append, allSucceed, allSucceed, ih, Bool.and_assoc]
    rfl

theorem Mirror.seen_append (s : Mirror) (as bs : List Action) :
    s.seen (as ++ bs) = s.seen as ++ (s.after as).seen bs := by
  induction as generalizing s with
  | nil => rfl
  | cons a as ih =>
    rw [List.cons_append, seen, seen, ih, List.append_assoc]
    rfl

/-- When a source has been brought in line in a run in which every operation on files succeeds and
nothing else touches the outputs, its output holds the transform of its text if there is one; if the
text has no transform, the output is as it was; and if there is no source, there is no output. The
report says so, and that the module was cached exactly when the last sync of the source that succeeded,
since it was last pruned, saw the same text. No other file changes. -/
theorem Mirror.sync_mirrors (config : Config) {m : Outputs} (hnew : m.transformer = { config })
    (t : Tree) {sources : Set Path} (hlayout : Layout m sources) {texts : Set String}
    (hdigest : Set.InjOn Digest.ofText texts) (actions : List Action) (file : Path)
    (hallowed : ∀ action ∈ actions ++ [.sync file],
      action.Allowed m t.workingDirectory sources)
    (hsucceeds : (Mirror.mk m t).allSucceed (actions ++ [.sync file]) = true)
    (htexts : ∀ e ∈ (Mirror.mk m t).seen (actions ++ [.sync file]), ∀ code,
      e.source = .text code → code ∈ texts) :
    let log := (Mirror.mk m t).seen actions
    let s := (Mirror.mk m t).after actions
    let s' := (s.act (.sync file)).1
    let report := (s.act (.sync file)).2
    ∃ module out, m.modulePath? file = some module ∧ m.outputPath? file = some out ∧
      (∀ code output, s.tree.readLossy file = .ok code →
        (Wrap.transform config code module).1 = .ok output →
        s'.tree.read out = .ok output.code.toUTF8.toList ∧
          ∃ cached, report = some (.update module out cached) ∧
            (cached = true ↔ lastSynced config module file log = some code)) ∧
      (∀ code cause, s.tree.readLossy file = .ok code →
        (Wrap.transform config code module).1 = .error cause →
        s'.tree = s.tree ∧ report = some (.error module cause)) ∧
      (s.tree.exists? file = false →
        s'.tree.exists? out = false ∧ report = some (.prune module)) ∧
      ∀ l, l ≠ out.location t.workingDirectory → s'.tree.file? l = s.tree.file? l := by
  intro log s s' report
  rw [List.forall_mem_append, List.forall_mem_singleton] at hallowed
  rw [allSucceed_append, Bool.and_eq_true] at hsucceeds
  rw [seen_append] at htexts
  obtain ⟨hearlier, hfile⟩ := hallowed
  obtain ⟨hbefore, hlast⟩ := hsucceeds
  have hsync : s.succeeds (.sync file) = true := (Bool.and_eq_true_iff.mp hlast).1
  obtain ⟨hlog, hnow⟩ := List.forall_mem_append.mp htexts
  have hk : Kept config m t.workingDirectory sources log s := by
    have hrun := (Kept.start t hnew).after hlayout hdigest hearlier hbefore hlog
    rwa [List.nil_append] at hrun
  obtain ⟨module, out, hplace⟩ := hlayout.place hfile
  have hcode : ∀ code, Source.ofTree s.tree file = .text code → code ∈ texts := fun code hfound =>
    hnow ⟨file, Source.ofTree s.tree file⟩ (by simp [seen, found, s]) code hfound
  refine ⟨module, out, hplace.module, hplace.output, fun code output hread hrun => ?_,
    fun code cause hread hrun => ?_, fun hmissing => ?_, ?_⟩
  · -- the text has a transform
    have hfound := Source.ofTree_text hread
    obtain ⟨-, -, hout⟩ := hk.sync_made hdigest hlayout hfile hplace hfound (hcode code hfound) hlog
      hrun hsync
    exact hout
  · -- it has none
    have hfound := Source.ofTree_text hread
    obtain ⟨-, hout⟩ := hk.sync_refused hdigest hlayout hfile hplace hfound (hcode code hfound) hlog
      hrun
    exact hout
  · obtain ⟨-, -, hout⟩ := hk.sync_missing hlayout hfile hplace (Source.ofTree_missing hmissing)
      hsync
    exact hout
  · have hseen : (Mirror.mk m t).seen actions ++ s.found (.sync file) =
        (Mirror.mk m t).seen actions ++ s.seen [.sync file] := by simp [seen]
    exact (hk.sync hlayout hdigest hfile hplace hsync (hseen ▸ htexts)).2.files

def follower : Outputs :=
  { root := .ofText "src", outDir := .ofText "out", transformer := { config := {} } }

def followed : List Path := [.ofText "src/a.ts", .ofText "src/b.js"]

theorem follower_layout : Layout follower {file | file ∈ followed} where
  source := by
    change ∀ file ∈ followed, _
    decide
  below := by
    rintro file (_ | ⟨_, _ | ⟨_, ⟨⟩⟩⟩)
    · exact ⟨["a.ts"], by decide, by decide, by decide⟩
    · exact ⟨["b.js"], by decide, by decide, by decide⟩
  apart := by
    change ∀ file ∈ followed, ∀ other ∈ followed, _
    decide

theorem followed_allowed {file : Path} (hfile : file ∈ followed) (bytes : List UInt8) :
    (Action.write file bytes).Allowed follower ["w"] {file | file ∈ followed} := by
  have hapart : ∀ file ∈ followed, ∀ source ∈ followed, ∀ out,
      follower.outputPath? source = some out → file.location ["w"] ≠ out.location ["w"] := by
    decide +kernel
  exact hapart file hfile

def mended : List Action :=
  [.write (.ofText "src/a.ts") "1;".toUTF8.toList, .sync (.ofText "src/a.ts"),
    .write (.ofText "src/b.js") "2;".toUTF8.toList,
    .write (.ofText "src/a.ts") "(".toUTF8.toList, .sync (.ofText "src/a.ts"),
    .write (.ofText "src/a.ts") "1;".toUTF8.toList]

def following : Mirror := ⟨follower, .empty ["w"]⟩

theorem Mirror.sync_mirrors_mended :
    following.allSucceed (mended ++ [.sync (.ofText "src/a.ts")]) = true ∧
    ∃ output, (Wrap.transform {} "1;" "/a.ts").1 = .ok output ∧
      (((following.after mended).act (.sync (.ofText "src/a.ts"))).1.tree.read
        (.ofText "out/a.js")) = .ok output.code.toUTF8.toList ∧
      ((following.after mended).act (.sync (.ofText "src/a.ts"))).2 =
        some (.update "/a.ts" (.ofText "out/a.js") true) := by
  obtain ⟨hsucceeds, hseen, hread, hlast⟩ :
      following.allSucceed (mended ++ [.sync (.ofText "src/a.ts")]) = true ∧
      ((following.seen (mended ++ [.sync (.ofText "src/a.ts")])).all fun e =>
        match e.source with
        | .text code => code = "1;" || code = "("
        | _ => false) = true ∧
      (following.after mended).tree.readLossy (.ofText "src/a.ts") = .ok "1;" ∧
      lastSynced {} "/a.ts" (.ofText "src/a.ts") (following.seen mended) = some "1;" := by
    decide +kernel
  have hdigest : Set.InjOn Digest.ofText {"1;", "("} := Set.injOn_pair.mpr (by decide +kernel)
  have hallowed : ∀ action ∈ mended ++ [.sync (.ofText "src/a.ts")],
      action.Allowed follower ["w"] {file | file ∈ followed} := by
    have ha : Path.ofText "src/a.ts" ∈ followed := .head _
    have hb : Path.ofText "src/b.js" ∈ followed := .tail _ (.head _)
    simp only [mended, List.cons_append, List.nil_append, List.forall_mem_cons]
    exact ⟨followed_allowed ha _, ha, followed_allowed hb _, followed_allowed ha _, ha,
      followed_allowed ha _, ha, List.forall_mem_nil _⟩
  have htexts : ∀ e ∈ following.seen (mended ++ [.sync (.ofText "src/a.ts")]), ∀ code,
      e.source = .text code → code ∈ ({"1;", "("} : Set String) := by
    intro e he code hcode
    have h := List.all_eq_true.mp hseen e he
    rw [hcode] at h
    simpa using h
  obtain ⟨output, hrun⟩ : Transformer.Succeeds {} "1;" "/a.ts" := by decide +kernel
  obtain ⟨module, out, hmodule, hout, hmade, -⟩ := Mirror.sync_mirrors {} (m := follower) rfl
    (.empty ["w"]) follower_layout hdigest mended (.ofText "src/a.ts") hallowed hsucceeds htexts
  obtain rfl : "/a.ts" = module := Option.some.inj (Eq.trans (by decide) hmodule)
  obtain rfl : Path.ofText "out/a.js" = out := Option.some.inj (Eq.trans (by decide) hout)
  obtain ⟨hfile, cached, hreport, hcached⟩ := hmade "1;" output hread hrun
  rw [hcached.mpr hlast] at hreport
  exact ⟨hsucceeds, output, hrun, hfile, hreport⟩

end ModuleHost.Watch
