import ModuleHost.Proofs.Files.Extensions
import ModuleHost.Proofs.Watch.Mirror

/-! Outputs that belong to two sources. The extension of a source does not show in the name of its
output, so modules that are told apart by nothing else write and remove one output between them; any
two others have outputs of their own, and what is done about one never touches the other. -/

namespace ModuleHost.Watch

open ModuleHost.Files ModuleHost.Wrap

variable {m : Outputs} {file other root out out' : Path} {names others : List String}

/-- Names that lead to modules in one directory and differ in the extension of the last one only. -/
def Twins (names others : List String) : Prop :=
  ∃ front stem extension extension', stem ≠ "" ∧ extension ≠ extension' ∧
    extension ∈ moduleExtensions ∧ extension' ∈ moduleExtensions ∧
    names = front ++ [stem ++ "." ++ extension] ∧ others = front ++ [stem ++ "." ++ extension']

theorem moduleExtensions_plain : ∀ extension ∈ moduleExtensions, '.' ∉ extension.toList := by
  decide

theorem names_of_module (h : file.Below root names) (hmodule : isModuleFile file = true) :
    ∃ front stem extension, stem ≠ "" ∧ extension ∈ moduleExtensions ∧
      names = front ++ [stem ++ "." ++ extension] := by
  obtain ⟨front, last, rfl⟩ : ∃ front last, names = front ++ [last] :=
    ⟨_, _, (List.dropLast_append_getLast h.proper).symm⟩
  have hname : file.fileName? = some last := by simp [Path.fileName?, h.components]
  rw [isModuleFile, Path.extension?, hname, Option.bind_some, Option.any_eq_true] at hmodule
  obtain ⟨extension, hextension, hmem⟩ := hmodule
  obtain ⟨hlast, hstem, -⟩ := Path.eq_of_splitExtension (Prod.ext rfl hextension)
  exact ⟨front, _, extension, hstem, List.contains_iff_mem.mp hmem, by rw [← hlast]⟩

theorem outputNames_module {front : List String} {stem extension : String} (hstem : stem ≠ "")
    (hextension : extension ∈ moduleExtensions) :
    outputNames (front ++ [stem ++ "." ++ extension]) = front ++ [stem ++ "." ++ "js"] := by
  simp [outputNames,
    Path.splitExtension_append hstem (moduleExtensions_plain extension hextension)]

theorem outputNames_eq_iff (h : file.Below root names) (hother : other.Below root others)
    (hmodule : isModuleFile file = true) (hmodule' : isModuleFile other = true)
    (hne : names ≠ others) : outputNames names = outputNames others ↔ Twins names others := by
  constructor
  · obtain ⟨front, stem, extension, hstem, hextension, rfl⟩ := names_of_module h hmodule
    obtain ⟨front', stem', extension', hstem', hextension', rfl⟩ :=
      names_of_module hother hmodule'
    rw [outputNames_module hstem hextension, outputNames_module hstem' hextension']
    intro hsame
    obtain ⟨rfl, hlast⟩ := List.append_inj' hsame rfl
    obtain rfl : stem = stem' := by simpa [String.append_assoc] using hlast
    refine ⟨front, stem, extension, extension', hstem, ?_, hextension, hextension', rfl, rfl⟩
    rintro rfl
    exact hne rfl
  · rintro ⟨front, stem, extension, extension', hstem, -, hextension, hextension', rfl, rfl⟩
    rw [outputNames_module hstem hextension, outputNames_module hstem hextension']

/-- The output that a change is made to. -/
def Change.target : Change → Path
  | .write out _ | .remove out => out

theorem Change.apply_sameBut (t : Tree) (change : Change) :
    Tree.SameBut (change.target.location t.workingDirectory) t (change.apply t) := by
  cases change with
  | write out code =>
    rw [apply]
    cases hwrite : t.write out code.toUTF8.toList with
    | error fault => exact .refl _ t
    | ok t' => exact (Tree.write_spec hwrite).1
  | remove out =>
    rw [apply]
    cases hremove : t.remove out with
    | error fault => exact .refl _ t
    | ok t' => exact (Tree.remove_spec hremove).1

namespace Mirror

theorem act_sync_tree (s : Mirror) (file : Path) :
    (s.act (.sync file)).1.tree = (s.change? file).elim s.tree (·.apply s.tree) := by
  simp only [act, change?, Outputs.sync]
  split
  · rename_i hstep
    rw [hstep]
    rfl
  · rename_i hstep
    rw [hstep]
    rfl

/-- What a sync does to the outputs, and when: it removes the output of a source that is gone, or
writes the transform of the text that is found. -/
theorem change_cases {s : Mirror} {change : Change} (h : s.change? file = some change) :
    ∃ module out, s.outputs.isSource file = true ∧ Place s.outputs file module out ∧
      ((Source.ofTree s.tree file = .missing ∧ change = .remove out) ∨
        ∃ code made, Source.ofTree s.tree file = .text code ∧
          (s.outputs.transformer.transform code module).1.1 = .ok made ∧
          change = .write out made.code) := by
  rw [change?, Outputs.step] at h
  split at h
  · rename_i hsource
    split at h
    · rename_i module out hmodule hout
      refine ⟨module, out, hsource, ⟨hmodule, hout⟩, ?_⟩
      cases hfound : Source.ofTree s.tree file with
      | missing =>
        rw [hfound] at h
        cases h
        exact .inl ⟨rfl, rfl⟩
      | unreadable =>
        rw [hfound] at h
        cases h
      | text code =>
        rw [hfound, Outputs.stepAt] at h
        split at h
        · cases h
        · rename_i made events transformer hrun
          simp only [Option.bind_some] at h
          split at h
          · cases h
          · cases h
            exact .inr ⟨code, made, rfl, by rw [hrun], rfl⟩
    · cases h
  · cases h

theorem act_sync_sameBut {s : Mirror} (hout : s.outputs.outputPath? file = some out) :
    Tree.SameBut (out.location s.tree.workingDirectory) s.tree (s.act (.sync file)).1.tree := by
  rw [act_sync_tree]
  cases hchange : s.change? file with
  | none => exact .refl _ s.tree
  | some change =>
    obtain ⟨module, out', -, hplace, hmade⟩ := change_cases hchange
    obtain rfl := Option.some.inj (hout.symm.trans hplace.output)
    obtain ⟨-, rfl⟩ | ⟨code, made, -, -, rfl⟩ := hmade
    · exact Change.apply_sameBut s.tree (.remove out)
    · exact Change.apply_sameBut s.tree (.write out made.code)

/-- Two modules below the root have one output exactly if their names differ in an extension only.
If they do not, a sync of one leaves the output of the other as it is, whatever has been remembered
and whatever is in the tree. If they do, it writes the transform of the one, or removes the output
when that one is gone. -/
theorem sync_shares_output (s : Mirror) {file other : Path} {names others : List String}
    (hbelow : file.Below s.outputs.root names) (hbelow' : other.Below s.outputs.root others)
    (hmodule : isModuleFile file = true) (hmodule' : isModuleFile other = true)
    (hne : file.components ≠ other.components) :
    ∃ module out out', Place s.outputs file module out ∧
      s.outputs.outputPath? other = some out' ∧
      (out.components = out'.components ↔ Twins names others) ∧
      let output := out'.location s.tree.workingDirectory
      let after := (s.act (.sync file)).1.tree
      (¬Twins names others → after.file? output = s.tree.file? output) ∧
      (Twins names others → s.outputs.isSource file = true →
        (s.tree.exists? file = false → (s.tree.remove out).isOk = true →
          after.file? output = none) ∧
        ∀ code made, s.tree.readLossy file = .ok code →
          (s.outputs.transformer.transform code module).1.1 = .ok made →
          (s.outputs.transformer.isCached module code && s.tree.exists? out) = false →
          (s.tree.write out made.code.toUTF8.toList).isOk = true →
          after.file? output = some made.code.toUTF8.toList) := by
  have hnames : names ≠ others := by
    rintro rfl
    exact hne (hbelow.components.trans hbelow'.components.symm)
  have htwins := outputNames_eq_iff hbelow hbelow' hmodule hmodule' hnames
  obtain ⟨out, hout, hcomponents⟩ := outputPath?_eq hbelow
  obtain ⟨out', hout', hcomponents'⟩ := outputPath?_eq hbelow'
  have hplace : Place s.outputs file (serverPath names) out := ⟨modulePath?_eq hbelow, hout⟩
  have hlocation := location_output hbelow hout s.tree.workingDirectory
  have hlocation' := location_output hbelow' hout' s.tree.workingDirectory
  refine ⟨_, out, out', hplace, hout', ?_, fun hapart => ?_, fun hshared hsource => ?_⟩
  · rw [hcomponents, hcomponents', List.append_cancel_left_eq, ← htwins]
    exact (List.map_injective_iff.mpr fun _ _ h => Component.name.inj h).eq_iff
  · refine (act_sync_sameBut hout).files _ fun hsame => hapart ?_
    rw [hlocation, hlocation', List.append_cancel_left_eq] at hsame
    exact htwins.mp hsame.symm
  · -- the two outputs are at one place
    have hsame : out'.location s.tree.workingDirectory = out.location s.tree.workingDirectory := by
      rw [hlocation, hlocation', htwins.mpr hshared]
    rw [hsame]
    refine ⟨fun hmissing hremove => ?_, fun code made hread hrun hstale hwrite => ?_⟩
    · obtain ⟨t, ht⟩ := exists_of_isOk hremove
      obtain ⟨-, -, rfl⟩ := Tree.remove_eq ht
      rw [(act_sync_missing hsource hplace (Source.ofTree_missing hmissing)).2]
      simp only [Change.apply, ht]
      exact (Tree.file?_erase s.tree _ _).trans (if_pos rfl)
    · have hact := (act_sync_made hsource hplace (Source.ofTree_text hread) hrun).2
      rw [hstale] at hact
      rw [hact]
      exact (Change.write_spec hwrite).2.2

/-- A module is brought in line, and a twin of it comes and goes. -/
def visited : List Action :=
  [.write (.ofText "src/a.ts") "1;".toUTF8.toList, .sync (.ofText "src/a.ts"),
    .write (.ofText "src/a.js") "2;".toUTF8.toList, .remove (.ofText "src/a.js")]

theorem sync_shares_output_visited :
    let s := following.after visited
    let output := (Path.ofText "out/a.js").location ["w"]
    (s.tree.file? output).isSome = true ∧
      (s.act (.sync (.ofText "src/a.js"))).1.tree.file? output = none := by
  intro s output
  obtain ⟨hheld, hbased, hmissing, hremove⟩ :
      (s.tree.file? output).isSome = true ∧ s.tree.workingDirectory = ["w"] ∧
      s.tree.exists? (.ofText "src/a.js") = false ∧
      (s.tree.remove (.ofText "out/a.js")).isOk = true := by
    decide +kernel
  obtain ⟨hsource, hjsOut, htsOut⟩ :
      s.outputs.isSource (.ofText "src/a.js") = true ∧
      s.outputs.outputPath? (.ofText "src/a.js") = some (.ofText "out/a.js") ∧
      s.outputs.outputPath? (.ofText "src/a.ts") = some (.ofText "out/a.js") := by
    decide +kernel
  have hjs : (Path.ofText "src/a.js").Below s.outputs.root ["a.js"] :=
    ⟨by decide +kernel, by decide, by decide⟩
  have hts : (Path.ofText "src/a.ts").Below s.outputs.root ["a.ts"] :=
    ⟨by decide +kernel, by decide, by decide⟩
  have htwins : Twins ["a.js"] ["a.ts"] :=
    ⟨[], "a", "js", "ts", by decide, by decide, by decide, by decide, rfl, rfl⟩
  obtain ⟨module, out, out', hplace, hout', -, -, hshared⟩ :=
    sync_shares_output s hjs hts (by decide) (by decide) (by decide)
  obtain rfl := Option.some.inj (hjsOut.symm.trans hplace.output)
  obtain rfl := Option.some.inj (htsOut.symm.trans hout')
  rw [hbased] at hshared
  exact ⟨hheld, (hshared htwins hsource).1 hmissing hremove⟩

/-- Different modules, both below the root, of which one is pruned and the other loses its
output. -/
theorem output_lost :
    let module := Path.ofText "src/a.ts"
    let twin := Path.ofText "src/a.js"
    let s := following.after visited
    let pruned := (s.act (.sync twin)).1
    isModuleFile module = true ∧ isModuleFile twin = true ∧ module.components ≠ twin.components ∧
      s.outputs.outputPath? module = some (.ofText "out/a.js") ∧
      s.outputs.outputPath? twin = some (.ofText "out/a.js") ∧
      s.tree.exists? (.ofText "out/a.js") = true ∧
      pruned.tree.exists? (.ofText "out/a.js") = false ∧ pruned.tree.exists? module = true := by
  decide +kernel

end Mirror

end ModuleHost.Watch
