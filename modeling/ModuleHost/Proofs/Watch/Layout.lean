import Mathlib.Data.Set.Basic
import ModuleHost.Proofs.Files.Frames
import ModuleHost.Watch.Outputs

/-! Which module a source is and where its output lies. Both are read off the names that lead to the
source from its root, so sources with different outputs are different modules. -/

namespace ModuleHost.Watch

open ModuleHost.Files

def serverPath (names : List String) : String :=
  String.ofList (names.flatMap fun name => '/' :: name.toList)

def outputNames (names : List String) : List String :=
  names.dropLast ++ [(Path.splitExtension (names.getLast?.getD "")).1 ++ "." ++ "js"]

variable {m : Outputs} {file other root outDir out : Path} {names : List String}

theorem modulePath?_eq (h : file.Below m.root names) :
    m.modulePath? file = some (serverPath names) := by
  obtain ⟨relative, hrelative, -, hcomponents⟩ := h.relative
  rw [Outputs.modulePath?, hrelative, Option.map_some, Path.url_of_names hcomponents h.proper]
  rfl

theorem outputPath?_eq (h : file.Below m.root names) :
    ∃ out, m.outputPath? file = some out ∧
      out.components = m.outDir.components ++ (outputNames names).map .name := by
  obtain ⟨relative, hrelative, hinner, hcomponents⟩ := h.relative
  have hne : relative.segments ≠ [] := by
    intro hnil
    obtain ⟨segments⟩ := relative
    obtain rfl : segments = [] := hnil
    exact h.proper (List.map_eq_nil_iff.mp hcomponents.symm)
  refine ⟨_, by rw [Outputs.outputPath?, hrelative, Option.map_some], ?_⟩
  obtain ⟨front, last, rfl⟩ : ∃ front last, names = front ++ [last] :=
    ⟨_, _, (List.dropLast_append_getLast h.proper).symm⟩
  have hjoin : (m.outDir.join relative).components =
      m.outDir.components ++ front.map .name ++ [.name last] := by
    rw [Path.components_join _ hinner hne, hcomponents, List.map_append, List.append_assoc]
    rfl
  rw [Path.components_withExtension hjoin, outputNames]
  simp

theorem location_output (h : file.Below m.root names) (hout : m.outputPath? file = some out)
    (directory : Location) :
    out.location directory = m.outDir.location directory ++ outputNames names := by
  obtain ⟨o, ho, hcomponents⟩ := outputPath?_eq h
  obtain rfl : o = out := Option.some.inj (ho.symm.trans hout)
  rw [Path.location, hcomponents, List.foldl_append, location_names]
  rfl

/-- The sources that are followed: modules below a root, each with an output of its own. Paths are
the same when their components are. -/
structure Layout (m : Outputs) (sources : Set Path) : Prop where
  source : ∀ file ∈ sources, m.isSource file = true
  below : ∀ file ∈ sources, ∃ names, file.Below m.root names
  apart : ∀ file ∈ sources, ∀ other ∈ sources,
    (m.outputPath? file).map Path.components = (m.outputPath? other).map Path.components →
      file.components = other.components

/-- The module in a source and its output. -/
structure Place (m : Outputs) (file : Path) (module : String) (out : Path) : Prop where
  module : m.modulePath? file = some module
  output : m.outputPath? file = some out

namespace Layout

variable {sources : Set Path} {module module' : String} {out' : Path} {directory : Location}

theorem place (h : Layout m sources) (hfile : file ∈ sources) :
    ∃ module out, Place m file module out := by
  obtain ⟨names, hbelow⟩ := h.below file hfile
  obtain ⟨out, hout, -⟩ := outputPath?_eq hbelow
  exact ⟨_, out, modulePath?_eq hbelow, hout⟩

theorem same_of_module (h : Layout m sources) (hfile : file ∈ sources) (hother : other ∈ sources)
    (hmodule : m.modulePath? file = some module) (hsame : m.modulePath? other = some module) :
    file.components = other.components := by
  obtain ⟨names, hbelow⟩ := h.below file hfile
  obtain ⟨names', hbelow'⟩ := h.below other hother
  rw [modulePath?_eq hbelow] at hmodule
  rw [modulePath?_eq hbelow', ← hmodule, Option.some.injEq] at hsame
  have hnames := Path.names_injective hbelow'.plain hbelow.plain (String.ofList_injective hsame)
  rw [hbelow.components, hbelow'.components, hnames]

theorem module_of_same (h : Layout m sources) (hfile : file ∈ sources) (hother : other ∈ sources)
    (hsame : file.components = other.components) : m.modulePath? file = m.modulePath? other := by
  obtain ⟨names, hbelow⟩ := h.below file hfile
  obtain ⟨names', hbelow'⟩ := h.below other hother
  rw [modulePath?_eq hbelow, modulePath?_eq hbelow', hbelow.names_eq hbelow' hsame]

theorem location_of_same (h : Layout m sources) (hfile : file ∈ sources) (hother : other ∈ sources)
    (hout : m.outputPath? file = some out) (hout' : m.outputPath? other = some out')
    (hsame : file.components = other.components) :
    out.location directory = out'.location directory := by
  obtain ⟨names, hbelow⟩ := h.below file hfile
  obtain ⟨names', hbelow'⟩ := h.below other hother
  rw [location_output hbelow hout, location_output hbelow' hout', hbelow.names_eq hbelow' hsame]

theorem same_of_location (h : Layout m sources) (hfile : file ∈ sources) (hother : other ∈ sources)
    (hout : m.outputPath? file = some out) (hout' : m.outputPath? other = some out')
    (hsame : out.location directory = out'.location directory) :
    file.components = other.components := by
  obtain ⟨names, hbelow⟩ := h.below file hfile
  obtain ⟨names', hbelow'⟩ := h.below other hother
  rw [location_output hbelow hout, location_output hbelow' hout',
    List.append_cancel_left_eq] at hsame
  obtain ⟨o, ho, hcomponents⟩ := outputPath?_eq hbelow
  obtain ⟨o', ho', hcomponents'⟩ := outputPath?_eq hbelow'
  exact h.apart file hfile other hother (by simp [ho, ho', hcomponents, hcomponents', hsame])

end Layout

end ModuleHost.Watch
