import ModuleHost.Files.Tree
import ModuleHost.Proofs.Files.Components

/-! What the operations on a tree do to its files. Where a path leads is read off its components;
whether there is a way is up to the directories of the tree, and an operation that goes well changes
one file at most. -/

namespace ModuleHost.Files

def Location.enter (l : Location) : Component → Location
  | .root => []
  | .here => l
  | .up => l.dropLast
  | .name text => l ++ [text]

/-- Where a path leads from a directory. -/
def Path.location (p : Path) (directory : Location) : Location :=
  p.components.foldl Location.enter directory

theorem location_names (l : Location) (names : List String) :
    (names.map Component.name).foldl Location.enter l = l ++ names := by
  induction names generalizing l with
  | nil => simp
  | cons name names ih => simp [ih, Location.enter]

namespace Tree

variable {t t' : Tree} {l m : Location} {p : Path} {bytes : List UInt8} {n : Node}
  {segments : List String}

theorem foldl_follow (l : Location) (segments : List String) :
    segments.foldl follow l = (segments.filterMap Path.component?).foldl Location.enter l := by
  induction segments generalizing l with
  | nil => rfl
  | cons s rest ih =>
    rw [List.foldl_cons, ih]
    by_cases hblank : Path.isBlank s = true
    · simp [follow, Path.component?, hblank]
    · by_cases hup : s = ".."
      · simp [follow, Path.component?, hup, Location.enter, Path.isBlank]
      · simp [follow, Path.component?, hblank, hup, Location.enter]

theorem location_eq_foldl (t : Tree) (p : Path) :
    p.segments.foldl follow (t.startOf p) = p.location t.workingDirectory := by
  obtain hempty | ⟨⟨hstart, -⟩ | hstart | ⟨hstart, -⟩, hsegments⟩ := p.begins
  · obtain ⟨segments⟩ := p
    obtain rfl : segments = [""] := hempty
    rfl
  · simp [hsegments, startOf, Path.isAbsolute, Path.location, Path.components, hstart, follow,
      Path.isBlank, Path.startComponent, Location.enter, foldl_follow]
  · simp [hsegments, startOf, Path.isAbsolute, Path.location, Path.components, hstart, follow,
      Path.isBlank, Path.startComponent, Location.enter, foldl_follow]
  · simp [hsegments, startOf, Path.isAbsolute, Path.location, Path.components, hstart,
      foldl_follow]

theorem resolveFrom_eq (h : t.resolveFrom l segments = .ok m) : m = segments.foldl follow l := by
  induction segments generalizing l with
  | nil =>
    cases h
    rfl
  | cons s rest ih =>
    unfold resolveFrom at h
    split at h
    · exact ih h
    · cases h
    · cases h

theorem resolve_eq (h : t.resolve p = .ok l) : l = p.location t.workingDirectory := by
  unfold resolve at h
  split at h
  · cases h
  · rw [resolveFrom_eq h, location_eq_foldl]

theorem resolveFrom_mono (h : t.resolveFrom l segments = .ok m)
    (hdirectories : ∀ d, t.node? d = some .directory → t'.node? d = some .directory) :
    t'.resolveFrom l segments = .ok m := by
  induction segments generalizing l with
  | nil => exact h
  | cons s rest ih =>
    unfold resolveFrom at h ⊢
    split at h
    · rename_i hnode
      rw [hdirectories l hnode]
      exact ih h
    · cases h
    · cases h

theorem resolve_mono (h : t.resolve p = .ok l) (hwd : t'.workingDirectory = t.workingDirectory)
    (hdirectories : ∀ d, t.node? d = some .directory → t'.node? d = some .directory) :
    t'.resolve p = .ok l := by
  unfold resolve at h ⊢
  split at h
  · cases h
  · rename_i hne
    rw [if_neg hne, startOf, hwd]
    exact resolveFrom_mono h hdirectories

/-- The file at a location, if there is one. -/
def file? (t : Tree) (l : Location) : Option (List UInt8) :=
  match t.node? l with
  | some (.file bytes) => some bytes
  | _ => none

@[simp] theorem node?_nil (t : Tree) : t.node? [] = some .directory := rfl

theorem find?_erase (t : Tree) (l m : Location) (hne : m ≠ l) :
    (t.erase l).nodes.find? (·.1 = m) = t.nodes.find? (·.1 = m) := by
  rw [erase, List.find?_filter]
  congr 1
  funext e
  by_cases he : e.1 = m
  · simp [he, hne]
  · simp [he]

theorem node?_erase (t : Tree) (l m : Location) :
    (t.erase l).node? m =
      if m = [] then some .directory else if m = l then none else t.node? m := by
  by_cases hroot : m = []
  · simp [hroot]
  · rw [if_neg hroot]
    by_cases hm : m = l
    · subst hm
      simp [node?, erase, hroot]
    · rw [if_neg hm, node?, node?, find?_erase t l m hm]

theorem node?_put (t : Tree) (l m : Location) (n : Node) :
    (t.put l n).node? m =
      if m = [] then some .directory else if m = l then some n else t.node? m := by
  by_cases hroot : m = []
  · simp [hroot]
  · rw [if_neg hroot]
    by_cases hm : m = l
    · subst hm
      simp [node?, put, hroot]
    · rw [if_neg hm, node?, node?, put, List.find?_cons_of_neg (by simpa using Ne.symm hm),
        find?_erase t l m hm]

theorem node?_put_ne (t : Tree) (n : Node) (h : m ≠ l) : (t.put l n).node? m = t.node? m := by
  rw [node?_put, if_neg h]
  split
  · rename_i hroot
    rw [hroot, node?_nil]
  · rfl

theorem node?_erase_ne (t : Tree) (h : m ≠ l) : (t.erase l).node? m = t.node? m := by
  rw [node?_erase, if_neg h]
  split
  · rename_i hroot
    rw [hroot, node?_nil]
  · rfl

theorem file?_eq_some : t.file? l = some bytes ↔ t.node? l = some (.file bytes) := by
  rw [file?]
  split <;> simp_all

/-- What two trees have in common that differ in one file at most; directories may have been made. -/
structure SameBut (l : Location) (t t' : Tree) : Prop where
  workingDirectory : t'.workingDirectory = t.workingDirectory
  files : ∀ m, m ≠ l → t'.file? m = t.file? m

theorem SameBut.refl (l : Location) (t : Tree) : SameBut l t t := ⟨rfl, fun _ _ => rfl⟩

theorem file?_put_directory (h : t.node? l = none) (m : Location) :
    (t.put l .directory).file? m = t.file? m := by
  by_cases hm : m = l
  · subst hm
    rw [file?, file?, node?_put, h]
    split <;> simp_all
  · rw [file?, file?, node?_put_ne t _ hm]

theorem makeFrom_spec (h : t.makeFrom l segments = .ok t') :
    t'.workingDirectory = t.workingDirectory ∧ ∀ m, t'.file? m = t.file? m := by
  induction segments generalizing t l with
  | nil =>
    cases h
    exact ⟨rfl, fun _ => rfl⟩
  | cons s rest ih =>
    simp only [makeFrom] at h
    split at h
    · exact ih h
    · cases h
    · rename_i hnone
      obtain ⟨hwd, hfiles⟩ := ih h
      exact ⟨hwd, fun m => (hfiles m).trans (file?_put_directory hnone m)⟩

theorem write_spec (h : t.write p bytes = .ok t') :
    SameBut (p.location t.workingDirectory) t t' ∧
      t'.resolve p = .ok (p.location t.workingDirectory) ∧
      t'.file? (p.location t.workingDirectory) = some bytes := by
  unfold write at h
  simp only [bind, Except.bind] at h
  split at h
  · cases h
  rename_i made hmade
  -- the directories come first, and they change no file
  obtain ⟨hwd, hfiles⟩ := makeFrom_spec hmade
  split at h
  · cases h
  rename_i l hresolve
  obtain rfl : l = p.location t.workingDirectory := hwd ▸ resolve_eq hresolve
  split at h
  · cases h
  rename_i hnode
  cases h
  have hroot : p.location t.workingDirectory ≠ [] := by
    intro hroot
    exact hnode (by rw [hroot, node?_nil])
  refine ⟨⟨hwd, fun m hm => ?_⟩, ?_, ?_⟩
  · rw [file?, node?_put_ne made _ hm]
    exact hfiles m
  · refine resolve_mono hresolve rfl fun d hd => ?_
    -- no directory on the way is where the file is put
    have hother : d ≠ p.location t.workingDirectory := by
      rintro rfl
      exact hnode hd
    rw [node?_put_ne made _ hother, hd]
  · rw [file?_eq_some, node?_put, if_neg hroot, if_pos rfl]

theorem read_eq (hresolve : t.resolve p = .ok l) (hfile : t.file? l = some bytes) :
    t.read p = .ok bytes := by
  rw [file?_eq_some] at hfile
  simp [read, lookup, hresolve, hfile, bind, Except.bind, pure, Except.pure]

theorem exists?_eq_true : t.exists? p = true ↔
    ∃ n, t.resolve p = .ok (p.location t.workingDirectory) ∧
      t.node? (p.location t.workingDirectory) = some n := by
  unfold exists? lookup
  simp only [bind, Except.bind]
  cases hresolve : t.resolve p with
  | error fault => simp [Except.isOk, Except.toBool]
  | ok l =>
    obtain rfl := resolve_eq hresolve
    cases hnode : t.node? (p.location t.workingDirectory) with
    | none => simp [hnode, Except.isOk, Except.toBool, throw, throwThe, MonadExceptOf.throw]
    | some n => simp [hnode, Except.isOk, Except.toBool, pure, Except.pure]

theorem read_of_exists (h : t.exists? p = true)
    (hfile : t.file? (p.location t.workingDirectory) = some bytes) : t.read p = .ok bytes := by
  obtain ⟨-, hresolve, -⟩ := exists?_eq_true.mp h
  exact read_eq hresolve hfile

theorem remove_eq (h : t.remove p = .ok t') :
    ∃ bytes, t.file? (p.location t.workingDirectory) = some bytes ∧
      t' = t.erase (p.location t.workingDirectory) := by
  unfold remove at h
  simp only [bind, Except.bind] at h
  split at h
  · cases h
  rename_i l hresolve
  obtain rfl : l = p.location t.workingDirectory := resolve_eq hresolve
  split at h
  · rename_i bytes hnode
    cases h
    exact ⟨bytes, file?_eq_some.mpr hnode, rfl⟩
  · cases h
  · cases h

theorem file?_erase (t : Tree) (l m : Location) :
    (t.erase l).file? m = if m = l then none else t.file? m := by
  by_cases hm : m = l
  · rw [if_pos hm, file?, node?_erase, if_pos hm]
    split <;> simp_all
  · rw [if_neg hm, file?, node?_erase_ne t hm, file?]

theorem remove_spec (h : t.remove p = .ok t') :
    SameBut (p.location t.workingDirectory) t t' ∧ t'.exists? p = false := by
  obtain ⟨bytes, hfile, rfl⟩ := remove_eq h
  refine ⟨⟨rfl, fun m hm => by rw [file?_erase, if_neg hm]⟩, ?_⟩
  rw [← Bool.not_eq_true, exists?_eq_true]
  rintro ⟨n, -, hn⟩
  have hroot : p.location t.workingDirectory ≠ [] := by
    intro hroot
    rw [file?_eq_some, hroot, node?_nil] at hfile
    cases hfile
  have hgone := node?_erase t (p.location t.workingDirectory) (p.location t.workingDirectory)
  rw [if_neg hroot, if_pos rfl] at hgone
  exact absurd (hgone.symm.trans hn) (by simp)

theorem remove_notFound (h : t.remove p = .error .notFound) : t.exists? p = false := by
  rw [← Bool.not_eq_true, exists?_eq_true]
  rintro ⟨n, hresolve, hnode⟩
  unfold remove at h
  rw [hresolve] at h
  simp only [bind, Except.bind] at h
  cases n with
  | file bytes =>
    rw [hnode] at h
    cases h
  | directory =>
    rw [hnode] at h
    cases h

end Tree

end ModuleHost.Files
