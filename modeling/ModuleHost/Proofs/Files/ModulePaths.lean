import Mathlib.Data.List.Induction
import ModuleHost.Proofs.Files.Frames

/-! Which file a module path stands for. The directory is taken off a path as it is written, and
what is left is followed on its own, so steps up that lead out of the directory are lost. -/

namespace ModuleHost.Files

variable {p q file directory : Path} {c : Component} {cs rest : List Component}
  {l base place names others : Location}

/-! ### Names -/

theorem component?_eq_name {s name : String} (h : Path.component? s = some (.name name)) :
    name = s ∧ s ≠ "" := by
  have hblank := Path.isBlank_of_component? h
  rw [Path.component?, hblank, if_neg (by simp)] at h
  refine ⟨?_, ?_⟩
  · split at h
    · cases h
    · cases h
      rfl
  · rintro rfl
    simp [Path.isBlank] at hblank

theorem component?_ne_root (s : String) : Path.component? s ≠ some .root := by
  rw [Path.component?]
  split
  · simp
  · split <;> simp

def Proper (names : Location) : Prop :=
  ∀ name ∈ names, Path.component? name = some (.name name) ∧ '/' ∉ name.toList

theorem Proper.components (h : Proper names) :
    names.filterMap Path.component? = names.map .name := by
  rw [← List.filterMap_eq_map]
  exact List.filterMap_congr fun name hname => (h name hname).1

/-- The path on a server that leads by some names from the root. -/
def rooted (names : Location) : String := "/" ++ String.intercalate "/" names

def spelled (names : Location) : List Char := names.flatMap fun name => '/' :: name.toList

theorem toList_rooted (h : names ≠ []) : (rooted names).toList = spelled names := by
  rw [rooted, String.toList_append]
  induction names with
  | nil => exact absurd rfl h
  | cons name more ih =>
    cases more with
    | nil => simp [spelled]
    | cons next more =>
      rw [String.intercalate_cons_cons, String.toList_append, String.toList_append,
        List.append_assoc, ih (List.cons_ne_nil next more)]
      rfl

theorem rooted_injective (h : Proper names) (hothers : Proper others)
    (heq : rooted names = rooted others) : names = others := by
  have hroot : ∀ {name : String} {more : Location}, Proper (name :: more) →
      rooted [] ≠ rooted (name :: more) := by
    intro name more hproper hsame
    have hlist : ['/'] = '/' :: (name.toList ++ spelled more) :=
      (congrArg String.toList hsame).trans (toList_rooted (List.cons_ne_nil name more))
    have hnone : name.toList = [] := (List.append_eq_nil_iff.mp (List.cons.inj hlist).2.symm).1
    obtain ⟨-, hsome⟩ := component?_eq_name (hproper name List.mem_cons_self).1
    exact hsome (String.toList_eq_nil_iff.mp hnone)
  cases names with
  | nil =>
    cases others with
    | nil => rfl
    | cons name more => exact absurd heq (hroot hothers)
  | cons name more =>
    cases others with
    | nil => exact absurd heq.symm (hroot h)
    | cons other others =>
      have hlist := congrArg String.toList heq
      rw [toList_rooted (List.cons_ne_nil _ _), toList_rooted (List.cons_ne_nil _ _)] at hlist
      exact Path.names_injective (fun n hn => (h n hn).2) (fun n hn => (hothers n hn).2) hlist

theorem Proper.of_sublist (h : Proper names) (hsub : others.Sublist names) : Proper others :=
  fun name hname => h name (hsub.subset hname)

/-- The names among some components. -/
def named (cs : List Component) : Location :=
  cs.filterMap fun
    | .name text => some text
    | _ => none

theorem Proper.enter (h : Proper l) (hc : Proper (named [c])) : Proper (l.enter c) := by
  cases c with
  | root => exact List.forall_mem_nil _
  | here => exact h
  | up => exact h.of_sublist (List.dropLast_sublist l)
  | name text => exact List.forall_mem_append.mpr ⟨h, hc⟩

theorem named_cons (c : Component) (cs : List Component) :
    named (c :: cs) = named [c] ++ named cs := by
  rw [named, named, named, ← List.filterMap_append]
  rfl

theorem Proper.foldl_enter (h : Proper l) (hcs : Proper (named cs)) :
    Proper (cs.foldl Location.enter l) := by
  induction cs generalizing l with
  | nil => exact h
  | cons c cs ih =>
    rw [named_cons, Proper, List.forall_mem_append] at hcs
    exact ih (h.enter hcs.1) hcs.2

theorem proper_nil : Proper [] := List.forall_mem_nil _

/-! ### Paths on a server -/

theorem extendUrl_spelled (h : Proper l) (hc : c ≠ .root) :
    extendUrl (spelled l) c = spelled (l.enter c) := by
  cases c with
  | root => exact absurd rfl hc
  | here => rfl
  | name text => simp [extendUrl, spelled, Location.enter]
  | up =>
    obtain rfl | ⟨front, last, rfl⟩ := List.eq_nil_or_concat' l
    · rfl
    · have hlast : ∀ c ∈ last.toList.reverse, decide (c ≠ '/') = true := by
        intro c hc
        have hplain := (h last (by simp)).2
        have hne : c ≠ '/' := fun heq => hplain (heq ▸ List.mem_reverse.mp hc)
        simpa using hne
      have hspelled : spelled (front ++ [last]) = spelled front ++ '/' :: last.toList := by
        simp [spelled]
      rw [extendUrl, hspelled, List.reverse_append, List.reverse_cons, List.append_assoc,
        List.dropWhile_append_of_pos hlast, Location.enter, List.dropLast_concat]
      simp

theorem foldl_extendUrl_spelled (h : Proper l) (hroot : .root ∉ cs) (hcs : Proper (named cs)) :
    cs.foldl extendUrl (spelled l) = spelled (cs.foldl Location.enter l) := by
  induction cs generalizing l with
  | nil => rfl
  | cons c cs ih =>
    rw [List.mem_cons, not_or] at hroot
    rw [named_cons, Proper, List.forall_mem_append] at hcs
    rw [List.foldl_cons, extendUrl_spelled h (Ne.symm hroot.1)]
    exact ih (h.enter hcs.1) hroot.2 hcs.2

theorem urlPath_eq (hcs : Proper (named cs)) (hroot : .root ∉ cs.tail) :
    urlPath cs = rooted (cs.foldl Location.enter []) := by
  have hurl : cs.foldl extendUrl [] = spelled (cs.foldl Location.enter []) := by
    cases cs with
    | nil => rfl
    | cons c cs =>
      have hfirst : extendUrl [] c = spelled (Location.enter [] c) := by
        cases c <;> simp [extendUrl, spelled, Location.enter]
      rw [named_cons, Proper, List.forall_mem_append] at hcs
      rw [List.foldl_cons, hfirst]
      exact foldl_extendUrl_spelled (proper_nil.enter hcs.1) hroot hcs.2
  rw [urlPath, hurl]
  cases hnames : cs.foldl Location.enter [] with
  | nil => rfl
  | cons name more =>
    show String.ofList (spelled (name :: more)) = rooted (name :: more)
    rw [← toList_rooted (List.cons_ne_nil name more), String.ofList_toList]

/-! ### Components of written paths -/

def Path.Plain (p : Path) : Prop := ∀ s ∈ p.segments, '/' ∉ s.toList

theorem not_mem_cut {piece text : List Char} {separator : Char} (h : piece ∈ cut separator text) :
    separator ∉ piece := by
  induction text generalizing piece with
  | nil =>
    obtain rfl := List.mem_singleton.mp h
    exact List.not_mem_nil
  | cons c rest ih =>
    rw [cut] at h
    split at h
    · obtain rfl := List.mem_singleton.mp h
      exact List.not_mem_nil
    · rename_i first more hcut
      rw [hcut] at ih
      split at h
      · rcases List.mem_cons.mp h with rfl | hmem
        · exact List.not_mem_nil
        · exact ih hmem
      · rename_i hne
        rcases List.mem_cons.mp h with rfl | hmem
        · rw [List.mem_cons, not_or]
          exact ⟨Ne.symm hne, ih List.mem_cons_self⟩
        · exact ih (List.mem_cons_of_mem _ hmem)

theorem cut_ne_nil (separator : Char) (text : List Char) : cut separator text ≠ [] := by
  cases text with
  | nil => simp [cut]
  | cons c rest =>
    rw [cut]
    split
    · simp
    · split <;> simp

theorem cut_behind {separator : Char} {piece : List Char} (h : separator ∉ piece)
    (text : List Char) :
    cut separator (piece ++ separator :: text) = piece :: cut separator text := by
  induction piece with
  | nil =>
    obtain ⟨first, more, hcut⟩ := List.exists_cons_of_ne_nil (cut_ne_nil separator text)
    rw [List.nil_append, cut, hcut]
    simp
  | cons c piece ih =>
    rw [List.mem_cons, not_or] at h
    rw [List.cons_append, cut, ih h.2]
    simp [Ne.symm h.1]

theorem cut_of_not_mem {separator : Char} {piece : List Char} (h : separator ∉ piece) :
    cut separator piece = [piece] := by
  induction piece with
  | nil => rfl
  | cons c piece ih =>
    rw [List.mem_cons, not_or] at h
    rw [cut, ih h.2]
    simp [Ne.symm h.1]

theorem Path.ofText_text (h : p.Plain) (hne : p.segments ≠ []) : Path.ofText p.text = p := by
  have hcut : cut '/' (String.intercalate "/" p.segments).toList =
      p.segments.map String.toList := by
    obtain ⟨segments⟩ := p
    induction segments with
    | nil => exact absurd rfl hne
    | cons s rest ih =>
      rw [Plain, List.forall_mem_cons] at h
      cases rest with
      | nil => simpa using cut_of_not_mem h.1
      | cons next rest =>
        have hrest := ih h.2 (List.cons_ne_nil next rest)
        rw [String.intercalate_cons_cons, String.toList_append, String.toList_append,
          List.append_assoc]
        exact (cut_behind h.1 _).trans (congrArg (s.toList :: ·) hrest)
  obtain ⟨segments⟩ := p
  rw [ofText, text, hcut, List.map_map]
  simp

theorem Path.plain_ofText (text : String) : (Path.ofText text).Plain := by
  intro s hs
  obtain ⟨piece, hpiece, rfl⟩ := List.mem_map.mp hs
  rw [String.toList_ofList]
  exact not_mem_cut hpiece

theorem Path.ofText_ne_nil (text : String) : (Path.ofText text).segments ≠ [] := by
  simp [ofText, cut_ne_nil]

theorem Path.Plain.proper_named (h : p.Plain) : Proper (named p.components) := by
  have hsub : p.splitStart.2 ⊆ p.segments := by
    obtain hempty | ⟨-, hsegments⟩ := p.begins
    · obtain ⟨segments⟩ := p
      obtain rfl : segments = [""] := hempty
      exact List.Subset.refl _
    · rw [hsegments]
      exact List.subset_append_right _ _
  intro name hname
  obtain ⟨c, hc, hcname⟩ := List.mem_filterMap.mp hname
  obtain rfl : c = .name name := by
    cases c <;> simp_all
  obtain hstart | hbody := List.mem_append.mp hc
  · obtain ⟨s, -, hs⟩ := List.mem_map.mp hstart
    exact absurd hs (Path.startComponent_ne_name s name)
  · obtain ⟨s, hs, hcomponent⟩ := List.mem_filterMap.mp hbody
    obtain ⟨rfl, -⟩ := component?_eq_name hcomponent
    exact ⟨hcomponent, h name (hsub hs)⟩

theorem proper_behind {front : List Component} (hp : p.Plain) (h : p.components = front ++ rest) :
    Proper (named rest) := by
  have hall := hp.proper_named
  rw [h, named, List.filterMap_append] at hall
  exact hall.of_sublist (List.sublist_append_right _ _)

theorem Path.root_not_mem_tail (p : Path) : .root ∉ p.components.tail := by
  intro hroot
  have hstart := p.length_splitStart_le
  have hbody : .root ∈ p.splitStart.2.filterMap Path.component? := by
    rw [Path.components] at hroot
    cases hparts : p.splitStart.1 with
    | nil =>
      rw [hparts] at hroot
      exact List.mem_of_mem_tail hroot
    | cons s rest =>
      rw [hparts, List.length_cons] at hstart
      obtain rfl : rest = [] := List.eq_nil_of_length_eq_zero (by omega)
      rwa [hparts] at hroot
  obtain ⟨s, -, hs⟩ := List.mem_filterMap.mp hbody
  exact component?_ne_root s hs

theorem Path.root_not_mem_behind {front : List Component} (h : p.components = front ++ rest)
    (hfront : front ≠ []) : .root ∉ rest := by
  obtain ⟨c, front, rfl⟩ := List.exists_cons_of_ne_nil hfront
  have hroot := p.root_not_mem_tail
  rw [h, List.cons_append, List.tail_cons, List.mem_append, not_or] at hroot
  exact hroot.2

/-! ### Seen from a directory -/

/-- A path as it is written behind that of the directory in which it is used. -/
def Path.seenFrom (file directory : Path) : Path :=
  if file.isAbsolute then file else directory.join file

theorem defaultModulePath_eq (file directory : Path) : defaultModulePath file directory =
    (((file.seenFrom directory).relativeTo? directory).getD (file.seenFrom directory)).url := rfl

theorem Path.Plain.seenFrom (hfile : file.Plain) (hdirectory : directory.Plain) :
    (file.seenFrom directory).Plain := by
  rw [Path.seenFrom]
  split
  · exact hfile
  · rw [Path.join]
    split
    · exact hfile
    · split
      · refine List.forall_mem_append.mpr ⟨fun s hs => ?_, hfile⟩
        exact hdirectory s ((List.dropLast_sublist _).subset hs)
      · exact List.forall_mem_append.mpr ⟨hdirectory, hfile⟩

theorem location_of_isAbsolute (h : p.isAbsolute = true) (l l' : Location) :
    p.location l = p.location l' := by
  have hstart : p.splitStart.1 = [""] := of_decide_eq_true h
  rw [Path.location, Path.location, Path.components, hstart]
  rfl

theorem location_of_relative (h : p.isAbsolute = false) (l : Location) :
    p.location l = (p.segments.filterMap Path.component?).foldl Location.enter l := by
  have hstart : (Tree.mk l []).startOf p = l := by simp [Tree.startOf, h]
  rw [← Tree.foldl_follow, ← hstart, Tree.location_eq_foldl, hstart]

theorem components_seenFrom (h : file.isAbsolute = false) (hfile : file.segments ≠ [])
    (hdirectory : directory.segments ≠ []) : ∃ rest,
      (file.seenFrom directory).components = directory.components ++ rest ∧
      ∀ l, rest.foldl Location.enter l = file.location l := by
  have hjoin : file.seenFrom directory = directory.join file := if_neg (by simp [h])
  by_cases hempty : directory.segments = [""]
  · have hwhole : directory.join file = file := by simp [Path.join, h, hempty]
    refine ⟨file.components, ?_, fun l => rfl⟩
    rw [hjoin, hwhole, Path.components_of_empty hempty, List.nil_append]
  · refine ⟨_, ?_, fun l => (location_of_relative h l).symm⟩
    rw [hjoin, Path.components_join_relative hdirectory hempty h hfile]

theorem location_seenFrom (hfile : file.segments ≠ []) (hdirectory : directory.segments ≠ []) :
    (file.seenFrom directory).location [] = file.location (directory.location []) := by
  cases h : file.isAbsolute with
  | true =>
    rw [Path.seenFrom, if_pos h]
    exact location_of_isAbsolute h _ _
  | false =>
    obtain ⟨rest, hcomponents, hrest⟩ := components_seenFrom h hfile hdirectory
    rw [Path.location, hcomponents, List.foldl_append, hrest]
    rfl

/-! ### Steps up that lead out -/

/-- How often a walk has been led out of the directory in which it began, and the names by which it
has gone down since. -/
def wander (s : Nat × Location) : Component → Nat × Location
  | .up => if s.2 = [] then (s.1 + 1, []) else (s.1, s.2.dropLast)
  | c => (s.1, s.2.enter c)

/-- How many steps up lead out of the directory in which some components begin. -/
def strays (cs : List Component) : Nat := (cs.foldl wander (0, [])).1

theorem foldl_wander (cs : List Component) (n : Nat) (l : Location) :
    (cs.foldl wander (n, l)).2 = cs.foldl Location.enter l := by
  induction cs generalizing n l with
  | nil => rfl
  | cons c cs ih =>
    rw [List.foldl_cons, List.foldl_cons]
    cases c with
    | up =>
      rw [wander]
      split
      · rename_i hnone
        obtain rfl : l = [] := hnone
        exact ih _ _
      · exact ih _ _
    | root => exact ih _ _
    | here => exact ih _ _
    | name text => exact ih _ _

theorem foldl_enter (h : .root ∉ cs) (base : Location) : cs.foldl Location.enter base =
    base.take (base.length - strays cs) ++ cs.foldl Location.enter [] := by
  induction cs using List.reverseRecOn with
  | nil => simp [strays]
  | append_singleton cs c ih =>
    rw [List.mem_append, not_or, List.mem_singleton] at h
    have hwander : cs.foldl wander (0, []) = (strays cs, cs.foldl Location.enter []) :=
      Prod.ext rfl (foldl_wander cs 0 [])
    have hstrays : strays (cs ++ [c]) = (wander (strays cs, cs.foldl Location.enter []) c).1 := by
      rw [strays, List.foldl_append, hwander]
      rfl
    rw [hstrays, List.foldl_append, List.foldl_append, ih h.1]
    generalize hnames : cs.foldl Location.enter [] = names
    cases c with
    | root => exact absurd rfl h.2
    | here => rfl
    | name text => simp [Location.enter, wander]
    | up =>
      by_cases hnone : names = []
      · subst hnone
        have hone : (base.take (base.length - strays cs)).dropLast =
            base.take (base.length - (strays cs + 1)) := by
          rw [List.dropLast_eq_take, List.take_take, List.length_take]
          congr 1
          omega
        simpa [Location.enter, wander] using hone
      · simp [Location.enter, wander, hnone, List.dropLast_append_of_ne_nil]

/-! ### Module paths -/

/-- The names of a place as they are told in a directory: those behind the directory, if it lies in
it, and otherwise all. -/
def told (base place : Location) : Location :=
  if base <+: place then place.drop base.length else place

theorem told_eq_self_iff :
    told base place = place ↔ base = [] ∨ ¬base <+: place := by
  rw [told]
  split
  · rename_i hbegins
    have hle := hbegins.length_le
    simp only [hbegins, not_true_eq_false, or_false]
    constructor
    · intro heq
      have hlength := congrArg List.length heq
      rw [List.length_drop] at hlength
      exact List.length_eq_zero_iff.mp (by omega)
    · rintro rfl
      rfl
  · rename_i hbegins
    simp [hbegins]

/-- Of a place that is reached by leaving a directory, the names behind the last step out are told
only in these cases. -/
theorem told_eq_iff (base names : Location) (n : Nat) :
    told base (base.take (base.length - n) ++ names) = names ↔
      base = [] ∨ n = 0 ∨ base.length ≤ n ∧ ¬base <+: names := by
  by_cases hall : base.length ≤ n
  · have hnone : base.length - n = 0 := by omega
    rw [hnone, List.take_zero, List.nil_append, told_eq_self_iff]
    by_cases hn : n = 0
    · have hbase : base = [] := List.length_eq_zero_iff.mp (by omega)
      simp [hbase]
    · simp [hn, hall]
  by_cases hn : n = 0
  · simp [hn, told]
  · -- what is told is too short or too long
    have hbase : base ≠ [] := by
      rintro rfl
      exact hall (Nat.zero_le n)
    have hlength : (base.take (base.length - n) ++ names).length =
        base.length - n + names.length := by
      rw [List.length_append, List.length_take]
      omega
    have hother : told base (base.take (base.length - n) ++ names) ≠ names := by
      intro heq
      have htold := congrArg List.length heq
      rw [told] at htold
      split at htold
      · rename_i hbegins
        have hle := hbegins.length_le
        rw [List.length_drop] at htold
        omega
      · omega
    simp [hother, hbase, hn, hall]

section

variable (hfile : file.Plain) (hdirectory : directory.Plain)
include hfile hdirectory

theorem defaultModulePath_written
    (h : (file.seenFrom directory).components = directory.components ++ rest) :
    defaultModulePath file directory = rooted (rest.foldl Location.enter []) := by
  obtain ⟨relative, hrelative, hcomponents, -⟩ := Path.relativeTo?_of_prefix ⟨rest, h.symm⟩
  rw [h, List.drop_left] at hcomponents
  rw [defaultModulePath_eq, hrelative, Option.getD_some, Path.url, hcomponents]
  refine urlPath_eq (proper_behind (hfile.seenFrom hdirectory) h) ?_
  by_cases hnone : directory.components = []
  · rw [hnone, List.nil_append] at h
    exact h ▸ Path.root_not_mem_tail _
  · exact fun hmem => Path.root_not_mem_behind h hnone (List.mem_of_mem_tail hmem)

theorem defaultModulePath_elsewhere
    (h : ¬directory.components <+: (file.seenFrom directory).components) :
    defaultModulePath file directory = rooted ((file.seenFrom directory).location []) := by
  have hnone : (file.seenFrom directory).relativeTo? directory = none := by
    have hnot : directory.components.isPrefixOf (file.seenFrom directory).components = false := by
      rw [← Bool.not_eq_true, List.isPrefixOf_iff_prefix]
      exact h
    simp [Path.relativeTo?, hnot]
  rw [defaultModulePath_eq, hnone, Option.getD_none, Path.url,
    urlPath_eq (hfile.seenFrom hdirectory).proper_named (Path.root_not_mem_tail _)]
  rfl

omit hfile in
theorem exists_inside (hnames : Proper names) (hsome : directory.segments ≠ []) (base : Location) :
    ∃ inside : String, (Path.ofText inside).location base = base ++ names ∧
      defaultModulePath (.ofText inside) directory = rooted names := by
  let p : Path := ⟨"." :: names⟩
  have hplain : p.Plain :=
    List.forall_mem_cons.mpr ⟨by decide, fun name hname => (hnames name hname).2⟩
  have hlocation : ∀ l, p.location l = l ++ names := fun l => by
    show (.here :: names.filterMap Path.component?).foldl Location.enter l = l ++ names
    rw [hnames.components]
    exact location_names l names
  refine ⟨p.text, ?_, ?_⟩
  · rw [Path.ofText_text hplain (List.cons_ne_nil _ _), hlocation]
  · rw [Path.ofText_text hplain (List.cons_ne_nil _ _)]
    have hrelative : p.isAbsolute = false := rfl
    obtain ⟨rest, hwritten, hrest⟩ := components_seenFrom hrelative (List.cons_ne_nil _ _) hsome
    rw [defaultModulePath_written hplain hdirectory hwritten, hrest, hlocation, List.nil_append]

end

section

variable (hfile : file.Plain) (hdirectory : directory.Plain)
  (hbase : directory.location [] = base) (hplace : (file.seenFrom directory).location [] = place)
include hfile hdirectory hbase hplace

omit hbase in
theorem proper_place : Proper place := by
  rw [← hplace]
  exact proper_nil.foldl_enter (hfile.seenFrom hdirectory).proper_named

omit hbase in
theorem proper_told : Proper (told base place) := by
  have hproper := proper_place hfile hdirectory hplace
  rw [told]
  split
  · exact hproper.of_sublist (List.drop_sublist _ _)
  · exact hproper

omit hfile hdirectory in
theorem place_behind (h : (file.seenFrom directory).components = directory.components ++ rest) :
    place = rest.foldl Location.enter base := by
  rw [← hplace, Path.location, h, List.foldl_append, ← hbase]
  rfl

omit hfile hdirectory in
/-- A file whose path begins with the directory lies in a part of it, as far as steps up have left
one. -/
theorem place_written (h : (file.seenFrom directory).components = directory.components ++ rest)
    (hne : base ≠ []) :
    place = base.take (base.length - strays rest) ++ rest.foldl Location.enter [] := by
  have hsome : directory.components ≠ [] := by
    intro hnone
    exact hne (by rw [← hbase, Path.location, hnone]; rfl)
  rw [place_behind hbase hplace h]
  exact foldl_enter (Path.root_not_mem_behind h hsome) base

theorem tells_written_iff
    (h : (file.seenFrom directory).components = directory.components ++ rest) :
    defaultModulePath file directory = rooted (told base place) ↔ base = [] ∨ strays rest = 0 ∨
      base.length ≤ strays rest ∧ ¬base <+: rest.foldl Location.enter [] := by
  have hnames : Proper (rest.foldl Location.enter []) :=
    proper_nil.foldl_enter (proper_behind (hfile.seenFrom hdirectory) h)
  have htells : defaultModulePath file directory = rooted (told base place) ↔
      told base place = rest.foldl Location.enter [] := by
    rw [defaultModulePath_written hfile hdirectory h]
    constructor
    · intro heq
      exact (rooted_injective hnames (proper_told hfile hdirectory hplace) heq).symm
    · intro heq
      rw [heq]
  rw [htells]
  by_cases hroot : base = []
  · have hled := place_behind hbase hplace h
    rw [hroot] at hled
    simp [hroot, told, hled]
  · rw [place_written hbase hplace h hroot, told_eq_iff]

theorem exists_told_alike
    (h : (file.seenFrom directory).components = directory.components ++ rest)
    (hsome : directory.segments ≠ []) (hne : base ≠ []) (hstrays : strays rest ≠ 0) :
    ∃ inside : String, base <+: (Path.ofText inside).location base ∧
      (Path.ofText inside).location base ≠ place ∧
      defaultModulePath (.ofText inside) directory = defaultModulePath file directory := by
  have hnames : Proper (rest.foldl Location.enter []) :=
    proper_nil.foldl_enter (proper_behind (hfile.seenFrom hdirectory) h)
  obtain ⟨inside, hinside, hsame⟩ := exists_inside hdirectory hnames hsome base
  refine ⟨inside, hinside ▸ List.prefix_append _ _, fun heq => ?_,
    hsame.trans (defaultModulePath_written hfile hdirectory h).symm⟩
  -- the file lies deeper than the place
  have hplaced := place_written hbase hplace h hne
  have hlength := congrArg List.length (hinside.symm.trans (heq.trans hplaced))
  have hpos : 0 < base.length := List.length_pos_of_ne_nil hne
  simp only [List.length_append, List.length_take] at hlength
  omega

omit hbase in
theorem tells_elsewhere_iff
    (h : ¬directory.components <+: (file.seenFrom directory).components) :
    defaultModulePath file directory = rooted (told base place) ↔ base = [] ∨ ¬base <+: place := by
  have hproper := proper_place hfile hdirectory hplace
  rw [defaultModulePath_elsewhere hfile hdirectory h, hplace, ← told_eq_self_iff]
  constructor
  · intro heq
    exact (rooted_injective hproper (proper_told hfile hdirectory hplace) heq).symm
  · intro heq
    rw [heq]

end

/-- When the module path of a file tells where the file is, as seen from the directory. Suppose that
its path begins with the directory as it is written: then it does exactly if the directory is the
root, or no step up leads out of it, or such steps leave all of its names and the way down does not
lead into it. If the path begins otherwise, it does exactly if the directory is the root or the file
is not below it. Whenever a step up leads out of a directory other than the root, there is a file in
the directory with the same module path. -/
theorem defaultModulePath_tells_iff {file directory : String}
    (hbase : (Path.ofText directory).location [] = base)
    (hplace : (Path.ofText file).location base = place) :
    let f := Path.ofText file
    let d := Path.ofText directory
    (∀ rest, (f.seenFrom d).components = d.components ++ rest →
      (defaultModulePath f d = rooted (told base place) ↔ base = [] ∨ strays rest = 0 ∨
        base.length ≤ strays rest ∧ ¬base <+: rest.foldl Location.enter []) ∧
      (base ≠ [] → strays rest ≠ 0 → ∃ inside : String,
        base <+: (Path.ofText inside).location base ∧ (Path.ofText inside).location base ≠ place ∧
        defaultModulePath (.ofText inside) d = defaultModulePath f d)) ∧
    (¬d.components <+: (f.seenFrom d).components →
      (defaultModulePath f d = rooted (told base place) ↔ base = [] ∨ ¬base <+: place)) := by
  intro f d
  have hf : f.Plain := Path.plain_ofText file
  have hd : d.Plain := Path.plain_ofText directory
  have hsome : d.segments ≠ [] := Path.ofText_ne_nil directory
  have hseen : (f.seenFrom d).location [] = place := by
    rw [location_seenFrom (Path.ofText_ne_nil file) hsome, hbase, hplace]
  refine ⟨fun rest hwritten => ⟨?_, ?_⟩, fun helsewhere => ?_⟩
  · exact tells_written_iff hf hd hbase hseen hwritten
  · exact exists_told_alike hf hd hbase hseen hwritten hsome
  · exact tells_elsewhere_iff hf hd hseen helsewhere

theorem defaultModulePath_tells_iff_main :
    (Path.ofText "/work/app").location [] = ["work", "app"] ∧
    (Path.ofText "./src/../main.ts").location ["work", "app"] = ["work", "app", "main.ts"] ∧
    defaultModulePath (.ofText "./src/../main.ts") (.ofText "/work/app") =
      rooted (told ["work", "app"] ["work", "app", "main.ts"]) := by
  have hbase : (Path.ofText "/work/app").location [] = ["work", "app"] := by decide
  have hplace : (Path.ofText "./src/../main.ts").location ["work", "app"] =
      ["work", "app", "main.ts"] := by decide
  have hwritten : ((Path.ofText "./src/../main.ts").seenFrom (.ofText "/work/app")).components =
      (Path.ofText "/work/app").components ++ [Component.name "src", .up, .name "main.ts"] := by
    decide
  have hstrays : strays [Component.name "src", .up, .name "main.ts"] = 0 := by decide
  obtain ⟨hbehind, -⟩ := defaultModulePath_tells_iff hbase hplace
  exact ⟨hbase, hplace, (hbehind _ hwritten).1.mpr (.inr (.inl hstrays))⟩

/-- A file next to the directory is told as if it were in it, where there may be another one. -/
theorem sibling_told_inside :
    let directory := Path.ofText "/work/app"
    let base := directory.location []
    defaultModulePath (.ofText "../x/a.js") directory = "/x/a.js" ∧
    rooted (told base ((Path.ofText "../x/a.js").location base)) = "/work/x/a.js" ∧
    (Path.ofText "x/a.js").location base ≠ (Path.ofText "../x/a.js").location base ∧
    defaultModulePath (.ofText "x/a.js") directory = "/x/a.js" := by
  decide

end ModuleHost.Files
