import Mathlib.Data.List.Basic
import ModuleHost.Files.Path

/-! What the operations on paths do to components. Two paths of one module stand for the same file
when their components agree, however they are written. -/

namespace ModuleHost.Files.Path

variable {p q : Path} {start body segments : List String}

def Inner (segments : List String) : Prop := ∀ s ∈ segments.head?, isBlank s = false

theorem Inner.append {more : List String} (h : Inner segments) (hmore : Inner more) :
    Inner (segments ++ more) := by
  cases segments with
  | nil => exact hmore
  | cons s rest => exact h

theorem Inner.append_of_ne_nil (h : Inner segments) (hne : segments ≠ []) (more : List String) :
    Inner (segments ++ more) := by
  obtain ⟨s, rest, rfl⟩ := List.exists_cons_of_ne_nil hne
  exact h

theorem Inner.dropLast_ne_nil (h : Inner segments) (hlast : segments.getLast? = some "") :
    segments.dropLast ≠ [] := by
  obtain ⟨front, rfl⟩ := List.getLast?_eq_some_iff.mp hlast
  rw [List.dropLast_concat]
  rintro rfl
  have hblank : isBlank "" = false := h "" rfl
  simp [isBlank] at hblank

theorem Inner.of_isPrefix {front : List String} (h : Inner segments) (hp : front <+: segments) :
    Inner front := by
  obtain ⟨rest, rfl⟩ := hp
  cases front with
  | nil => simp [Inner]
  | cons s front => exact h

/-- A beginning that a path keeps with some other segments behind it. -/
def Begins (start body : List String) : Prop :=
  (start = [""] ∧ body ≠ []) ∨ start = ["."] ∨ (start = [] ∧ Inner body)

theorem Begins.splitStart (h : Begins start body) :
    (⟨start ++ body⟩ : Path).splitStart = (start, body) := by
  obtain ⟨rfl, hne⟩ | rfl | ⟨rfl, hinner⟩ := h
  · obtain ⟨second, rest, rfl⟩ := List.exists_cons_of_ne_nil hne
    rfl
  · rfl
  · cases body with
    | nil => rfl
    | cons s rest =>
      have hs : isBlank s = false := hinner s rfl
      have hempty : s ≠ "" := by
        rintro rfl
        simp [isBlank] at hs
      have hdot : s ≠ "." := by
        rintro rfl
        simp [isBlank] at hs
      simp [Path.splitStart, hempty, hdot]

theorem Begins.components (h : Begins start body) :
    (⟨start ++ body⟩ : Path).components =
      start.map startComponent ++ body.filterMap component? := by
  rw [Path.components, h.splitStart]

theorem Begins.withBody {other : List String} (h : Begins start body) (hne : other ≠ [])
    (hinner : Inner body → Inner other) : Begins start other := by
  obtain ⟨hstart, -⟩ | hstart | ⟨hstart, hbody⟩ := h
  · exact .inl ⟨hstart, hne⟩
  · exact .inr (.inl hstart)
  · exact .inr (.inr ⟨hstart, hinner hbody⟩)

theorem Begins.getLast? (h : Begins start body) (hlast : (start ++ body).getLast? = some "") :
    body.getLast? = some "" := by
  cases body with
  | cons s rest => rwa [List.getLast?_append_of_ne_nil _ (List.cons_ne_nil s rest)] at hlast
  | nil =>
    obtain ⟨-, hne⟩ | rfl | ⟨rfl, -⟩ := h
    · exact absurd rfl hne
    · simp at hlast
    · simp at hlast

/-- A path is either the empty text or made of a beginning and what may stand behind it. -/
theorem begins (p : Path) : p.segments = [""] ∨
    (Begins p.splitStart.1 p.splitStart.2 ∧ p.segments = p.splitStart.1 ++ p.splitStart.2) := by
  obtain ⟨segments⟩ := p
  cases segments with
  | nil => exact .inr ⟨.inr (.inr ⟨rfl, by simp [Inner, splitStart]⟩), rfl⟩
  | cons s rest =>
    by_cases hempty : s = ""
    · subst hempty
      cases rest with
      | nil => exact .inl rfl
      | cons second rest => exact .inr ⟨.inl ⟨rfl, by simp [splitStart]⟩, rfl⟩
    · by_cases hdot : s = "."
      · subst hdot
        exact .inr ⟨.inr (.inl rfl), rfl⟩
      · have hsplit : (⟨s :: rest⟩ : Path).splitStart = ([], s :: rest) := by
          simp [splitStart, hempty, hdot]
        rw [hsplit]
        exact .inr ⟨.inr (.inr ⟨rfl, by simp [Inner, isBlank, hempty, hdot]⟩), rfl⟩

theorem components_of_empty (h : p.segments = [""]) : p.components = [] := by
  obtain ⟨segments⟩ := p
  obtain rfl : segments = [""] := h
  rfl

theorem Inner.splitStart (h : Inner segments) :
    (⟨segments⟩ : Path).splitStart = ([], segments) :=
  Begins.splitStart (.inr (.inr ⟨rfl, h⟩))

theorem Inner.components (h : Inner segments) :
    (⟨segments⟩ : Path).components = segments.filterMap component? := by
  rw [Path.components, h.splitStart]
  rfl

theorem filterMap_dropWhile (segments : List String) :
    (segments.dropWhile isBlank).filterMap component? = segments.filterMap component? := by
  induction segments with
  | nil => rfl
  | cons s rest ih =>
    rw [List.dropWhile_cons]
    split
    · rename_i hs
      rw [ih, List.filterMap_cons, component?, if_pos hs]
    · rfl

theorem filterMap_dropEndBlanks (segments : List String) :
    (dropEndBlanks segments).filterMap component? = segments.filterMap component? := by
  rw [dropEndBlanks, List.filterMap_reverse, filterMap_dropWhile, List.filterMap_reverse,
    List.reverse_reverse]

theorem dropEndBlanks_isPrefix (segments : List String) : dropEndBlanks segments <+: segments := by
  rw [dropEndBlanks, ← List.reverse_suffix, List.reverse_reverse]
  exact List.dropWhile_suffix isBlank

theorem Inner.dropEndBlanks (h : Inner segments) : Inner (dropEndBlanks segments) :=
  h.of_isPrefix (dropEndBlanks_isPrefix segments)

theorem dropEndBlanks_eq_append (h : segments.filterMap component? ≠ []) :
    ∃ front last, dropEndBlanks segments = front ++ [last] ∧ isBlank last = false := by
  have hnot := List.head?_dropWhile_not isBlank segments.reverse
  cases hleft : segments.reverse.dropWhile isBlank with
  | nil =>
    rw [← filterMap_dropEndBlanks, dropEndBlanks, hleft] at h
    exact absurd rfl h
  | cons last front =>
    rw [hleft] at hnot
    exact ⟨front.reverse, last, by rw [dropEndBlanks, hleft, List.reverse_cons], by simpa using hnot⟩

theorem inner_dropCounting (n : Nat) (segments : List String) :
    Inner (dropCounting n segments) := by
  induction segments generalizing n with
  | nil => cases n <;> simp [dropCounting, Inner]
  | cons s rest ih =>
    cases n with
    | zero =>
      intro first hfirst
      have hnot := List.head?_dropWhile_not isBlank (s :: rest)
      rw [dropCounting] at hfirst
      rw [Option.mem_def.mp hfirst] at hnot
      simpa using hnot
    | succ n => exact ih _

theorem filterMap_dropCounting (n : Nat) (segments : List String) :
    (dropCounting n segments).filterMap component? = (segments.filterMap component?).drop n := by
  induction segments generalizing n with
  | nil => cases n <;> simp [dropCounting]
  | cons s rest ih =>
    cases n with
    | zero => exact filterMap_dropWhile (s :: rest)
    | succ n =>
      rw [dropCounting, ih, List.filterMap_cons]
      by_cases hs : isBlank s = true
      · rw [component?, if_pos hs, if_pos hs]
      · by_cases hup : s = ".."
        · rw [component?, if_neg hs, if_neg hs, if_pos hup]
          rfl
        · rw [component?, if_neg hs, if_neg hs, if_neg hup]
          rfl

/-- A path leads by some names, none of which has a slash in it, from a root down. -/
structure Below (file root : Path) (names : List String) : Prop where
  components : file.components = root.components ++ names.map .name
  proper : names ≠ []
  plain : ∀ name ∈ names, '/' ∉ name.toList

theorem Below.names_eq {file other root : Path} {names others : List String}
    (h : file.Below root names) (hother : other.Below root others)
    (hsame : file.components = other.components) : names = others := by
  rw [h.components, hother.components, List.append_cancel_left_eq] at hsame
  exact List.map_injective_iff.mpr (fun _ _ h => Component.name.inj h) hsame

theorem length_splitStart_le (p : Path) : p.splitStart.1.length ≤ 1 := by
  obtain hempty | ⟨⟨hstart, -⟩ | hstart | ⟨hstart, -⟩, -⟩ := p.begins
  · obtain ⟨segments⟩ := p
    obtain rfl : segments = [""] := hempty
    exact Nat.zero_le 1
  · rw [hstart]
    exact Nat.le_refl 1
  · rw [hstart]
    exact Nat.le_refl 1
  · rw [hstart]
    exact Nat.zero_le 1

theorem drop_components (p : Path) {n : Nat} (h : p.splitStart.1.length ≤ n) :
    p.components.drop n =
      (p.splitStart.2.filterMap component?).drop (n - p.splitStart.1.length) := by
  rw [Path.components, List.drop_append, List.length_map,
    List.drop_eq_nil_of_le (by rw [List.length_map]; exact h), List.nil_append]

theorem components_trimmed (p : Path) : p.trimmed.components = p.components := by
  obtain hempty | ⟨hbegins, -⟩ := p.begins
  · obtain ⟨segments⟩ := p
    obtain rfl : segments = [""] := hempty
    rfl
  · have hkept := filterMap_dropEndBlanks p.splitStart.2
    by_cases hroot : p.splitStart.1 = [""] ∧ dropEndBlanks p.splitStart.2 = []
    · obtain ⟨hstart, hnone⟩ := hroot
      have hcomponents : p.components = [.root] := by
        rw [Path.components, hstart, ← hkept, hnone]
        rfl
      rw [hcomponents, trimmed, hstart, hnone]
      rfl
    · have hleft : Begins p.splitStart.1 (dropEndBlanks p.splitStart.2) := by
        obtain ⟨hstart, -⟩ | hstart | ⟨hstart, hinner⟩ := hbegins
        · exact .inl ⟨hstart, fun hnone => hroot ⟨hstart, hnone⟩⟩
        · exact .inr (.inl hstart)
        · exact .inr (.inr ⟨hstart, hinner.dropEndBlanks⟩)
      have hparts : p.trimmed = ⟨p.splitStart.1 ++ dropEndBlanks p.splitStart.2⟩ := by
        rw [trimmed, ofParts, if_neg (by simpa using hroot)]
      rw [hparts, hleft.components, hkept]
      rfl

theorem Inner.trimmed (h : Inner p.segments) : Inner p.trimmed.segments := by
  have htrimmed : p.trimmed = ⟨Path.dropEndBlanks p.segments⟩ := by
    rw [Path.trimmed, h.splitStart, ofParts]
    rfl
  rw [htrimmed]
  exact h.dropEndBlanks

theorem relativeTo?_of_prefix {base : Path} (h : base.components <+: p.components) :
    ∃ relative, p.relativeTo? base = some relative ∧
      relative.components = p.components.drop base.components.length ∧
      (Inner p.segments ∨ base.components ≠ [] → Inner relative.segments) := by
  have hleads : base.components.isPrefixOf p.components = true := List.isPrefixOf_iff_prefix.mpr h
  by_cases hbase : base.components.length = 0
  · refine ⟨p.trimmed, by simp [relativeTo?, hleads, hbase], ?_, ?_⟩
    · rw [components_trimmed, hbase, List.drop_zero]
    · rintro (hinner | hne)
      · exact hinner.trimmed
      · exact absurd (List.length_eq_zero_iff.mp hbase) hne
  · let left := dropCounting (base.components.length - p.splitStart.1.length) p.splitStart.2
    have hinner : Inner (dropEndBlanks left) := (inner_dropCounting _ _).dropEndBlanks
    have hrelative : p.relativeTo? base = some ⟨dropEndBlanks left⟩ := by
      simp [relativeTo?, hleads, hbase, left]
    have hstart := p.length_splitStart_le
    refine ⟨_, hrelative, ?_, fun _ => hinner⟩
    rw [hinner.components, filterMap_dropEndBlanks, filterMap_dropCounting,
      ← p.drop_components (by omega)]

theorem Below.relative {file root : Path} {names : List String} (h : file.Below root names) :
    ∃ relative, file.relativeTo? root = some relative ∧ Inner relative.segments ∧
      relative.components = names.map .name := by
  obtain ⟨relative, hrelative, hcomponents, hinner⟩ :=
    relativeTo?_of_prefix ⟨_, h.components.symm⟩
  rw [h.components, List.drop_left] at hcomponents
  refine ⟨relative, hrelative, hinner ?_, hcomponents⟩
  by_cases hroot : root.components = []
  · -- the whole path cannot be absolute, as it begins with a name
    left
    have hnames : file.components = names.map .name := by rw [h.components, hroot, List.nil_append]
    obtain ⟨name, rest, rfl⟩ := List.exists_cons_of_ne_nil h.proper
    obtain hempty | ⟨⟨hstart, -⟩ | hstart | ⟨hstart, hbody⟩, hsegments⟩ := file.begins
    · rw [components_of_empty hempty] at hnames
      cases hnames
    · simp [Path.components, hstart, startComponent] at hnames
    · simp [Path.components, hstart, startComponent] at hnames
    · rw [hstart] at hsegments
      rw [hsegments]
      exact hbody
  · exact .inr hroot

theorem filterMap_dropLast (h : segments.getLast? = some "") :
    segments.dropLast.filterMap component? = segments.filterMap component? := by
  obtain ⟨front, rfl⟩ := List.getLast?_eq_some_iff.mp h
  simp [component?, isBlank]

theorem components_join_relative (hp : p.segments ≠ []) (hp' : p.segments ≠ [""])
    (hq : q.isAbsolute = false) (hne : q.segments ≠ []) :
    (p.join q).components = p.components ++ q.segments.filterMap component? := by
  obtain hempty | ⟨hbegins, hsegments⟩ := p.begins
  · exact absurd hempty hp'
  -- a slash at the end of the first path does not count
  obtain ⟨body, hjoin, hbody, hsame⟩ : ∃ body, p.join q = ⟨p.splitStart.1 ++ (body ++ q.segments)⟩ ∧
      Begins p.splitStart.1 (body ++ q.segments) ∧
      body.filterMap component? = p.splitStart.2.filterMap component? := by
    have hbehind : ∀ body, (p.splitStart.1 = [] → Inner p.splitStart.2 → Inner body ∧ body ≠ []) →
        Begins p.splitStart.1 (body ++ q.segments) := by
      intro body hfront
      obtain ⟨hstart, -⟩ | hstart | ⟨hstart, hinner⟩ := hbegins
      · exact .inl ⟨hstart, by simp [hne]⟩
      · exact .inr (.inl hstart)
      · obtain ⟨hinner', hsome⟩ := hfront hstart hinner
        exact .inr (.inr ⟨hstart, hinner'.append_of_ne_nil hsome q.segments⟩)
    by_cases hlast : p.segments.getLast? = some ""
    · have hslash : p.splitStart.2.getLast? = some "" := hbegins.getLast? (hsegments ▸ hlast)
      have hbody : p.splitStart.2 ≠ [] := by
        rintro hnil
        simp [hnil] at hslash
      refine ⟨p.splitStart.2.dropLast, ?_, ?_, filterMap_dropLast hslash⟩
      · rw [join, if_neg (by simp [hq]), if_pos hlast, hsegments,
          List.dropLast_append_of_ne_nil hbody, List.append_assoc]
      · exact hbehind _ fun _ h => ⟨h.of_isPrefix (List.dropLast_prefix _), h.dropLast_ne_nil hslash⟩
    · refine ⟨p.splitStart.2, ?_, hbehind _ fun hstart h => ⟨h, ?_⟩, rfl⟩
      · rw [join, if_neg (by simp [hq]), if_neg hlast, hsegments, List.append_assoc]
      · rwa [hsegments, hstart, List.nil_append] at hp
  rw [hjoin, hbody.components, List.filterMap_append, hsame, ← List.append_assoc]
  rfl

theorem components_join (p : Path) (hinner : Inner q.segments) (hne : q.segments ≠ []) :
    (p.join q).components = p.components ++ q.components := by
  have hrelative : q.isAbsolute = false := by
    rw [isAbsolute, hinner.splitStart]
    rfl
  have hcomponents : q.components = q.segments.filterMap component? := hinner.components
  by_cases hempty : p.segments = [] ∨ p.segments = [""]
  · have hjoin : p.join q = q := by
      obtain hnil | hnil := hempty <;> simp [join, hrelative, hnil]
    have hnone : p.components = [] := by
      obtain ⟨segments⟩ := p
      obtain rfl | rfl := hempty <;> rfl
    rw [hjoin, hnone, List.nil_append]
  · rw [not_or] at hempty
    rw [components_join_relative hempty.1 hempty.2 hrelative hne, hcomponents]

theorem isBlank_of_component? {s : String} {c : Component} (h : component? s = some c) :
    isBlank s = false := by
  by_contra hs
  rw [component?, if_pos (by simpa using hs)] at h
  cases h

theorem component?_isSome {s : String} (h : isBlank s = false) : ∃ c, component? s = some c := by
  rw [component?, h, if_neg (by simp)]
  split
  · exact ⟨_, rfl⟩
  · exact ⟨_, rfl⟩

theorem startComponent_ne_name (s name : String) : startComponent s ≠ .name name := by
  rw [startComponent]
  split <;> simp

theorem component?_withExtension (stem : String) :
    component? (stem ++ "." ++ "js") = some (.name (stem ++ "." ++ "js")) := by
  -- it is longer than every segment that is no name
  have hlength : 3 ≤ (stem ++ "." ++ "js").length := by
    have hjs : "js".length = 2 := rfl
    have hdot : ".".length = 1 := rfl
    simp only [String.length_append]
    omega
  have hne : ∀ short : String, short.length < 3 → stem ++ "." ++ "js" ≠ short := by
    rintro short hshort heq
    rw [heq] at hlength
    omega
  have hblank : isBlank (stem ++ "." ++ "js") = false := by
    simp [isBlank, hne "" (by decide), hne "." (by decide)]
  rw [component?, hblank, if_neg (by simp), if_neg (hne ".." (by decide))]

/-- Another extension changes the last component only, provided that it is a name. -/
theorem components_withExtension {front : List Component} {name : String}
    (h : p.components = front ++ [Component.name name]) :
    (p.withExtension "js").components =
      front ++ [Component.name ((splitExtension name).1 ++ "." ++ "js")] := by
  have hname : p.fileName? = some name := by simp [fileName?, h]
  obtain hempty | ⟨hbegins, -⟩ := p.begins
  · simp [components_of_empty hempty] at h
  -- the last component is that of the last segment which is not blank
  have hbody : p.splitStart.2.filterMap component? ≠ [] := by
    intro hnil
    rw [Path.components, hnil, List.append_nil] at h
    have hmem : Component.name name ∈ p.splitStart.1.map startComponent := by simp [h]
    obtain ⟨s, -, hs⟩ := List.mem_map.mp hmem
    exact startComponent_ne_name s name hs
  obtain ⟨body, last, hbody, hlast⟩ := dropEndBlanks_eq_append hbody
  obtain ⟨c, hc⟩ := component?_isSome hlast
  have hcomponents : p.components =
      p.splitStart.1.map startComponent ++ body.filterMap component? ++ [c] := by
    rw [Path.components, ← filterMap_dropEndBlanks, hbody, List.filterMap_append,
      List.append_assoc]
    simp [hc]
  obtain ⟨rfl, -⟩ := List.append_inj' (h.symm.trans hcomponents) rfl
  have htrimmed : p.trimmed.segments = p.splitStart.1 ++ body ++ [last] := by
    rw [trimmed, ofParts, hbody, if_neg (by simp), List.append_assoc]
  have hrenamed := component?_withExtension (splitExtension name).1
  have hnew : Begins p.splitStart.1 (body ++ [(splitExtension name).1 ++ "." ++ "js"]) := by
    refine hbegins.withBody (by simp) fun hinner => ?_
    have hfront : body <+: p.splitStart.2 :=
      (List.prefix_append body [last]).trans (hbody ▸ dropEndBlanks_isPrefix p.splitStart.2)
    exact (hinner.of_isPrefix hfront).append (by simp [Inner, isBlank_of_component? hrenamed])
  have hpath : p.withExtension "js" =
      ⟨p.splitStart.1 ++ (body ++ [(splitExtension name).1 ++ "." ++ "js"])⟩ := by
    rw [withExtension, hname]
    simp only [htrimmed]
    rw [List.dropLast_concat, List.append_assoc]
  rw [hpath, hnew.components, List.filterMap_append, List.filterMap_cons, hrenamed,
    List.append_assoc]
  rfl

theorem foldl_extendUrl (url : List Char) (names : List String) :
    (names.map Component.name).foldl extendUrl url =
      url ++ names.flatMap fun name => '/' :: name.toList := by
  induction names generalizing url with
  | nil => simp
  | cons name names ih => simp [ih, extendUrl]

theorem takeWhile_names {name : List Char} (h : '/' ∉ name) (names : List String) :
    (name ++ names.flatMap fun name => '/' :: name.toList).takeWhile (· ≠ '/') = name := by
  have hall : ∀ c ∈ name, decide (c ≠ '/') = true := by
    intro c hc
    have hne : c ≠ '/' := fun heq => h (heq ▸ hc)
    simpa using hne
  rw [List.takeWhile_append_of_pos hall]
  cases names with
  | nil => simp
  | cons other names => simp

theorem names_injective {names others : List String} (h : ∀ name ∈ names, '/' ∉ name.toList)
    (hothers : ∀ name ∈ others, '/' ∉ name.toList)
    (heq : (names.flatMap fun name => '/' :: name.toList) =
      others.flatMap fun name => '/' :: name.toList) : names = others := by
  induction names generalizing others with
  | nil =>
    cases others with
    | nil => rfl
    | cons other others => simp at heq
  | cons name names ih =>
    cases others with
    | nil => simp at heq
    | cons other others =>
      rw [List.flatMap_cons, List.flatMap_cons, List.cons_append, List.cons_append,
        List.cons_inj_right] at heq
      have hfirst := congrArg (List.takeWhile (· ≠ '/')) heq
      rw [takeWhile_names (h name (by simp)), takeWhile_names (hothers other (by simp))] at hfirst
      rw [hfirst, List.append_cancel_left_eq] at heq
      rw [String.toList_inj.mp hfirst, ih (fun n hn => h n (by simp [hn]))
        (fun n hn => hothers n (by simp [hn])) heq]

theorem url_of_names {names : List String} (h : p.components = names.map .name)
    (hne : names ≠ []) :
    p.url = String.ofList (names.flatMap fun name => '/' :: name.toList) := by
  obtain ⟨name, rest, rfl⟩ := List.exists_cons_of_ne_nil hne
  rw [Path.url, urlPath, h, foldl_extendUrl]
  rfl

end ModuleHost.Files.Path
