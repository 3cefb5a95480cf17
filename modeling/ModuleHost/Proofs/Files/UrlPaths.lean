import ModuleHost.Proofs.Files.ModulePaths

/-! The path on a server as a stack of names, and that such a path stands for itself. -/

namespace ModuleHost.Files

variable {cs : List Component} {names : Location}

/-- A name goes on top of the stack and a step up takes the top off it; nothing else counts. -/
def stacked (stack : List String) : Component → List String
  | .name text => stack ++ [text]
  | .up => stack.dropLast
  | .here | .root => stack

theorem foldl_stacked (h : .root ∉ cs) (l : Location) :
    cs.foldl stacked l = cs.foldl Location.enter l := by
  induction cs generalizing l with
  | nil => rfl
  | cons c cs ih =>
    rw [List.mem_cons, not_or] at h
    have hstep : stacked l c = l.enter c := by
      cases c with
      | root => exact absurd rfl h.1
      | here => rfl
      | up => rfl
      | name text => rfl
    rw [List.foldl_cons, List.foldl_cons, hstep, ih h.2]

theorem foldl_stacked_nil (h : .root ∉ cs.tail) :
    cs.foldl stacked [] = cs.foldl Location.enter [] := by
  cases cs with
  | nil => rfl
  | cons c cs =>
    have hfirst : stacked [] c = Location.enter [] c := by cases c <;> rfl
    rw [List.foldl_cons, List.foldl_cons, hfirst]
    exact foldl_stacked h _

theorem rooted_nil : rooted [] = "/" := rfl

theorem rooted_head (names : Location) : (rooted names).toList.head? = some '/' := by
  rw [rooted, String.toList_append]
  rfl

theorem Proper.ne_dots (h : Proper names) {name : String} (hname : name ∈ names) :
    name ≠ "" ∧ name ≠ "." ∧ name ≠ ".." := by
  obtain ⟨hcomponent, -⟩ := h name hname
  refine ⟨?_, ?_, ?_⟩
  · rintro rfl
    cases hcomponent
  · rintro rfl
    cases hcomponent
  · rintro rfl
    cases hcomponent

theorem rooted_getLast? (h : Proper names) (hne : names ≠ []) :
    (rooted names).toList.getLast? ≠ some '/' := by
  obtain ⟨front, last, rfl⟩ := List.eq_nil_or_concat' names |>.resolve_left hne
  have hlast : last ∈ front ++ [last] := by simp
  have hsome : last.toList ≠ [] := fun hnil =>
    (h.ne_dots hlast).1 (String.toList_eq_nil_iff.mp hnil)
  have hspelled : spelled (front ++ [last]) = spelled front ++ ['/'] ++ last.toList := by
    simp [spelled]
  rw [toList_rooted hne, hspelled, List.getLast?_append_of_ne_nil _ hsome]
  intro hslash
  exact (h last hlast).2 (List.mem_of_getLast? hslash)

theorem ofText_rooted (h : Proper names) (hne : names ≠ []) :
    Path.ofText (rooted names) = ⟨"" :: names⟩ := by
  have hplain : (⟨"" :: names⟩ : Path).Plain :=
    List.forall_mem_cons.mpr ⟨by simp, fun name hname => (h name hname).2⟩
  have htext : (⟨"" :: names⟩ : Path).text = rooted names := by
    obtain ⟨name, more, rfl⟩ := List.exists_cons_of_ne_nil hne
    rw [Path.text, String.intercalate_cons_cons, rooted, String.empty_append]
  rw [← htext, Path.ofText_text hplain (List.cons_ne_nil _ _)]

theorem components_rooted (h : Proper names) (hne : names ≠ []) :
    (Path.ofText (rooted names)).components = .root :: names.map .name := by
  have hbegins : Path.Begins [""] names := .inl ⟨rfl, hne⟩
  have hcomponents := hbegins.components
  rw [h.components] at hcomponents
  rw [ofText_rooted h hne]
  exact hcomponents

theorem url_location (text : String) :
    (Path.ofText text).url = rooted ((Path.ofText text).location []) :=
  urlPath_eq (Path.plain_ofText text).proper_named (Path.root_not_mem_tail _)

theorem proper_location (text : String) : Proper ((Path.ofText text).location []) :=
  proper_nil.foldl_enter (Path.plain_ofText text).proper_named

theorem url_rooted (h : Proper names) : (Path.ofText (rooted names)).url = rooted names := by
  by_cases hne : names = []
  · subst hne
    decide
  · have hlocation : (Path.ofText (rooted names)).location [] = names := by
      rw [Path.location, components_rooted h hne]
      exact location_names [] names
    rw [url_location, hlocation]

/-- The path on a server is made of the names that are left on the stack. It begins with a slash, and
unless it is the root it does not end in one and no segment of it is empty, one dot or two. It is its
own path on a server. -/
theorem url_stacked (text : String) :
    let url := (Path.ofText text).url
    url = "/" ++ String.intercalate "/" ((Path.ofText text).components.foldl stacked []) ∧
    url.toList.head? = some '/' ∧
    (url = "/" ∨ url.toList.getLast? ≠ some '/' ∧
      ∀ s ∈ (Path.ofText url).segments.tail, s ≠ "" ∧ s ≠ "." ∧ s ≠ "..") ∧
    (Path.ofText url).url = url := by
  intro url
  have hurl : url = rooted ((Path.ofText text).location []) := url_location text
  have hproper := proper_location text
  refine ⟨?_, ?_, ?_, ?_⟩
  · rw [foldl_stacked_nil (Path.root_not_mem_tail _)]
    exact hurl
  · rw [hurl]
    exact rooted_head _
  · rw [hurl]
    by_cases hne : (Path.ofText text).location [] = []
    · left
      rw [hne, rooted_nil]
    · right
      refine ⟨rooted_getLast? hproper hne, ?_⟩
      rw [ofText_rooted hproper hne]
      exact fun s hs => hproper.ne_dots hs
  · -- a path that is rooted and proper is its own location
    rw [hurl]
    exact url_rooted hproper

example : (Path.ofText "a/../../b/./c//").url = "/b/c" := by decide

end ModuleHost.Files
