import ModuleHost.Proofs.Text.Ends
import ModuleHost.Proofs.Text.Tokens
import ModuleHost.Wrap.SourceMap

/-! The form of a reference to a source map, and the last line of a text. Splitting a text finds a
reference exactly if the last line has that form. -/

namespace ModuleHost.Wrap.SourceMap

open ModuleHost.Text

/-- The last line of a text, line breaks at the end left aside. -/
structure LastLine (text before line breaks : List Char) : Prop where
  text : text = before ++ (line ++ breaks)
  start : ∀ c ∈ before.getLast?, c = '\n'
  single : '\n' ∉ line
  visible : ∃ c ∈ line.getLast?, isLineBreak c = false
  breaks : ∀ c ∈ breaks, isLineBreak c = true

/-- White space may stand around what names the source map; its first character may be any. -/
structure ReferenceLine (line value : List Char) : Prop where
  form : ∃ sign blanks tail, line = '/' :: '/' :: sign :: (blanks ++ (label ++ (value ++ tail))) ∧
    (sign = '#' ∨ sign = '@') ∧ (∀ c ∈ blanks, isAsciiBlank c = true) ∧
    ∀ c ∈ tail, isAsciiBlank c = true
  value : ∃ c rest, value = c :: rest ∧ ∀ d ∈ rest.getLast?, isAsciiBlank d = false

variable {code text before line breaks value body s r : List Char} {n : Nat}

theorem value?_eq_some : value? s = some value ↔ ∃ tail, s = value ++ tail ∧
    (∀ c ∈ tail, isAsciiBlank c = true) ∧
    ∃ c rest, value = c :: rest ∧ ∀ d ∈ rest.getLast?, isAsciiBlank d = false := by
  constructor
  · intro h
    cases s with
    | nil => cases h
    | cons c rest =>
      obtain rfl : c :: dropEndWhile isAsciiBlank rest = value := Option.some.inj h
      obtain ⟨tail, hsplit, htail⟩ := dropEndWhile_split isAsciiBlank rest
      refine ⟨tail, ?_, htail, c, _, rfl, getLast?_dropEndWhile⟩
      rw [List.cons_append, ← hsplit]
  · rintro ⟨tail, rfl, htail, c, rest, rfl, hrest⟩
    have hcut := dropEndWhile_append htail hrest
    rw [List.cons_append, value?, hcut]

theorem label_visible : ∀ c ∈ (label ++ s).head?, isAsciiBlank c = false := by
  intro c hc
  obtain rfl : 's' = c := Option.some.inj hc
  decide

theorem reference?_eq_some : reference? line = some value ↔ ReferenceLine line value := by
  constructor
  · intro h
    unfold reference? at h
    split at h
    · rename_i sign rest
      split at h
      · rename_i hsign
        obtain ⟨s, hlabel, hvalue⟩ := Option.bind_eq_some_iff.mp h
        obtain ⟨tail, hs, htail, hform⟩ := value?_eq_some.mp hvalue
        have hblanks : rest = rest.takeWhile isAsciiBlank ++ (label ++ (value ++ tail)) := by
          rw [← hs, ← dropStart?_eq_some.mp hlabel, List.takeWhile_append_dropWhile]
        have hsign' : sign = '#' ∨ sign = '@' := by simpa using hsign
        refine ⟨⟨sign, rest.takeWhile isAsciiBlank, tail, ?_, hsign', ?_, htail⟩, hform⟩
        · rw [← hblanks]
        · exact fun c hc => List.mem_takeWhile_imp hc
      · cases h
    · cases h
  · rintro ⟨⟨sign, blanks, tail, rfl, hsign, hblanks, htail⟩, hvalue⟩
    have hsign' : (sign = '#' || sign = '@') = true := by simpa using hsign
    have hrest := dropWhile_exact hblanks (label_visible (s := value ++ tail))
    have hlabel : dropStart? label (label ++ (value ++ tail)) = some (value ++ tail) :=
      dropStart?_eq_some.mpr rfl
    have hfound : value? (value ++ tail) = some value :=
      value?_eq_some.mpr ⟨tail, rfl, htail, hvalue⟩
    rw [reference?, if_pos hsign', hrest, hlabel, Option.bind_some, hfound]

theorem splitLastLine_append (hbefore : ∀ c ∈ before.getLast?, c = '\n') (hline : '\n' ∉ line) :
    splitLastLine (before ++ line) = (before, line) := by
  have hback : ∀ c ∈ line.reverse, decide (c ≠ '\n') = true := by
    intro c hc
    rw [decide_eq_true_eq]
    rintro rfl
    exact hline (List.mem_reverse.mp hc)
  have hstop : ∀ c ∈ before.reverse.head?, decide (c ≠ '\n') = false := by
    intro c hc
    rw [List.head?_reverse] at hc
    rw [hbefore c hc]
    rfl
  have htake : ((before ++ line).reverse.takeWhile (· ≠ '\n')).reverse = line := by
    rw [List.reverse_append, takeWhile_exact hback hstop, List.reverse_reverse]
  have hlength : (before ++ line).length - line.length = before.length := by
    rw [List.length_append, Nat.add_sub_cancel]
  rw [splitLastLine, htake, hlength, List.take_left]

theorem splitLastLine_parts (s : List Char) : ∃ before line, s = before ++ line ∧
    (∀ c ∈ before.getLast?, c = '\n') ∧ '\n' ∉ line := by
  obtain ⟨line, hsplit, hline⟩ := dropEndWhile_split (· ≠ '\n') s
  refine ⟨_, line, hsplit, fun c hc => ?_, fun hmem => ?_⟩
  · have hlast := getLast?_dropEndWhile c hc
    simpa using hlast
  · have hother := hline _ hmem
    simp at hother

theorem LastLine.trim (h : LastLine text before line breaks) :
    trimLineBreaks text = before ++ line := by
  obtain ⟨c, hc, hvisible⟩ := h.visible
  have hlast : ∀ d ∈ (before ++ line).getLast?, isLineBreak d = false := by
    intro d hd
    have hne : line ≠ [] := by
      rintro rfl
      cases hc
    rw [List.getLast?_append_of_ne_nil _ hne] at hd
    rw [← Option.some.inj (hc.symm.trans hd), hvisible]
  rw [trimLineBreaks, h.text, ← List.append_assoc, dropEndWhile_append h.breaks hlast]

theorem LastLine.split (h : LastLine text before line breaks) :
    splitLastLine (trimLineBreaks text) = (before, line) := by
  rw [h.trim, splitLastLine_append h.start h.single]

theorem LastLine.unique {before' line' breaks' : List Char} (h : LastLine text before line breaks)
    (h' : LastLine text before' line' breaks') : before = before' ∧ line = line' ∧ breaks = breaks' := by
  have hparts := h.split.symm.trans h'.split
  obtain ⟨rfl, rfl⟩ := Prod.mk.inj hparts
  have hrest := List.append_cancel_left (h.text.symm.trans h'.text)
  exact ⟨rfl, rfl, List.append_cancel_left hrest⟩

theorem exists_lastLine (text : List Char) : (∃ before line breaks, LastLine text before line breaks) ∨
    trimLineBreaks text = [] := by
  obtain ⟨breaks, htext, hbreaks⟩ := dropEndWhile_split isLineBreak text
  obtain ⟨before, line, hsplit, hstart, hsingle⟩ := splitLastLine_parts (trimLineBreaks text)
  have hends : ∀ c ∈ (trimLineBreaks text).getLast?, isLineBreak c = false := getLast?_dropEndWhile
  cases hlast : line.getLast? with
  | some c =>
    left
    have hne : line ≠ [] := by
      rintro rfl
      cases hlast
    refine ⟨before, line, breaks, ?_, hstart, hsingle, ⟨c, hlast, hends c ?_⟩, hbreaks⟩
    · rw [← List.append_assoc, ← hsplit]
      exact htext
    · rw [hsplit, List.getLast?_append_of_ne_nil _ hne, hlast]
      rfl
  | none =>
    right
    -- an empty last line would be behind a line break, but these are gone
    obtain rfl : line = [] := List.getLast?_eq_none_iff.mp hlast
    rw [List.append_nil] at hsplit
    cases hbefore : before.getLast? with
    | none => rw [hsplit, List.getLast?_eq_none_iff.mp hbefore]
    | some c =>
      have hbreak := hends c (by rw [hsplit, hbefore]; rfl)
      rw [hstart c hbefore] at hbreak
      cases hbreak

theorem split_of_reference (h : LastLine code before line breaks) (hline : ReferenceLine line value) :
    split code = ⟨trimLineBreaks before, some value, byteLength before⟩ := by
  have hvalue := reference?_eq_some.mpr hline
  simp only [SourceMap.split, h.split, hvalue]

theorem split_reference : (split code).reference = some value ↔
    ∃ before line breaks, LastLine code before line breaks ∧ ReferenceLine line value := by
  constructor
  · intro h
    rcases exists_lastLine code with ⟨before, line, breaks, hlast⟩ | hnone
    · refine ⟨before, line, breaks, hlast, reference?_eq_some.mp ?_⟩
      simp only [SourceMap.split, hlast.split] at h
      cases hline : reference? line with
      | none =>
        rw [hline] at h
        cases h
      | some found =>
        rw [hline] at h
        exact h
    · have hempty : reference? (splitLastLine []).2 = none := rfl
      simp only [SourceMap.split, hnone, hempty] at h
      cases h
  · rintro ⟨before, line, breaks, hlast, hline⟩
    rw [split_of_reference hlast hline]

end ModuleHost.Wrap.SourceMap
