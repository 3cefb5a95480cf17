import ModuleHost.Proofs.Text.Offsets
import ModuleHost.Proofs.Wrap.Reference

/-! The parts into which a text is split at its reference, for every text, and that a reference is
split off as it was attached. -/

namespace ModuleHost.Wrap.SourceMap

open ModuleHost.Text

/-- A line of the form of a reference, with what stands in it behind the label. White space may
stand in front of the label. -/
structure Labelled (line rest : List Char) : Prop where
  form : ∃ sign blanks, line = '/' :: '/' :: sign :: (blanks ++ (label ++ rest)) ∧
    (sign = '#' ∨ sign = '@') ∧ ∀ c ∈ blanks, isAsciiBlank c = true
  nonempty : rest ≠ []

variable {code before line breaks rest value s : List Char} {w r : String}

theorem value?_trimmed (h : value? rest = some value) : value ≠ [] ∧
    (value = dropEndWhile isAsciiBlank rest ∨
      dropEndWhile isAsciiBlank rest = [] ∧ value = rest.take 1) := by
  obtain ⟨tail, rfl, htail, c, more, rfl, hmore⟩ := value?_eq_some.mp h
  refine ⟨List.cons_ne_nil c more, ?_⟩
  by_cases hblank : more = [] ∧ isAsciiBlank c = true
  · right
    obtain ⟨rfl, hc⟩ := hblank
    exact ⟨List.rdropWhile_eq_nil_iff.mpr (List.forall_mem_cons.mpr ⟨hc, htail⟩), rfl⟩
  · left
    refine (dropEndWhile_append htail fun d hd => ?_).symm
    obtain rfl | hne := eq_or_ne more []
    · obtain rfl : c = d := Option.some.inj hd
      simpa using hblank
    · rw [List.getLast?_cons_of_ne_nil hne] at hd
      exact hmore d hd

theorem referenceLine_iff :
    ReferenceLine line value ↔ ∃ rest, Labelled line rest ∧ value? rest = some value := by
  constructor
  · rintro ⟨⟨sign, blanks, tail, hline, hsign, hblanks, htail⟩, hvalue⟩
    refine ⟨value ++ tail, ⟨⟨sign, blanks, hline, hsign, hblanks⟩, ?_⟩,
      value?_eq_some.mpr ⟨tail, rfl, htail, hvalue⟩⟩
    obtain ⟨c, more, rfl, -⟩ := hvalue
    exact List.cons_ne_nil _ _
  · rintro ⟨rest, ⟨⟨sign, blanks, hline, hsign, hblanks⟩, -⟩, hvalue⟩
    obtain ⟨tail, rfl, htail, hform⟩ := value?_eq_some.mp hvalue
    exact ⟨⟨sign, blanks, tail, hline, hsign, hblanks, htail⟩, hform⟩

theorem Labelled.exists_value (h : Labelled line rest) : ∃ value, ReferenceLine line value := by
  obtain ⟨c, more, rfl⟩ := List.exists_cons_of_ne_nil h.nonempty
  exact ⟨_, referenceLine_iff.mpr ⟨c :: more, h, rfl⟩⟩

theorem split_of_none (h : (split code).reference = none) :
    split code = ⟨code, none, byteLength code⟩ := by
  unfold SourceMap.split at h ⊢
  cases hline : reference? (splitLastLine (trimLineBreaks code)).2 with
  | none => simp only [hline]
  | some value =>
    simp only [hline] at h
    cases h

/-- A text has a reference exactly if its last line has the form of one. Then it consists of the
body, line breaks, that line and line breaks, and the reference is what stands behind the label
without white space at the end, but at least the first character. Otherwise the whole text is the
body. -/
theorem split_parts (code : List Char) :
    ((split code).reference.isSome = true ↔
      ∃ before line breaks rest, LastLine code before line breaks ∧ Labelled line rest) ∧
    (∀ value, (split code).reference = some value → ∃ gap line breaks rest,
      LastLine code ((split code).body ++ gap) line breaks ∧ Labelled line rest ∧
      (∀ c ∈ gap, isLineBreak c = true) ∧
      (∀ c ∈ (split code).body.getLast?, isLineBreak c = false) ∧
      (split code).lineStart = byteLength ((split code).body ++ gap) ∧
      value ≠ [] ∧ (value = dropEndWhile isAsciiBlank rest ∨
        dropEndWhile isAsciiBlank rest = [] ∧ value = rest.take 1)) ∧
    ((split code).reference = none →
      (split code).body = code ∧ (split code).lineStart = byteLength code) := by
  refine ⟨?_, fun value hvalue => ?_, fun hnone => ?_⟩
  · rw [Option.isSome_iff_exists]
    constructor
    · rintro ⟨value, hvalue⟩
      obtain ⟨before, line, breaks, hlast, hline⟩ := split_reference.mp hvalue
      obtain ⟨rest, hrest, -⟩ := referenceLine_iff.mp hline
      exact ⟨before, line, breaks, rest, hlast, hrest⟩
    · rintro ⟨before, line, breaks, rest, hlast, hrest⟩
      obtain ⟨value, hline⟩ := hrest.exists_value
      exact ⟨value, split_reference.mpr ⟨before, line, breaks, hlast, hline⟩⟩
  · obtain ⟨before, line, breaks, hlast, hline⟩ := split_reference.mp hvalue
    obtain ⟨rest, hrest, hshown⟩ := referenceLine_iff.mp hline
    obtain ⟨gap, hbefore, hgap⟩ := dropEndWhile_split isLineBreak before
    have hsplit := split_of_reference hlast hline
    have hparts : (split code).body ++ gap = before := by
      rw [hsplit]
      exact hbefore.symm
    refine ⟨gap, line, breaks, rest, ?_, hrest, hgap, ?_, ?_, value?_trimmed hshown⟩
    · rwa [hparts]
    · rw [hsplit]
      exact getLast?_dropEndWhile
    · rw [hparts, hsplit]
  · rw [split_of_none hnone]
    exact ⟨rfl, rfl⟩

example : (split "f();\r\n//#sourceMappingURL= \t\r\n\r".toList).reference = some [' '] := by decide

def opened (s : List Char) : List Char :=
  if s.getLast? = some '\n' then s else s ++ ['\n']

theorem opened_getLast? (s : List Char) : ∀ c ∈ (opened s).getLast?, c = '\n' := by
  intro c hc
  unfold opened at hc
  split at hc
  · rename_i hlast
    exact Option.some.inj (hc.symm.trans hlast)
  · rw [List.getLast?_concat] at hc
    exact (Option.some.inj hc).symm

theorem trimLineBreaks_opened (s : List Char) : trimLineBreaks (opened s) = trimLineBreaks s := by
  unfold opened
  split
  · rfl
  · obtain ⟨breaks, hsplit, hbreaks⟩ := dropEndWhile_split isLineBreak s
    have hmore : ∀ c ∈ breaks ++ ['\n'], isLineBreak c = true :=
      List.forall_mem_append.mpr ⟨hbreaks, by simp [isLineBreak]⟩
    have hcut := dropEndWhile_append hmore (getLast?_dropEndWhile (s := s))
    rw [← List.append_assoc, ← hsplit] at hcut
    exact hcut

theorem opened_trimmed (s : List Char) :
    opened (trimLineBreaks s) = trimLineBreaks s ++ ['\n'] := by
  refine if_neg fun hlast => ?_
  have hnot : isLineBreak '\n' = false := getLast?_dropEndWhile '\n' hlast
  cases hnot

def attachedLine (r : List Char) : List Char :=
  '/' :: '/' :: '#' :: ([' '] ++ (label ++ (r ++ [])))

theorem toList_attach (w r : String) :
    (attach w (some r)).toList = opened w.toList ++ attachedLine r.toList := by
  have hline : "//# sourceMappingURL=".toList = ['/', '/', '#', ' '] ++ label := rfl
  simp only [attach, opened, attachedLine]
  split <;> simp [hline]

theorem attachedLine_reference (hsome : r ≠ "")
    (hend : ∀ c ∈ r.toList.getLast?, isAsciiBlank c = false) :
    ReferenceLine (attachedLine r.toList) r.toList := by
  refine ⟨⟨'#', [' '], [], rfl, .inl rfl, by simp [isAsciiBlank], by simp⟩, ?_⟩
  cases hr : r.toList with
  | nil => exact absurd (String.toList_eq_nil_iff.mp hr) hsome
  | cons c rest =>
    refine ⟨c, rest, rfl, fun d hd => hend d ?_⟩
    rw [hr, List.getLast?_cons_of_ne_nil (by rintro rfl; cases hd)]
    exact hd

theorem attachedLine_last (hsome : r ≠ "") (hline : '\n' ∉ r.toList)
    (hend : ∀ c ∈ r.toList.getLast?, isAsciiBlank c = false) (before : List Char) :
    LastLine (opened before ++ attachedLine r.toList) (opened before) (attachedLine r.toList) [] where
  text := by rw [List.append_nil]
  start := opened_getLast? before
  single := by
    have hlabel : '\n' ∉ label := by decide
    simp [attachedLine, hlabel, hline]
  visible := by
    have hne : r.toList ≠ [] := fun hnil => hsome (String.toList_eq_nil_iff.mp hnil)
    obtain ⟨c, hc⟩ := Option.ne_none_iff_exists'.mp (mt List.getLast?_eq_none_iff.mp hne)
    have hlast : (attachedLine r.toList).getLast? = r.toList.getLast? := by
      have hsplit : attachedLine r.toList = ['/', '/', '#', ' '] ++ label ++ r.toList := by
        simp [attachedLine]
      rw [hsplit, List.getLast?_append_of_ne_nil _ hne]
    refine ⟨c, hlast.trans hc, ?_⟩
    have hblank := hend c hc
    by_contra hbreak
    obtain rfl | rfl : c = '\n' ∨ c = '\r' := by
      simpa [isLineBreak, or_iff_not_imp_left] using hbreak
    · cases hblank
    · cases hblank
  breaks := by simp

theorem split_attach_eq (hsome : r ≠ "") (hline : '\n' ∉ r.toList)
    (hend : ∀ c ∈ r.toList.getLast?, isAsciiBlank c = false) (w : String) :
    split (attach w (some r)).toList =
      ⟨trimLineBreaks w.toList, some r.toList, byteLength (opened w.toList)⟩ := by
  rw [toList_attach, split_of_reference (attachedLine_last hsome hline hend w.toList)
    (attachedLine_reference hsome hend), trimLineBreaks_opened]

/-- A reference that is attached to a text is split off again, with the text as the body except for
the line breaks at its end. From then on attaching and splitting give the same body and reference. -/
theorem split_attach (hsome : r ≠ "") (hline : '\n' ∉ r.toList)
    (hend : ∀ c ∈ r.toList.getLast?, isAsciiBlank c = false) (w : String) :
    let s := split (attach w (some r)).toList
    s.reference = some r.toList ∧ s.body = trimLineBreaks w.toList ∧
      split (attach (String.ofList s.body) (some r)).toList =
        ⟨s.body, s.reference, byteLength s.body + 1⟩ := by
  have hagain := split_attach_eq hsome hline hend (String.ofList (trimLineBreaks w.toList))
  have hnewline : byteLength ['\n'] = 1 := rfl
  have hidem : trimLineBreaks (trimLineBreaks w.toList) = trimLineBreaks w.toList :=
    List.rdropWhile_idempotent isLineBreak w.toList
  rw [String.toList_ofList, opened_trimmed, byteLength_append, hnewline, hidem] at hagain
  rw [split_attach_eq hsome hline hend w]
  exact ⟨rfl, rfl, hagain⟩

theorem split_attach_nested :
    " //# sourceMappingURL=a" ≠ "" ∧ '\n' ∉ " //# sourceMappingURL=a".toList ∧
    (split (attach "f();\r\n\n\r" (some " //# sourceMappingURL=a")).toList).body = "f();".toList ∧
    (split (attach "f();\r\n\n\r" (some " //# sourceMappingURL=a")).toList).reference =
      some " //# sourceMappingURL=a".toList := by
  have hsome : " //# sourceMappingURL=a" ≠ "" := by decide
  have hline : '\n' ∉ " //# sourceMappingURL=a".toList := by decide
  have hend : ∀ c ∈ " //# sourceMappingURL=a".toList.getLast?, isAsciiBlank c = false := by
    rintro c ⟨⟩
    decide
  obtain ⟨hreference, hbody, -⟩ := split_attach hsome hline hend "f();\r\n\n\r"
  exact ⟨hsome, hline, hbody.trans (by decide), hreference⟩

end ModuleHost.Wrap.SourceMap
