import ModuleHost.Proofs.Wrap.Reference
import ModuleHost.Proofs.Wrap.Refusals

/-! A reference to a source map in the last line of a module is taken off if a comment starts there.
The tokens of the module then end in front of it, unless another line, ended by a carriage return or
a separator, hides behind the comment. -/

namespace ModuleHost.Wrap

open ModuleHost.Syntax ModuleHost.Text ModuleHost.Wrap.SourceMap

def commentAt (m : Module) (start : Nat) : List Char :=
  ((dropBytes? m.source start).getD []).takeWhile (!isLineEnd ·)

def BehindBreak (source : List Char) (n : Nat) : Prop :=
  ((takeBytes? source n).bind List.getLast?).any isLineBreak = true

instance (source : List Char) (n : Nat) : Decidable (BehindBreak source n) :=
  inferInstanceAs (Decidable (_ = true))

/-- What the reader of a module promises of its tokens and line comments. -/
structure Lexed (m : Module) (tokens : List Span) : Prop where
  comments : ∀ start ∈ m.lineComments,
    ((dropBytes? m.source start).bind (dropStart? ['/', '/'])).isSome
  cut : ∀ t ∈ tokens, t.lo < t.hi ∧ Boundary m.source t.hi
  apart : ∀ t ∈ tokens, ∀ start ∈ m.lineComments,
    t.hi ≤ start ∨ start + byteLength (commentAt m start) ≤ t.lo
  broken : ∀ t ∈ tokens, BehindBreak m.source t.hi → ∃ next ∈ tokens, next.lo = t.hi
  items : ∀ item ∈ m.items, ∃ t ∈ tokens, t.hi = item.span.hi

variable {m : Module} {tokens : List Span} {t : Span} {code : String} {start n : Nat}
  {kept gap before line breaks value u v : List Char} {config : Config} {path : String}

/-! ### Tokens -/

theorem commentAt_append (h : m.source = u ++ v) :
    commentAt m (byteLength u) = v.takeWhile (!isLineEnd ·) := by
  rw [commentAt, h, dropBytes?_append]
  rfl

theorem behindBreak_append {c : Char} (h : m.source = u ++ c :: v) (hc : isLineBreak c = true) :
    BehindBreak m.source (byteLength (u ++ [c])) := by
  have htake : takeBytes? m.source (byteLength (u ++ [c])) = some (u ++ [c]) := by
    have hsource : m.source = u ++ [c] ++ v := by rw [h, List.append_assoc, List.singleton_append]
    rw [hsource, takeBytes?_append]
  unfold BehindBreak
  rw [htake, Option.bind_some, List.getLast?_concat, Option.any_some, hc]

theorem Lexed.starts (hl : Lexed m tokens) (h : start ∈ m.lineComments) :
    ∃ p r, m.source = p ++ '/' :: '/' :: r ∧ byteLength p = start := by
  obtain ⟨r, hr⟩ := Option.isSome_iff_exists.mp (hl.comments start h)
  obtain ⟨s, hs, hslashes⟩ := Option.bind_eq_some_iff.mp hr
  obtain ⟨p, hsource, hp⟩ := dropBytes?_eq_some.mp hs
  rw [dropStart?_eq_some.mp hslashes] at hsource
  exact ⟨p, r, hsource, hp⟩

theorem Lexed.hi_le (hl : Lexed m tokens) (hsource : m.source = kept ++ (gap ++ v))
    (hgap : ∀ c ∈ gap, isLineBreak c = true)
    (hclosed : ∀ t ∈ tokens, t.lo ≤ byteLength (kept ++ gap) → t.hi ≤ byteLength (kept ++ gap))
    (ht : t ∈ tokens) (hhi : t.hi ≤ byteLength (kept ++ gap)) : t.hi ≤ byteLength kept := by
  -- a token that ended among the line breaks would be followed by another one that does
  induction hleft : byteLength (kept ++ gap) - t.hi using Nat.strong_induction_on generalizing t with
  | _ left ih =>
    by_contra hlt
    obtain ⟨-, p, r, hcut, hp⟩ := hl.cut t ht
    have hlong : byteLength kept ≤ byteLength p := by omega
    obtain ⟨g, rfl, hrest⟩ := prefix_of_byteLength_le (hsource.symm.trans hcut) hlong
    rw [byteLength_append] at hp hhi
    have hinside : byteLength g ≤ byteLength gap := by omega
    obtain ⟨w, hw, -⟩ := prefix_of_byteLength_le hrest.symm hinside
    have hne : g ≠ [] := by
      rintro rfl
      rw [byteLength_nil] at hp
      omega
    obtain ⟨g', c, rfl⟩ : ∃ g' c, g = g' ++ [c] := ⟨_, _, (List.dropLast_concat_getLast hne).symm⟩
    have hbreak : isLineBreak c = true := hgap c (by simp [hw])
    have hbehind : BehindBreak m.source t.hi := by
      have hsplit : m.source = (kept ++ g') ++ c :: r := by
        rw [hcut]
        simp
      have hat := behindBreak_append hsplit hbreak
      rwa [List.append_assoc, byteLength_append, hp] at hat
    obtain ⟨next, hnext, hlo⟩ := hl.broken t ht hbehind
    have hstart : next.lo ≤ byteLength (kept ++ gap) := by
      rw [hlo, byteLength_append]
      exact hhi
    have hend := hclosed next hnext hstart
    have hlonger := (hl.cut next hnext).1
    have hkept := ih (byteLength (kept ++ gap) - next.hi) (by omega) hnext hend rfl
    omega

/-- Tokens end in front of a comment, and of the line breaks in front of it, or start behind it. -/
theorem Lexed.beside (hl : Lexed m tokens) (hsource : m.source = kept ++ (gap ++ v))
    (hgap : ∀ c ∈ gap, isLineBreak c = true) (hstart : byteLength (kept ++ gap) ∈ m.lineComments)
    (ht : t ∈ tokens) : t.hi ≤ byteLength kept ∨
      byteLength (kept ++ gap) + byteLength (v.takeWhile (!isLineEnd ·)) ≤ t.lo := by
  have hcomment : commentAt m (byteLength (kept ++ gap)) = v.takeWhile (!isLineEnd ·) :=
    commentAt_append (by rw [hsource, List.append_assoc])
  obtain ⟨p, r, hslashes, hp⟩ := hl.starts hstart
  have hv : v = '/' :: '/' :: r := by
    have hsplit : (kept ++ gap) ++ v = p ++ '/' :: '/' :: r := by
      rw [← hslashes, hsource, List.append_assoc]
    exact (append_inj_of_byteLength hsplit hp.symm).2
  have hlong : 0 < byteLength (v.takeWhile (!isLineEnd ·)) := by
    rw [hv]
    exact byteLength_pos (List.cons_ne_nil _ _)
  have hapart := fun t ht => hl.apart t ht _ hstart
  rw [hcomment] at hapart
  rcases hapart t ht with hahead | hbehind
  · refine .inl (hl.hi_le hsource hgap (fun t ht hlo => ?_) ht hahead)
    rcases hapart t ht with hahead | hbehind
    · exact hahead
    · omega
  · exact .inr hbehind

theorem Lexed.ahead (hl : Lexed m tokens) (hsource : m.source = kept ++ (gap ++ (line ++ breaks)))
    (hgap : ∀ c ∈ gap, isLineBreak c = true) (hbreaks : ∀ c ∈ breaks, isLineBreak c = true)
    (hline : ∀ c ∈ line, isLineEnd c = false) (hstart : byteLength (kept ++ gap) ∈ m.lineComments)
    (ht : t ∈ tokens) : t.hi ≤ byteLength kept := by
  rcases hl.beside hsource hgap hstart ht with hahead | hbehind
  · exact hahead
  · have hwhole : m.source = (kept ++ gap ++ line) ++ (breaks ++ []) := by
      rw [hsource]
      simp
    have hinside : ∀ t ∈ tokens, t.hi ≤ byteLength (kept ++ gap ++ line ++ breaks) := by
      intro t ht
      have hle := (hl.cut t ht).2.le
      rwa [hwhole, List.append_nil] at hle
    have hend : t.hi ≤ byteLength (kept ++ gap ++ line) :=
      hl.hi_le hwhole hbreaks (fun t ht _ => hinside t ht) ht (hinside t ht)
    have hcomment : byteLength line ≤ byteLength ((line ++ breaks).takeWhile (!isLineEnd ·)) := by
      have hline' : ∀ c ∈ line, (!isLineEnd c) = true := by simpa using hline
      rw [List.takeWhile_append_of_pos hline', byteLength_append]
      exact Nat.le_add_right _ _
    have hlonger := (hl.cut t ht).1
    rw [byteLength_append] at hend
    omega

theorem Lexed.items_ahead (hl : Lexed m tokens) (h : ∀ t ∈ tokens, t.hi ≤ n) :
    ∀ item ∈ m.items, item.span.hi ≤ n := by
  intro item hitem
  obtain ⟨t, ht, hhi⟩ := hl.items item hitem
  rw [← hhi]
  exact h t ht

/-! ### Where the body ends -/

theorem parse_source (h : Module.parse code = .ok m) : m.source = withoutMark code.toList := by
  unfold Module.parse at h
  dsimp only at h
  split at h
  · cases h
  · split at h
    · cases h
    · cases h
      rfl

theorem withoutMark_eq (text : List Char) :
    withoutMark text = text ∨ ∃ c, c.toNat = 0xFEFF ∧ text = c :: withoutMark text := by
  unfold withoutMark
  split
  · split
    · rename_i c rest hmark
      exact .inr ⟨c, hmark, rfl⟩
    · exact .inl rfl
  · exact .inl rfl

theorem Lexed.no_mark (hl : Lexed m tokens) (h : Module.parse code = .ok m)
    (hlast : LastLine code.toList before line breaks) (hline : ReferenceLine line value)
    (hstart : byteLength before ∈ m.lineComments) : m.source = code.toList := by
  have hsource := parse_source h
  rcases withoutMark_eq code.toList with hsame | ⟨c, hmark, hcons⟩
  · rw [hsource, hsame]
  · exfalso
    rw [← hsource] at hcons
    obtain ⟨p, r, hslashes, hp⟩ := hl.starts hstart
    obtain ⟨⟨sign, blanks, tail, rfl, hsign, hblanks, -⟩, -⟩ := hline
    have htext := hcons.symm.trans hlast.text
    cases before with
    | nil =>
      -- a line that is a reference begins with a slash
      obtain rfl : c = '/' := List.head_eq_of_cons_eq htext
      cases hmark
    | cons d before =>
      obtain rfl : c = d := List.head_eq_of_cons_eq htext
      have htail : m.source = before ++ _ := List.tail_eq_of_cons_eq htext
      have hthree : c.utf8Size = 3 := by
        have hval : c.val = 0xFEFF := UInt32.toNat_inj.mp hmark
        rw [Char.utf8Size, hval]
        decide
      rw [byteLength_cons, hthree] at hp
      have hshort : byteLength before ≤ byteLength p := by omega
      obtain ⟨w, rfl, hw⟩ := prefix_of_byteLength_le (htail.symm.trans hslashes) hshort
      rw [byteLength_append] at hp
      have hwlength : byteLength w = byteLength ['/', '/', sign] := by
        rcases hsign with rfl | rfl
        · exact (by omega : byteLength w = 3)
        · exact (by omega : byteLength w = 3)
      -- so the comment would start behind the sign, with white space or the label
      have hbehind : ['/', '/', sign] ++ (blanks ++ (label ++ (_ ++ tail)) ++ breaks) =
          w ++ '/' :: '/' :: r := hw
      have hrest := (append_inj_of_byteLength hbehind hwlength.symm).2
      cases blanks with
      | nil =>
        have hlabel : 's' = '/' := List.head_eq_of_cons_eq hrest
        cases hlabel
      | cons b blanks =>
        obtain rfl : b = '/' := List.head_eq_of_cons_eq hrest
        have hblank := hblanks '/' List.mem_cons_self
        cases hblank

theorem confirmedReference_eq_some {reference : String} :
    confirmedReference m (SourceMap.split code.toList) = some reference ↔
      ∃ before line breaks, LastLine code.toList before line breaks ∧
        ReferenceLine line reference.toList ∧ byteLength before ∈ m.lineComments := by
  constructor
  · intro h
    unfold confirmedReference at h
    split at h
    · rename_i hcomment
      obtain ⟨value, hvalue, rfl⟩ := Option.map_eq_some_iff.mp h
      obtain ⟨before, line, breaks, hlast, hline⟩ := split_reference.mp hvalue
      rw [split_of_reference hlast hline, List.contains_iff_mem] at hcomment
      refine ⟨before, line, breaks, hlast, ?_, hcomment⟩
      rwa [String.toList_ofList]
    · cases h
  · rintro ⟨before, line, breaks, hlast, hline, hcomment⟩
    have hcontains : m.lineComments.contains (byteLength before) = true :=
      List.contains_iff_mem.mpr hcomment
    rw [confirmedReference, split_of_reference hlast hline, if_pos hcontains, Option.map_some,
      String.ofList_toList]

theorem bodyLengthOf_detached (hlast : LastLine code.toList before line breaks)
    (hline : ReferenceLine line value) (hstart : byteLength before ∈ m.lineComments) :
    bodyLengthOf m code = byteLength (trimLineBreaks before) := by
  have hvalue : ReferenceLine line (String.ofList value).toList := by
    rwa [String.toList_ofList]
  have hconfirmed := confirmedReference_eq_some.mpr ⟨before, line, breaks, hlast, hvalue, hstart⟩
  have hsome : (confirmedReference m (SourceMap.split code.toList)).isSome = true := by
    rw [hconfirmed]
    rfl
  unfold bodyLengthOf
  dsimp only
  rw [if_pos hsome, split_of_reference hlast hline]

theorem Lexed.detached_source (hl : Lexed m tokens) (h : Module.parse code = .ok m)
    (hlast : LastLine code.toList before line breaks) (hline : ReferenceLine line value)
    (hstart : byteLength before ∈ m.lineComments) : ∃ gap,
      m.source = trimLineBreaks before ++ (gap ++ (line ++ breaks)) ∧
      (∀ c ∈ gap, isLineBreak c = true) ∧
      byteLength (trimLineBreaks before ++ gap) ∈ m.lineComments := by
  obtain ⟨gap, hbefore, hgap⟩ := dropEndWhile_split isLineBreak before
  refine ⟨gap, ?_, hgap, ?_⟩
  · rw [hl.no_mark h hlast hline hstart, hlast.text]
    nth_rewrite 1 [hbefore]
    rw [List.append_assoc]
    rfl
  · rw [hbefore] at hstart
    exact hstart

/-! ### What is cut off -/

theorem takeWhile_breaks (hbreaks : ∀ c ∈ breaks, isLineBreak c = true) :
    (line ++ breaks).takeWhile (!isLineEnd ·) = line.takeWhile (!isLineEnd ·) := by
  induction line with
  | nil =>
    cases breaks with
    | nil => rfl
    | cons c breaks =>
      have hbreak := hbreaks c List.mem_cons_self
      have hend : isLineEnd c = true := by
        simp only [isLineBreak, Bool.or_eq_true, decide_eq_true_eq] at hbreak
        rcases hbreak with rfl | rfl
        · rfl
        · rfl
      rw [List.nil_append, List.takeWhile_cons, hend]
      rfl
  | cons c line ih => rw [List.cons_append, List.takeWhile_cons, List.takeWhile_cons, ih]

/-- Where a reference is taken off, the text behind the body consists of line breaks and a line that
begins with a comment. Each token ends in the body or starts behind the comment, and none does the
latter if the comment ends with its line. -/
theorem detached_behind_code (h : Module.parse code = .ok m) (hl : Lexed m tokens)
    (hlast : LastLine code.toList before line breaks) {reference : String}
    (hd : confirmedReference m (SourceMap.split code.toList) = some reference) :
    ∃ kept gap, m.source = kept ++ (gap ++ (line ++ breaks)) ∧
      bodyLengthOf m code = byteLength kept ∧ (∀ c ∈ gap ++ breaks, isLineBreak c = true) ∧
      ReferenceLine line reference.toList ∧ byteLength (kept ++ gap) ∈ m.lineComments ∧
      (∀ t ∈ tokens, t.hi ≤ byteLength kept ∨
        byteLength (kept ++ gap) + byteLength (line.takeWhile (!isLineEnd ·)) ≤ t.lo) ∧
      ((∀ c ∈ line, isLineEnd c = false) → (∀ t ∈ tokens, t.hi ≤ byteLength kept) ∧
        ∀ item ∈ m.items, item.span.hi ≤ byteLength kept) := by
  obtain ⟨before', line', breaks', hlast', hline, hstart⟩ := confirmedReference_eq_some.mp hd
  obtain ⟨rfl, rfl, rfl⟩ := hlast.unique hlast'
  obtain ⟨gap, hsource, hgap, hcomment⟩ := hl.detached_source h hlast hline hstart
  have hbody := bodyLengthOf_detached hlast hline hstart
  refine ⟨trimLineBreaks before, gap, hsource, hbody, ?_, hline, hcomment, fun t ht => ?_,
    fun hends => ?_⟩
  · exact List.forall_mem_append.mpr ⟨hgap, hlast.breaks⟩
  · have hbeside := hl.beside hsource hgap hcomment ht
    rwa [takeWhile_breaks hlast.breaks] at hbeside
  · have htokens : ∀ t ∈ tokens, t.hi ≤ byteLength (trimLineBreaks before) := fun t ht =>
      hl.ahead hsource hgap hlast.breaks hends hcomment ht
    exact ⟨htokens, hl.items_ahead htokens⟩

def traced : Module where
  source :=
    ['i', 'm', 'p', 'o', 'r', 't', '\'', 'a', '\'', '\r', '\n', 'f', '(', ')', '\r', '\n',
      '/', '/', '#', ' ', 's', 'o', 'u', 'r', 'c', 'e', 'M', 'a', 'p', 'p', 'i', 'n', 'g',
      'U', 'R', 'L', '=', 'b', '\n']
  items := [⟨⟨0, 9⟩, .importFrom "a" [] false⟩, ⟨⟨11, 14⟩, .statement⟩]
  metas := []
  lineComments := [16]

def isTraced : Except Refusal Module → Bool
  | .ok ⟨source, [⟨first, .importFrom name [] false⟩, ⟨second, .statement⟩], metas, comments⟩ =>
    decide (source = traced.source ∧ first = ⟨0, 9⟩ ∧ name = "a" ∧ second = ⟨11, 14⟩ ∧
      metas = [] ∧ comments = [16])
  | _ => false

theorem eq_traced {r : Except Refusal Module} (h : isTraced r = true) : r = .ok traced := by
  unfold isTraced at h
  split at h
  · obtain ⟨rfl, rfl, rfl, rfl, rfl, rfl⟩ := of_decide_eq_true h
    rfl
  · cases h

def tracedCode : String := "import'a'\r\nf()\r\n//# sourceMappingURL=b\n"

theorem parse_traced : Module.parse tracedCode = .ok traced :=
  eq_traced (by decide +kernel)

theorem traced_lexed : Lexed traced [⟨0, 6⟩, ⟨6, 9⟩, ⟨11, 12⟩, ⟨12, 13⟩, ⟨13, 14⟩] where
  comments := by decide +kernel
  cut := by decide +kernel
  apart := by decide +kernel
  broken := by decide +kernel
  items := by decide

theorem traced_lastLine : LastLine tracedCode.toList (traced.source.take 16)
    ((traced.source.drop 16).take 22) ['\n'] where
  text := by decide +kernel
  start := by
    have hlast : (traced.source.take 16).getLast? = some '\n' := by decide +kernel
    rw [hlast]
    rintro c ⟨⟩
    rfl
  single := by decide +kernel
  visible := ⟨'b', by decide +kernel, by decide⟩
  breaks := List.forall_mem_singleton.mpr (by decide)

theorem traced_line : ∀ c ∈ (traced.source.drop 16).take 22, isLineEnd c = false := by
  have hall : ((traced.source.drop 16).take 22).all (!isLineEnd ·) = true := by decide +kernel
  intro c hc
  simpa using List.all_eq_true.mp hall c hc

theorem detached_behind_code_traced : bodyLengthOf traced tracedCode = 14 ∧
    ∀ item ∈ traced.items, item.span.hi ≤ 14 := by
  have hd : confirmedReference traced (SourceMap.split tracedCode.toList) = some "b" := by
    decide +kernel
  have hlength : bodyLengthOf traced tracedCode = 14 := by decide +kernel
  obtain ⟨kept, gap, -, hbody, -, -, -, -, hcode⟩ :=
    detached_behind_code parse_traced traced_lexed traced_lastLine hd
  rw [hlength] at hbody
  refine ⟨hlength, ?_⟩
  rw [hbody]
  exact (hcode traced_line).2

/-- A carriage return ends the comment but not the line that is cut off. -/
theorem code_cut_off : ∃ m, Module.parse "//# sourceMappingURL=a\rf()" = .ok m ∧
    confirmedReference m (SourceMap.split "//# sourceMappingURL=a\rf()".toList) = some "a\rf()" ∧
    m.items.map Item.span = [⟨23, 26⟩] ∧
    bodyLengthOf m "//# sourceMappingURL=a\rf()" = 0 := by
  obtain ⟨m, hparse, hm⟩ := exists_of_answers (r := Module.parse "//# sourceMappingURL=a\rf()")
    (p := fun m => confirmedReference m (SourceMap.split "//# sourceMappingURL=a\rf()".toList) =
        some "a\rf()" ∧ m.items.map Item.span = [⟨23, 26⟩] ∧
      bodyLengthOf m "//# sourceMappingURL=a\rf()" = 0) (by decide +kernel)
  exact ⟨m, hparse, of_decide_eq_true hm⟩

/-! ### What follows the wrapper -/

/-- What a transform answers for a module whose body has `n` bytes: the items in the body, wrapped,
and behind the wrapper what is attached to it. -/
structure Wrapped (config : Config) (path code : String) (m : Module) (n : Nat) (attached : String) :
    Prop where
  accepted : (∃ output, (transform config code path).1 = .ok output) ↔ ∀ item ∈ m.items,
    Together m item ∧
      (erased item.shape = true ∨ replacedWhole item.shape = true → metasIn m item = [])
  code : ∀ output, (transform config code path).1 = .ok output → ∃ c,
    (convert config path n m).1 = .ok c ∧
      woven config m n 0 0 false m.items = .ok c.body.toList ∧
      output.code = c.wrap config path ++ attached

theorem transform_code (h : Module.parse code = .ok m) {output : Output}
    (hok : (transform config code path).1 = .ok output) : ∃ c,
      (convert config path (bodyLengthOf m code) m).1 = .ok c ∧ output.code =
        attach (c.wrap config path) (confirmedReference m (SourceMap.split code.toList)) := by
  unfold transform at hok
  rw [h] at hok
  dsimp only at hok
  unfold bodyLengthOf
  dsimp only
  generalize (if (confirmedReference m (SourceMap.split code.toList)).isSome = true then
    byteLength (SourceMap.split code.toList).body else byteLength code.toList) = n at hok ⊢
  rcases hconvert : convert config path n m with ⟨fault | c, events⟩
  · rw [hconvert] at hok
    cases hok
  · rw [hconvert] at hok
    cases hok
    exact ⟨c, rfl, rfl⟩

theorem wrap_last (config : Config) (path : String) (c : Converted) :
    (c.wrap config path).toList.getLast? = some '\n' := getLast?_joined _ rfl

theorem attach_wrap (config : Config) (path : String) (c : Converted) (reference : String) :
    attach (c.wrap config path) (some reference) =
      c.wrap config path ++ ("//# sourceMappingURL=" ++ reference) := by
  unfold attach
  dsimp only
  rw [if_pos (wrap_last config path c)]

theorem convert_min (config : Config) (path : String) (n : Nat) (m : Module) :
    convert config path (min n (byteLength m.source)) m = convert config path n m := by
  unfold convert
  rw [Nat.min_assoc, Nat.min_self]

theorem Spanned.wrapped (hm : Spanned m) (h : Module.parse code = .ok m)
    (hn : Boundary m.source n) (hinside : ∀ item ∈ m.items, item.span.hi ≤ n)
    (hlength : min (bodyLengthOf m code) (byteLength m.source) = n) {attached : String}
    (hattached : ∀ c : Converted,
      attach (c.wrap config path) (confirmedReference m (SourceMap.split code.toList)) =
        c.wrap config path ++ attached) : Wrapped config path code m n attached := by
  have hconvert : convert config path (bodyLengthOf m code) m = convert config path n m := by
    rw [← convert_min, hlength]
  have haccepted : (∃ output, (transform config code path).1 = .ok output) ↔
      ∃ c, (convert config path (bodyLengthOf m code) m).1 = .ok c := transform_ok_iff h
  rw [hconvert] at haccepted
  have hiff := haccepted.trans (convert_accepts_iff config path hm hinside)
  refine ⟨hiff, fun output hok => ?_⟩
  obtain ⟨c, hc, hcode⟩ := transform_code h hok
  rw [hconvert] at hc
  have hfit := hiff.mp ⟨output, hok⟩
  have hwell : WellSpanned m := hm.wellSpanned fun item hitem => (hfit item hitem).1
  obtain ⟨c', hc', hwoven⟩ := hwell.converts config path hinside
    (fun item hitem herased => (hfit item hitem).2 (.inl herased))
    (fun item hitem hreplaced => (hfit item hitem).2 (.inr hreplaced))
  obtain rfl : c' = c := Except.ok.inj (hc'.symm.trans hc)
  have hend : bodyEnd m.source n = n := if_pos hn
  rw [hend] at hwoven
  exact ⟨c', hc, hwoven, hcode.trans (hattached c')⟩

/-- Where the last line of a text without byte order mark is a reference and a comment, it is no
part of the body, and what it names follows the wrapper. Behind a byte order mark, and where no
comment starts with such a line, the whole text is the body and nothing follows the wrapper. -/
theorem reference_reattached (config : Config) (path : String) (h : Module.parse code = .ok m)
    (hm : Spanned m) (hl : Lexed m tokens) :
    (m.source = code.toList → ∀ before line breaks value, LastLine m.source before line breaks →
      ReferenceLine line value → (∀ c ∈ line, isLineEnd c = false) →
      byteLength before ∈ m.lineComments →
        Wrapped config path code m (byteLength (trimLineBreaks before))
          ("//# sourceMappingURL=" ++ String.ofList value)) ∧
    ((m.source ≠ code.toList ∨ ∀ before line breaks value, LastLine m.source before line breaks →
        ReferenceLine line value → byteLength before ∉ m.lineComments) →
      Wrapped config path code m (byteLength m.source) "") := by
  constructor
  · intro hsame before line breaks value hlast hline hends hstart
    rw [hsame] at hlast
    have hvalue : ReferenceLine line (String.ofList value).toList := by
      rwa [String.toList_ofList]
    have hd := confirmedReference_eq_some.mpr ⟨before, line, breaks, hlast, hvalue, hstart⟩
    -- every token ends in front of the comment, so no item reaches into what is cut off
    obtain ⟨gap, hsource, hgap, hcomment⟩ := hl.detached_source h hlast hline hstart
    have hinside := hl.items_ahead fun t ht =>
      hl.ahead hsource hgap hlast.breaks hends hcomment ht
    have hcut : Boundary m.source (byteLength (trimLineBreaks before)) := ⟨_, _, hsource, rfl⟩
    refine hm.wrapped h hcut hinside ?_ fun c => ?_
    · rw [bodyLengthOf_detached hlast hline hstart]
      exact Nat.min_eq_left hcut.le
    · rw [hd, attach_wrap]
  · intro hkept
    have hnone : confirmedReference m (SourceMap.split code.toList) = none := by
      rw [Option.eq_none_iff_forall_not_mem]
      intro reference hreference
      obtain ⟨before, line, breaks, hlast, hline, hstart⟩ :=
        confirmedReference_eq_some.mp hreference
      -- a confirmed comment starts where the last line does, which a mark in front rules out
      have hsame := hl.no_mark h hlast hline hstart
      rcases hkept with hmark | hother
      · exact hmark hsame
      · rw [← hsame] at hlast
        exact hother before line breaks _ hlast hline hstart
    have hlength : bodyLengthOf m code = byteLength code.toList := by
      unfold bodyLengthOf
      dsimp only
      rw [hnone]
      rfl
    have hlong : byteLength m.source ≤ byteLength code.toList := by
      rw [parse_source h]
      rcases withoutMark_eq code.toList with hsame | ⟨c, -, hcons⟩
      · rw [hsame]
      · nth_rewrite 2 [hcons]
        exact Nat.le_add_left _ _
    refine hm.wrapped h boundary_end (fun item hitem => (hm.cut item hitem).2.2.le) ?_ fun c => ?_
    · rw [hlength]
      exact Nat.min_eq_right hlong
    · rw [hnone, String.append_empty]
      rfl

theorem traced_piece {item : Item} (hitem : item ∈ traced.items) :
    (pieceOf traced item).WellFormed := by
  have htokens : ∀ item ∈ traced.items, StartsToken (pieceOf traced item).text 0 ∧
      (pieceOf traced item).metas = [] := by decide +kernel
  obtain ⟨htoken, hmetas⟩ := htokens item hitem
  refine ⟨htoken, ?_, ?_, fun form hform => ?_⟩
  · rw [hmetas]
    exact nofun
  · rw [hmetas]
    exact .nil
  · rcases hitem with _ | ⟨_, _ | ⟨_, ⟨⟩⟩⟩ <;> cases hform

theorem traced_spanned : Spanned traced where
  ordered := by decide
  cut := by decide +kernel
  inside := nofun
  metas := nofun
  nested := by
    intro item hitem form hform
    rcases hitem with _ | ⟨_, _ | ⟨_, ⟨⟩⟩⟩ <;> cases hform
  words := by
    intro item hitem name hform
    rcases hitem with _ | ⟨_, _ | ⟨_, ⟨⟩⟩⟩ <;> cases hform
  pieces := fun _ hitem _ => traced_piece hitem

theorem traced_fits (item : Item) (hitem : item ∈ traced.items) : Together traced item ∧
    (erased item.shape = true ∨ replacedWhole item.shape = true → metasIn traced item = []) := by
  refine ⟨fun name hform => ?_, fun _ => rfl⟩
  rcases hitem with _ | ⟨_, _ | ⟨_, ⟨⟩⟩⟩ <;> cases hform

theorem reference_reattached_traced : ∃ output,
    (transform {} tracedCode "/a.js").1 = .ok output ∧ ∃ c,
      (convert {} "/a.js" 14 traced).1 = .ok c ∧
      output.code = c.wrap {} "/a.js" ++ "//# sourceMappingURL=b" := by
  have hlast := traced_lastLine
  have hsource : traced.source = tracedCode.toList := by decide +kernel
  have hline : ReferenceLine ((traced.source.drop 16).take 22) ['b'] :=
    reference?_eq_some.mp (by decide +kernel)
  rw [← hsource] at hlast
  have hwrapped := (reference_reattached {} "/a.js" parse_traced traced_spanned traced_lexed).1
    hsource _ _ _ _ hlast hline traced_line (by decide +kernel)
  have hbody : byteLength (trimLineBreaks (traced.source.take 16)) = 14 := by decide +kernel
  rw [hbody] at hwrapped
  obtain ⟨output, houtput⟩ := hwrapped.accepted.mpr traced_fits
  obtain ⟨c, hc, -, hcode⟩ := hwrapped.code output houtput
  exact ⟨output, houtput, c, hc, hcode⟩

/-- Behind a byte order mark the comment is looked for at a wrong offset. -/
theorem reference_behind_mark : ∃ m output,
    Module.parse "\ufefff()\n//# sourceMappingURL=a" = .ok m ∧ m.lineComments = [4] ∧
    m.source = "f()\n//# sourceMappingURL=a".toList ∧
    (transform {} "\ufefff()\n//# sourceMappingURL=a" "/a.js").1 = .ok output ∧
    ¬"//# sourceMappingURL=a".toList <:+ output.code.toList := by
  obtain ⟨m, hparse, hm⟩ := exists_of_answers
    (r := Module.parse "\ufefff()\n//# sourceMappingURL=a")
    (p := fun m => m.lineComments = [4] ∧ m.source = "f()\n//# sourceMappingURL=a".toList ∧
      confirmedReference m (SourceMap.split "\ufefff()\n//# sourceMappingURL=a".toList) = none)
    (by decide +kernel)
  obtain ⟨hcomments, hsource, hnone⟩ := of_decide_eq_true hm
  obtain ⟨output, houtput, -⟩ := exists_of_answers (p := fun _ => true)
    (r := (transform {} "\ufefff()\n//# sourceMappingURL=a" "/a.js").1) (by decide +kernel)
  obtain ⟨c, -, hcode⟩ := transform_code hparse houtput
  refine ⟨m, output, hparse, hcomments, hsource, houtput, fun hend => ?_⟩
  -- nothing is attached, so the output ends as the wrapper does
  have hlast : output.code.toList.getLast? = some '\n' := by
    rw [hcode, hnone]
    exact wrap_last {} "/a.js" c
  obtain ⟨front, hfront⟩ := hend
  have hreference : "//# sourceMappingURL=a".toList.getLast? = some 'a' := by decide
  rw [← hfront, List.getLast?_append, hreference] at hlast
  cases hlast

end ModuleHost.Wrap
