import ModuleHost.Proofs.Json.Values

/-! What reading leaves behind. It comes back to the depth at which it began, and a value that has
been read fits the depth at which it stood. -/

namespace ModuleHost.Json.Read

variable {α β : Type} {d fuel : Nat} {x y : Read α} {f : α → Read β} {P : α → Prop} {Q : β → Prop}

/-- From a depth, an action that succeeds comes back to this depth, with an answer that has a
property. -/
def Keeps (d : Nat) (x : Read α) (P : α → Prop) : Prop :=
  ∀ s a s', s.depth = d → x s = .ok a s' → s'.depth = d ∧ P a

abbrev Level (x : Read α) : Prop := ∀ d, Keeps d x fun _ => True

namespace Keeps

theorem pure {a : α} (h : P a) : Keeps d (Pure.pure a) P := by
  intro s b s' hs hok
  cases hok
  exact ⟨hs, h⟩

theorem bind (hx : Keeps d x P) (hf : ∀ a, P a → Keeps d (f a) Q) : Keeps d (x >>= f) Q := by
  intro s b s' hs h
  have hbind : EStateM.bind x f s = .ok b s' := h
  unfold EStateM.bind at hbind
  split at hbind
  · rename_i a t ha
    obtain ⟨ht, hP⟩ := hx s a t hs ha
    exact hf a hP t b s' ht hbind
  · cases hbind

theorem andThen (hx : Level x) (hf : ∀ a, Keeps d (f a) Q) : Keeps d (x >>= f) Q :=
  bind (hx d) fun a _ => hf a

theorem mono {P' : α → Prop} (hx : Keeps d x P) (h : ∀ a, P a → P' a) : Keeps d x P' :=
  fun s a s' hs hok => (hx s a s' hs hok).imp_right (h a)

theorem level (hx : Keeps d x P) : Keeps d x fun _ => True := hx.mono fun _ _ => trivial

theorem ite {c : Prop} [Decidable c] (hx : Keeps d x P) (hy : Keeps d y P) :
    Keeps d (if c then x else y) P := by
  split
  · exact hx
  · exact hy

theorem throw (fault : Fault) : Keeps d (throw fault : Read α) P := nofun

theorem fail (cause : Cause) : Keeps d (Read.fail cause : Read α) P := nofun

theorem failAhead (cause : Cause) : Keeps d (Read.failAhead cause : Read α) P := nofun

theorem failBehind (bytes : Nat) (cause : Cause) : Keeps d (Read.failBehind bytes cause : Read α) P :=
  nofun

theorem refused (hx : Keeps d x fun _ => False) : Keeps d (x >>= f) Q :=
  hx.bind fun _ h => h.elim

theorem placed (hx : Keeps d x P) : Keeps d (Read.placed x) P := by
  intro s a s' hs h
  unfold Read.placed at h
  split at h
  · rename_i b t hb
    cases h
    exact hx s a s' hs hb
  · cases h

end Keeps

theorem peek_level : Level peek := by
  intro d s a s' hs h
  cases h
  exact ⟨hs, trivial⟩

theorem get_level : Level (get : Read Input) := by
  intro d s a s' hs h
  cases h
  exact ⟨hs, trivial⟩

theorem advance_level : Level advance := by
  intro d s a s' hs h
  cases h
  refine ⟨?_, trivial⟩
  obtain ⟨_ | ⟨c, rest⟩, offset, depth⟩ := s <;> exact hs

theorem takeWhile_level (p : Char → Bool) : Level (takeWhile p) := by
  intro d s a s' hs h
  cases h
  exact ⟨hs, trivial⟩

theorem discard_level (hx : Level x) : Level (discard x) := fun _ =>
  Keeps.andThen hx fun _ => .pure trivial

theorem eat_level (c : Char) : Level (eat c) := fun _ =>
  .andThen peek_level fun _ => .ite (.andThen advance_level fun _ => .pure trivial) (.pure trivial)

theorem next_level : Level next := fun _ =>
  .andThen (discard_level (takeWhile_level _)) fun _ => peek_level _

theorem word_level (expected : List Char) : Level (word expected) := by
  intro d
  induction expected with
  | nil => exact .pure trivial
  | cons c expected ih =>
    refine .andThen peek_level fun head => ?_
    cases head with
    | none => exact .fail _
    | some c => exact .ite (.andThen advance_level fun _ => ih) (.failBehind _ _)

theorem hexEscape_level : Level hexEscape := by
  intro d
  unfold hexEscape
  refine .andThen get_level fun s => .ite (.refused (.failBehind _ _)) ?_
  split
  · split
    · have hadvance : Level (advance *> advance *> advance *> advance) := fun _ =>
        .andThen advance_level fun _ => .andThen advance_level fun _ => .andThen advance_level
          fun _ => advance_level _
      exact .andThen (discard_level hadvance) fun _ => .pure trivial
    · exact .failBehind _ _
  · exact .failBehind _ _

theorem expectEscape_level (c : Char) : Level (expectEscape c) := by
  intro d
  refine .andThen peek_level fun head => ?_
  cases head with
  | none => exact .fail _
  | some c => exact .ite (advance_level d) (.failBehind _ _)

theorem unicodeEscape_level : Level unicodeEscape := by
  intro d
  unfold unicodeEscape
  refine .andThen hexEscape_level fun first => .ite (.refused (.fail _)) (.ite (.pure trivial) ?_)
  refine .andThen (expectEscape_level _) fun _ => .andThen (expectEscape_level _) fun _ => ?_
  exact .andThen hexEscape_level fun second => .ite (.refused (.fail _)) (.pure trivial)

theorem escapeChar_level : Level escapeChar := by
  intro d
  refine .andThen peek_level fun head => ?_
  split
  · exact .fail _
  · exact .andThen advance_level fun _ => unicodeEscape_level d
  · split
    · exact .andThen advance_level fun _ => .pure trivial
    · exact .failBehind _ _

theorem stringPieces_level (fuel : Nat) : Level (stringPieces fuel) := by
  intro d
  induction fuel with
  | zero => exact .fail _
  | succ fuel ih =>
    unfold stringPieces
    refine .andThen (takeWhile_level _) fun plain => .andThen peek_level fun head => ?_
    split
    · exact .fail _
    · refine .andThen advance_level fun _ => .andThen escapeChar_level fun c => ?_
      exact ih.bind fun more _ => .pure trivial
    · exact .ite (.andThen advance_level fun _ => .pure trivial) (.failBehind _ _)

theorem string_level : Level string := fun _ =>
  .andThen advance_level fun _ => .andThen get_level fun _ =>
    .andThen (stringPieces_level _) fun _ => .pure trivial

def InWord (n : Number) : Prop := ∀ d, Fits d (.number n)

theorem InWord.real (x : Decimal.Binary64) : InWord (.real x) := fun _ => .real x

theorem finish_keeps (negative : Bool) (significand : Nat) (exponent : Int) :
    Keeps d (finish negative significand exponent) InWord := by
  unfold finish
  split
  · exact .pure (.real _)
  · exact .fail _

theorem exponentPart_keeps (negative : Bool) (significand : Nat) (start : Int) :
    Keeps d (exponentPart negative significand start) InWord := by
  unfold exponentPart
  refine .andThen advance_level fun _ => .andThen (eat_level _) fun plus => ?_
  extract_lets tooSmall goOn
  have hsmall : ∀ r, Keeps d (tooSmall r) InWord := fun _ =>
    .andThen (discard_level (takeWhile_level _)) fun _ => .pure (.real _)
  have hgoOn : ∀ down, Keeps d (goOn down) InWord := by
    intro down
    refine .andThen peek_level fun head => ?_
    extract_lets digitsFollow
    have hdigits : ∀ r, Keeps d (digitsFollow r) InWord := by
      intro _
      refine .andThen get_level fun s => .ite (.ite (.refused (.failBehind _ _)) (hsmall ())) ?_
      exact .andThen (discard_level (takeWhile_level _)) fun _ => finish_keeps _ _ _
    split
    · exact .refused (.fail _)
    · exact .ite (hdigits ()) (.refused (.failBehind _ _))
  exact .ite (hgoOn false) (.andThen (eat_level _) hgoOn)

theorem afterDigits_keeps (negative : Bool) (significand : Nat) (exponent : Int) :
    Keeps d (afterDigits negative significand exponent) InWord := by
  refine .andThen peek_level fun head => ?_
  split
  · exact exponentPart_keeps _ _ _
  · exact exponentPart_keeps _ _ _
  · exact finish_keeps _ _ _

theorem fractionPart_keeps (negative : Bool) (significand : Nat) (start : Int) :
    Keeps d (fractionPart negative significand start) InWord := by
  unfold fractionPart
  refine .andThen advance_level fun _ => .andThen (takeWhile_level _) fun written => .ite ?_ ?_
  · refine .andThen peek_level fun head => ?_
    split
    · exact .refused (.failAhead _)
    · exact .refused (.fail _)
  · exact afterDigits_keeps _ _ _

theorem digitsOn_keeps (negative : Bool) : Keeps d (digitsOn negative) InWord := by
  unfold digitsOn
  refine .andThen (takeWhile_level _) fun written => ?_
  have hvalue : (digitsInto 0 wordLimit written).1 < wordLimit := digitsInto_lt (by decide)
  generalize digitsInto 0 wordLimit written = taken at hvalue
  obtain ⟨value, used⟩ := taken
  refine .andThen peek_level fun head => ?_
  split
  · exact fractionPart_keeps _ _ _
  · exact exponentPart_keeps _ _ _
  · exact exponentPart_keeps _ _ _
  · refine .ite (finish_keeps _ _ _) (.ite (.pure fun d => ?_) ?_)
    · exact .natural hvalue
    · split
      · rename_i hlimit
        simp only [Bool.and_eq_true, decide_eq_true_eq] at hlimit
        exact .pure fun d => .negated hlimit.2
      · exact finish_keeps _ _ _

theorem number_keeps (negative : Bool) : Keeps d (number negative) InWord := by
  unfold number
  refine .andThen peek_level fun head => ?_
  extract_lets digits goOn
  have hdigits : ∀ r, Keeps d (digits r) InWord := fun _ => digitsOn_keeps negative
  have hgoOn : ∀ r, Keeps d (goOn r) InWord := fun _ =>
    .andThen (eat_level _) fun nought => .ite
      (.andThen peek_level fun head => .ite (.refused (.failAhead _)) (hdigits ())) (hdigits ())
  split
  · exact .refused (.fail _)
  · exact .ite (hgoOn ()) (.refused (.failBehind _ _))

theorem moreElements_level (first : Bool) : Level (moreElements first) := by
  intro d
  refine .andThen next_level fun head => ?_
  split
  · exact .fail _
  · exact .pure trivial
  · refine .ite (.pure trivial) (.andThen advance_level fun _ => .andThen next_level fun head => ?_)
    split
    · exact .failAhead _
    · exact .pure trivial
    · exact .fail _
  · exact .ite (.pure trivial) (.failAhead _)

theorem moreEntries_level (first : Bool) : Level (moreEntries first) := by
  intro d
  refine .andThen next_level fun head => ?_
  split
  · exact .fail _
  · exact .pure trivial
  · refine .ite (.ite (.pure trivial) (.failAhead _)) (.ite ?_ (.failAhead _))
    refine .andThen advance_level fun _ => .andThen next_level fun head => ?_
    split
    · exact .failAhead _
    · exact .ite (.pure trivial) (.failAhead _)
    · exact .fail _

theorem colon_level : Level colon := by
  intro d
  refine .andThen next_level fun head => ?_
  split
  · exact advance_level d
  · exact .failAhead _
  · exact .fail _

theorem endArray_level : Level endArray := by
  intro d
  refine .andThen next_level fun head => ?_
  split
  · exact advance_level d
  · refine .andThen advance_level fun _ => .andThen next_level fun head => ?_
    exact .ite (.failAhead _) (.failAhead _)
  · exact .failAhead _
  · exact .fail _

theorem endObject_level : Level endObject := by
  intro d
  refine .andThen next_level fun head => ?_
  split
  · exact advance_level d
  · exact .failAhead _
  · exact .failAhead _
  · exact .fail _

theorem bound_level : Level bound := fun _ => .andThen get_level fun _ => .pure trivial

theorem Keeps.nested (hx : Keeps (d - 1) x P) : Keeps d (nested x) fun a => 1 < d ∧ P a := by
  rintro s a s' rfl h
  by_cases hdepth : s.depth ≤ 1
  · rw [Read.nested, bind_ok get_ok, if_pos hdepth] at h
    cases h
  · obtain ⟨t, hadvance, ht⟩ : ∃ t, advance s = .ok () t ∧ t.depth = s.depth :=
      ⟨_, rfl, (advance_level s.depth s _ _ rfl rfl).1⟩
    have hinside : (x >>= fun a => (modify fun t => { t with depth := t.depth + 1 }) >>=
        fun _ => Pure.pure a) ⟨t.rest, t.offset, t.depth - 1⟩ = .ok a s' := by
      rw [Read.nested, bind_ok get_ok, if_neg hdepth] at h
      exact (bind_ok hadvance).symm.trans h
    cases hread : x ⟨t.rest, t.offset, t.depth - 1⟩ with
    | error fault u =>
      simp only [Bind.bind, EStateM.bind, hread] at hinside
      cases hinside
    | ok b u =>
      obtain ⟨hu, hP⟩ := hx _ b u (congrArg (· - 1) ht) hread
      rw [bind_ok hread] at hinside
      cases hinside
      refine ⟨?_, by omega, hP⟩
      show u.depth + 1 = s.depth
      omega

theorem Keeps.closedBy {close : Read Unit} (hclose : Level close) (hx : Keeps d x P) :
    Keeps d (closedBy close x) P := by
  refine .placed fun s a s' hs h => ?_
  split at h
  · rename_i b t hb
    obtain ⟨ht, hP⟩ := hx s b t hs hb
    have hseq : Keeps d (close *> Pure.pure b) P := .andThen hclose fun _ => .pure hP
    exact hseq t a s' ht h
  · split at h <;> cases h

theorem Keeps.elementsWith (hx : Keeps d x P) (fuel : Nat) (first : Bool) :
    Keeps d (elementsWith x fuel first) fun as => ∀ a ∈ as, P a := by
  induction fuel generalizing first with
  | zero => exact .fail _
  | succ fuel ih =>
    refine .andThen (moreElements_level first) fun more => .ite (.pure (by simp)) ?_
    refine hx.bind fun a ha => (ih false).bind fun as has => .pure ?_
    exact List.forall_mem_cons.mpr ⟨ha, has⟩

theorem Keeps.entriesWith {entry : String → Read α} (hx : ∀ key, Keeps d (entry key) P) (fuel : Nat)
    (first : Bool) : Keeps d (entriesWith entry fuel first) fun as => ∀ a ∈ as, P a := by
  induction fuel generalizing first with
  | zero => exact .fail _
  | succ fuel ih =>
    refine .andThen (moreEntries_level first) fun more => .ite (.pure (by simp)) ?_
    refine .andThen string_level fun key => (hx key).bind fun a ha => (ih false).bind ?_
    exact fun as has => .pure (List.forall_mem_cons.mpr ⟨ha, has⟩)

theorem scalar?_keeps (c : Char) :
    Keeps d (scalar? c) fun found => ∀ v ∈ found, ∀ d, Fits d v := by
  unfold scalar?
  split
  · refine .andThen advance_level fun _ => .andThen (word_level _) fun _ => .pure ?_
    rintro v ⟨⟩ d
    exact .null
  · refine .andThen advance_level fun _ => .andThen (word_level _) fun _ => .pure ?_
    rintro v ⟨⟩ d
    exact .bool true
  · refine .andThen advance_level fun _ => .andThen (word_level _) fun _ => .pure ?_
    rintro v ⟨⟩ d
    exact .bool false
  · refine .andThen advance_level fun _ => (number_keeps true).bind fun n hn => .pure ?_
    rintro v ⟨⟩ d
    exact hn d
  · exact .pure nofun
  · exact .pure nofun
  · refine .ite ?_ (.ite ?_ (.failAhead _))
    · refine (number_keeps false).bind fun n hn => .pure ?_
      rintro v ⟨⟩ d
      exact hn d
    · refine .andThen string_level fun s => .pure ?_
      rintro v ⟨⟩ d
      exact .string s

theorem value_keeps (fuel : Nat) : Keeps d (value fuel) (Fits (d - 1)) := by
  induction fuel generalizing d with
  | zero => exact .failAhead _
  | succ fuel ih =>
    have hentry : ∀ key, Keeps (d - 1)
        (colon >>= fun _ => value fuel >>= fun v => Pure.pure (key, v))
        fun e : String × Value => Fits (d - 1 - 1) e.2 := fun key =>
      .andThen colon_level fun _ => ih.bind fun v hv => .pure hv
    have harray : Keeps d
        (closedBy endArray (nested (bound >>= fun n => elementsWith (value fuel) n true)))
        fun vs => 1 < d ∧ ∀ v ∈ vs, Fits (d - 1 - 1) v :=
      .closedBy endArray_level (.nested (.andThen bound_level fun n => ih.elementsWith n true))
    have hobject : Keeps d
        (closedBy endObject (nested (bound >>= fun n => entriesWith
          (fun key => colon >>= fun _ => value fuel >>= fun v => Pure.pure (key, v)) n true)))
        fun es => 1 < d ∧ ∀ e ∈ es, Fits (d - 1 - 1) e.2 :=
      .closedBy endObject_level (.nested (.andThen bound_level fun n => .entriesWith hentry n true))
    unfold value
    refine .andThen next_level fun head => ?_
    cases head with
    | none => exact .fail _
    | some c =>
      refine (scalar?_keeps c).bind fun found hfound => ?_
      cases found with
      | some v => exact .pure (hfound v rfl _)
      | none =>
        refine .ite (harray.bind fun vs hvs => .pure ?_) (hobject.bind fun es hes => .pure ?_)
        · have hdeep : d - 1 = d - 1 - 1 + 1 := by omega
          rw [hdeep]
          exact .array hvs.2
        · have hdeep : d - 1 = d - 1 - 1 + 1 := by omega
          rw [hdeep]
          exact .object hes.2

end ModuleHost.Json.Read
