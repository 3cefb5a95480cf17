import ModuleHost.Hot.MessageText
import ModuleHost.Proofs.Json.Normal

/-! What is understood of a value that fits a depth. The values that a message keeps are normal and
fit what is left of the depth, and an error report keeps nothing twice. -/

namespace ModuleHost.Hot

open ModuleHost.Json

namespace Decode

variable {α β σ : Type} {d : Nat} {x : Decode α} {f : α → Decode β} {P : α → Prop} {Q : β → Prop}
  {v : Value}

/-- What holds of an answer, if there is one. -/
def Gives (x : Decode α) (P : α → Prop) : Prop := ∀ a, x = .ok a → P a

namespace Gives

theorem pure {a : α} (h : P a) : Gives (Pure.pure a) P := by
  rintro b ⟨⟩
  exact h

theorem throw (cause : Cause) : Gives (throw cause : Decode α) P := nofun

theorem bind (hx : Gives x P) (hf : ∀ a, P a → Gives (f a) Q) : Gives (x >>= f) Q := by
  intro b hb
  cases x with
  | error cause => cases hb
  | ok a => exact hf a (hx a rfl) b hb

theorem andThen (hf : ∀ a, Gives (f a) Q) : Gives (x >>= f) Q :=
  bind (P := fun _ => True) (fun _ _ => trivial) fun a _ => hf a

theorem mapM {f : α → Decode β} {as : List α} (h : ∀ a ∈ as, Gives (f a) Q) :
    Gives (as.mapM f) fun bs => ∀ b ∈ bs, Q b := by
  induction as with
  | nil => exact .pure (by simp)
  | cons a as ih =>
    obtain ⟨ha, has⟩ := List.forall_mem_cons.mp h
    rw [List.mapM_cons]
    exact ha.bind fun b hb => (ih has).bind fun bs hbs => .pure (List.forall_mem_cons.mpr ⟨hb, hbs⟩)

end Gives

theorem mismatch_gives (v : Value) (expected : String) : Gives (mismatch v expected : Decode α) P :=
  .throw _

theorem word_gives (hv : Fits d v) : Gives (word v) (· < Read.wordLimit) := by
  cases hv with
  | int hlow hhigh =>
    intro n hn
    rw [word] at hn
    split at hn
    · cases hn
      exact (Int.toNat_lt_of_ne_zero (by decide)).mpr hhigh
    · cases hn
  | _ => exact mismatch_gives _ _

section

variable {fields : List (KeyedField σ)} {s : σ} {I : σ → Prop}

/-- What each field keeps is kept by all entries of an object together. -/
theorem entries_gives {seen : List String} {es : List (String × Value)}
    (hfields : ∀ field ∈ fields, ∀ v, Fits d v → ∀ s, I s → Gives (field.take v s) I)
    (hes : ∀ e ∈ es, Fits d e.2) (hs : I s) : Gives (entries fields seen es s) I := by
  induction es generalizing seen s with
  | nil => exact .pure hs
  | cons e es ih =>
    obtain ⟨key, v⟩ := e
    obtain ⟨hv, hes⟩ := List.forall_mem_cons.mp hes
    rw [entries]
    split
    · exact ih hes hs
    · rename_i field hfield
      have htake := hfields field (List.mem_of_find?_eq_some hfield) v hv s hs
      have hmore : ∀ t, I t → Gives (entries fields (key :: seen) es t) I := fun t ht => ih hes ht
      have hrest := htake.bind hmore
      by_cases hseen : seen.contains key = true
      · rw [if_pos hseen]
        exact nofun
      · rw [if_neg hseen]
        exact hrest

theorem elements_gives {vs : List Value}
    (hfields : ∀ field ∈ fields, ∀ v, Fits d v → ∀ s, I s → Gives (field.take v s) I)
    (hvs : ∀ v ∈ vs, Fits d v) (hs : I s) : Gives (elements fields vs s) fun found => I found.1 := by
  induction fields generalizing vs s with
  | nil => exact .pure hs
  | cons field fields ih =>
    obtain ⟨hfield, hfields⟩ := List.forall_mem_cons.mp hfields
    cases vs with
    | nil => exact .pure hs
    | cons v vs =>
      obtain ⟨hv, hvs⟩ := List.forall_mem_cons.mp hvs
      exact (hfield v hv s hs).bind fun t ht => ih hfields hvs ht

/-- Asking for what has been found, which never makes anything up. -/
def Asks (require : (β : Type) → Nat → String → Option β → Decode β) : Prop :=
  ∀ β position key found, Gives (require β position key found) fun b => found = some b

theorem Shape.ofValue_gives {shape : Shape σ α} (hv : Fits (d + 1) v) (hinitial : I shape.initial)
    (hfields : ∀ field ∈ shape.fields, ∀ v, Fits d v → ∀ s, I s → Gives (field.take v s) I)
    (hbuild : ∀ require, Asks require → ∀ s, I s → Gives (shape.build require s) P) :
    Gives (shape.ofValue v) P := by
  have hrequired : Asks fun _ _ key found => required key found := by
    intro β position key found
    cases found with
    | none => exact .throw _
    | some b => exact .pure rfl
  have hrequiredAt : Asks fun _ position _ found => requiredAt position shape.expected found := by
    intro β position key found
    cases found with
    | none => exact .throw _
    | some b => exact .pure rfl
  cases hv with
  | object hes =>
    exact (entries_gives hfields hes hinitial).bind fun s hs => hbuild _ hrequired s hs
  | array hvs =>
    refine (elements_gives hfields hvs hinitial).bind fun found hs => ?_
    exact (hbuild _ hrequiredAt found.1 hs).bind fun a ha => .andThen fun _ => .pure ha
  | _ => exact mismatch_gives _ _

end

end Decode

open Decode

/-- An error report as it is read at a depth: what else it holds is sorted, bears none of the names
of its own fields and is normal. -/
structure ServerError.Settled (d : Nat) (err : ServerError) : Prop where
  sorted : Sorted err.extra
  apart : ∀ e ∈ err.extra, ∀ field ∈ errorFields, field.key ≠ e.1
  normal : ∀ e ∈ err.extra, Normal e.2
  fits : ∀ e ∈ err.extra, Fits d e.2

def Message.Settled (d : Nat) : Message → Prop
  | .update us => ∀ u ∈ us, u.timestamp < Read.wordLimit
  | .custom _ data => Normal data ∧ Fits (d + 1) data
  | .error err => err.Settled d
  | _ => True

theorem UpdateEntry.ofValue_gives {d : Nat} {v : Value} (hv : Fits (d + 1) v) :
    Gives (UpdateEntry.shape.ofValue v) fun u => u.timestamp < Read.wordLimit := by
  refine Shape.ofValue_gives (I := fun s => ∀ n ∈ s.timestamp, n < Read.wordLimit) hv nofun ?_ ?_
  · simp only [UpdateEntry.shape, List.forall_mem_cons, List.not_mem_nil, false_imp_iff,
      implies_true, and_true]
    refine ⟨fun v hv s hs => ?_, fun v hv s hs => ?_, fun v hv s hs => ?_, fun v hv s hs => ?_⟩
    · exact .andThen fun _ => .pure hs
    · exact .andThen fun _ => .pure hs
    · exact .andThen fun _ => .pure hs
    · refine (word_gives hv).bind fun n hn => .pure ?_
      rintro m ⟨⟩
      exact hn
  · intro require hrequire s hs
    refine .andThen fun _ => .andThen fun _ => .andThen fun _ => ?_
    exact (hrequire _ _ _ _).bind fun n hn => .pure (hs n hn)

theorem updates_gives {d : Nat} {v : Value} (hv : Fits (d + 2) v) :
    Gives (updates v) fun us => ∀ u ∈ us, u.timestamp < Read.wordLimit := by
  cases hv with
  | array hvs => exact .mapM fun v hv => UpdateEntry.ofValue_gives (hvs v hv)
  | _ => exact mismatch_gives _ _

theorem ServerError.ofValue_gives {d : Nat} {v : Value} (hv : Fits (d + 1) v) :
    Gives (ServerError.ofValue v) (ServerError.Settled d) := by
  cases hv with
  | @object _ es hes =>
    refine .andThen fun s => .andThen fun message => .pure ?_
    have hextra : ∀ e ∈ sortEntries ((es.filter fun e => !errorFields.any (·.key = e.1)).map
        fun e => (e.1, e.2.normalize)), ∃ f ∈ es, e = (f.1, f.2.normalize) ∧
          ∀ field ∈ errorFields, field.key ≠ f.1 := by
      intro e he
      obtain ⟨f, hf, rfl⟩ := List.mem_map.mp (mem_sortEntries he)
      obtain ⟨hmem, hother⟩ := List.mem_filter.mp hf
      exact ⟨f, hmem, rfl, by simpa using hother⟩
    refine ⟨sortEntries_sorted _, fun e he => ?_, fun e he => ?_, fun e he => ?_⟩
    · obtain ⟨f, -, rfl, hother⟩ := hextra e he
      exact hother
    · obtain ⟨f, -, rfl, -⟩ := hextra e he
      exact normalize_normal f.2
    · obtain ⟨f, hf, rfl, -⟩ := hextra e he
      exact (hes f hf).normalize
  | _ => exact mismatch_gives _ _

theorem singleField_gives {α : Type} {d : Nat} {v : Value} {title key : String}
    {take : Value → Decode α} {build : α → Message} {P : α → Prop} {Q : Message → Prop}
    (hv : Fits (d + 1) v) (htake : ∀ v, Fits d v → Gives (take v) P) (hbuild : ∀ a, P a → Q (build a)) :
    Gives ((singleField title key take build).ofValue v) Q := by
  refine Shape.ofValue_gives (I := fun s => ∀ a ∈ s, P a) hv nofun ?_ fun require hrequire s hs => ?_
  · simp only [singleField, List.mem_singleton, forall_eq]
    refine fun v hv s _ => (htake v hv).bind fun a ha => .pure ?_
    rintro b ⟨⟩
    exact ha
  · exact (hrequire _ _ _ _).bind fun a ha => .pure (hbuild a (hs a ha))

theorem customShape_gives {d : Nat} {v : Value} (hv : Fits (d + 2) v) :
    Gives (customShape.ofValue v) (Message.Settled d) := by
  refine Shape.ofValue_gives (I := fun s => Normal s.data ∧ Fits (d + 1) s.data) hv ⟨.null, .null⟩
    ?_ fun require hrequire s hs => .andThen fun event => .pure ?_
  · simp only [customShape, List.forall_mem_cons, List.not_mem_nil, false_imp_iff, implies_true,
      and_true]
    refine ⟨fun v hv s hs => .andThen fun _ => .pure hs, fun v hv s _ => .pure ?_⟩
    exact ⟨normalize_normal v, hv.normalize⟩
  · exact hs

theorem Message.ofContent_gives {d : Nat} {content : Value} (kind : MessageKind)
    (hcontent : Fits (d + 2 + 1) content) :
    Gives (Message.ofContent content kind) (Message.Settled (d + 1)) := by
  have hbare : ∀ m, Message.Settled (d + 1) m → Gives (bare m content) (Message.Settled (d + 1)) := by
    intro m hm
    unfold bare
    split
    · exact .andThen fun _ => .pure hm
    · exact .pure hm
  cases kind with
  | connected => exact hbare _ trivial
  | ping => exact hbare _ trivial
  | update => exact singleField_gives hcontent (fun _ => updates_gives) fun _ h => h
  | prune =>
    exact singleField_gives (P := fun _ => True) hcontent (fun _ _ _ _ => trivial) fun _ _ => trivial
  | fullReload =>
    refine Shape.ofValue_gives (I := fun _ => True) hcontent trivial (fun _ _ _ _ _ _ _ _ => trivial) ?_
    exact fun _ _ s _ => .pure trivial
  | custom => exact customShape_gives hcontent
  | error => exact singleField_gives hcontent (fun _ => ServerError.ofValue_gives) fun _ h => h

end ModuleHost.Hot
