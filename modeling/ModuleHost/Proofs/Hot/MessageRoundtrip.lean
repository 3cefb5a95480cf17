import ModuleHost.Proofs.Hot.Decoding
import ModuleHost.Proofs.Hot.MessageReading

/-! A message that has been read is written as a text from which the same message is read, whatever
order the fields of an error report have in it that no report has. -/

namespace ModuleHost.Hot

open ModuleHost.Json

namespace Decode

variable {α σ : Type} {fields : List (KeyedField σ)} {seen : List String}
  {es : List (String × Value)} {s : σ}

theorem entries_others (hes : ∀ e ∈ es, ∀ field ∈ fields, field.key ≠ e.1) :
    entries fields seen es s = .ok s := by
  induction es with
  | nil => rfl
  | cons e es ih =>
    obtain ⟨he, hes⟩ := List.forall_mem_cons.mp hes
    have hnone : fields.find? (·.key = e.1) = none := by simpa using he
    rw [entries, hnone]
    exact ih hes

theorem Shape.ofObject {shape : Shape σ α} {a : α}
    (hentries : entries shape.fields [] es shape.initial = .ok s)
    (hbuild : shape.build (fun _ _ key found => required key found) s = .ok a) :
    shape.ofValue (.object es) = .ok a := by
  rw [Shape.ofValue, Shape.ofEntries, hentries]
  exact hbuild

theorem mapM_written {write : α → Value} {read : Value → Decode α} {as : List α}
    (h : ∀ a ∈ as, read (write a) = .ok a) : (as.map write).mapM read = .ok as := by
  induction as with
  | nil => rfl
  | cons a as ih =>
    obtain ⟨ha, has⟩ := List.forall_mem_cons.mp h
    rw [List.map_cons, List.mapM_cons, ha, ih has]
    rfl

theorem strings_written (paths : List String) : strings (.strings paths) = .ok paths :=
  mapM_written fun _ _ => rfl

theorem optionalString_written (s : Option String) : optionalString (optionalText s) = .ok s := by
  cases s <;> rfl

end Decode

open Decode

theorem UpdateKind.ofName_name (kind : UpdateKind) : UpdateKind.ofName kind.name = .ok kind := by
  cases kind
  · exact if_pos rfl
  · rw [UpdateKind.ofName, if_neg (by decide +kernel)]
    exact if_pos rfl

theorem UpdateEntry.ofValue_toValue (u : UpdateEntry) :
    UpdateEntry.shape.ofValue u.toValue = .ok u := by
  have hkind : UpdateKind.ofValue (.string u.kind.name) = .ok u.kind := UpdateKind.ofName_name u.kind
  have hword : word (.nat u.timestamp) = .ok u.timestamp := by
    rw [Value.nat, word, if_pos (Int.natCast_nonneg _)]
    rfl
  have hentries : entries UpdateEntry.shape.fields [] [("type", .string u.kind.name),
      ("path", .string u.path), ("acceptedPath", .string u.acceptedPath),
      ("timestamp", .nat u.timestamp)] {} =
        .ok ⟨some u.kind, some u.path, some u.acceptedPath, some u.timestamp⟩ := by
    simp [entries, UpdateEntry.shape, string, hkind, hword]
    rfl
  exact Shape.ofObject hentries rfl

theorem updates_written (us : List UpdateEntry) :
    updates (.array (us.map UpdateEntry.toValue)) = .ok us :=
  mapM_written fun u _ => u.ofValue_toValue

theorem ServerError.ofValue_toValue {d : Nat} {err : ServerError} {extra : List (String × Value)}
    (h : err.Settled d) (hw : extra.Perm err.extra) :
    ServerError.ofValue { err with extra }.toValue = .ok err := by
  let own := [("message", .string err.message), ("stack", .string err.stack),
    ("id", optionalText err.id), ("plugin", optionalText err.plugin)]
  have hentries : entries errorFields [] (own ++ extra) {} =
      .ok ⟨some err.message, some err.stack, some err.id, some err.plugin⟩ := by
    simp [own, entries, errorFields, string, optionalString_written]
    exact entries_others fun e he => h.apart e (hw.mem_iff.mp he)
  have hown : own.filter (fun e => !errorFields.any (·.key = e.1)) = [] := by
    simp [own, errorFields]
  have hothers : extra.filter (fun e => !errorFields.any (·.key = e.1)) = extra := by
    rw [List.filter_eq_self]
    intro e he
    simpa using h.apart e (hw.mem_iff.mp he)
  have hsame : extra.map (fun e => (e.1, e.2.normalize)) = extra :=
    Value.map_normalize_eq fun e he => (h.normal e (hw.mem_iff.mp he)).normalize_eq
  show (entries errorFields [] (own ++ extra) {} >>= fun s => _) = _
  rw [hentries]
  show Except.ok (ServerError.mk _ _ _ _ (sortEntries (List.map (fun e => (e.1, e.2.normalize))
    (List.filter _ (own ++ extra))))) = _
  rw [List.filter_append, hown, List.nil_append, hothers, hsame, h.sorted.sortEntries_eq_of_perm hw]
  rfl

theorem singleField_written {α : Type} {title key : String} {take : Value → Decode α}
    {build : α → Message} {v : Value} {a : α} (h : take v = .ok a) :
    (singleField title key take build).ofValue (.object [(key, v)]) = .ok (build a) := by
  have hentries : entries (singleField title key take build).fields [] [(key, v)] none =
      .ok (some a) := by
    simp [entries, singleField, h]
  exact Shape.ofObject hentries rfl

/-- A message as it may be written: what else an error report holds has no order there. -/
inductive Message.Reordered : Message → Message → Prop where
  | refl (m : Message) : Reordered m m
  | extra {err : ServerError} {extra : List (String × Value)} :
    extra.Perm err.extra → Reordered (.error err) (.error { err with extra })

theorem Message.ofContent_fieldValues {d : Nat} {m w : Message} (h : m.Settled d)
    (hw : m.Reordered w) : Message.ofContent (.object w.fieldValues.2) w.fieldValues.1 = .ok m := by
  obtain _ | hextra := hw
  case extra => exact singleField_written (ServerError.ofValue_toValue h hextra)
  cases m with
  | connected => rfl
  | ping => rfl
  | update us => exact singleField_written (updates_written us)
  | prune paths => exact singleField_written (strings_written paths)
  | fullReload path triggeredBy =>
    have hentries : entries reloadShape.fields [] [("path", optionalText path),
        ("triggeredBy", optionalText triggeredBy)] {} = .ok ⟨path, triggeredBy⟩ := by
      simp [entries, reloadShape, optionalString_written]
      rfl
    exact Shape.ofObject hentries rfl
  | custom event data =>
    have hdata : data.normalize = data := h.1.normalize_eq
    have hentries : entries customShape.fields [] [("event", .string event), ("data", data)] {} =
        .ok ⟨some event, data⟩ := by
      simp [entries, customShape, string, hdata]
      rfl
    exact Shape.ofObject hentries rfl
  | error err => exact singleField_written (ServerError.ofValue_toValue h (.refl _))

/-- Whether the numbers that a message keeps are integers. -/
def Message.integral : Message → Bool
  | .custom _ data => data.integral
  | .error err => Value.entriesIntegral err.extra
  | _ => true

theorem Message.Reordered.integral {m w : Message} (hw : m.Reordered w) (h : m.integral = true) :
    w.integral = true := by
  obtain _ | hextra := hw
  case refl => exact h
  exact Value.entriesIntegral_iff.mpr fun e he =>
    Value.entriesIntegral_iff.mp h e (hextra.mem_iff.mp he)

theorem optionalText_fits (d : Nat) (s : Option String) : Fits d (optionalText s) := by
  cases s with
  | none => exact .null
  | some s => exact .string s

theorem UpdateEntry.toValue_fits {u : UpdateEntry} (h : u.timestamp < Read.wordLimit) (d : Nat) :
    Fits (d + 1) u.toValue := by
  refine .object ?_
  simp only [List.forall_mem_cons, List.not_mem_nil, false_imp_iff, implies_true, and_true]
  exact ⟨.string _, .string _, .string _, .natural h⟩

theorem ServerError.toValue_fits {d : Nat} {err : ServerError} (h : ∀ e ∈ err.extra, Fits d e.2) :
    Fits (d + 1) err.toValue := by
  refine .object (List.forall_mem_append.mpr ⟨?_, h⟩)
  simp only [List.forall_mem_cons, List.not_mem_nil, false_imp_iff, implies_true, and_true]
  exact ⟨.string _, .string _, optionalText_fits _ _, optionalText_fits _ _⟩

theorem Message.fieldValues_fit {d : Nat} {m w : Message} (h : m.Settled (d + 1))
    (hw : m.Reordered w) : ∀ e ∈ w.fieldValues.2, Fits (d + 2) e.2 := by
  obtain _ | hextra := hw
  case extra =>
    rintro e (_ | ⟨_, ⟨⟩⟩)
    exact ServerError.toValue_fits fun e he => ServerError.Settled.fits h e (hextra.mem_iff.mp he)
  cases m with
  | connected => exact nofun
  | ping => exact nofun
  | update us =>
    rintro e (_ | ⟨_, ⟨⟩⟩)
    exact .array (List.forall_mem_map.mpr fun u hu => UpdateEntry.toValue_fits (h u hu) d)
  | prune paths =>
    rintro e (_ | ⟨_, ⟨⟩⟩)
    exact .array (List.forall_mem_map.mpr fun p _ => .string p)
  | fullReload path triggeredBy =>
    rintro e (_ | ⟨_, _ | ⟨_, ⟨⟩⟩⟩)
    · exact optionalText_fits _ path
    · exact optionalText_fits _ triggeredBy
  | custom event data =>
    rintro e (_ | ⟨_, _ | ⟨_, ⟨⟩⟩⟩)
    · exact .string event
    · exact h.2
  | error err =>
    rintro e (_ | ⟨_, ⟨⟩⟩)
    exact ServerError.toValue_fits (ServerError.Settled.fits h)

theorem optionalText_integral (s : Option String) : (optionalText s).integral = true := by
  cases s <;> rfl

theorem Message.fieldValues_integral {m : Message} (h : m.integral = true) :
    ∀ e ∈ m.fieldValues.2, e.2.integral = true := by
  cases m with
  | connected => exact nofun
  | ping => exact nofun
  | update us =>
    rintro e (_ | ⟨_, ⟨⟩⟩)
    exact Value.allIntegral_iff.mpr (List.forall_mem_map.mpr fun _ _ => rfl)
  | prune paths =>
    rintro e (_ | ⟨_, ⟨⟩⟩)
    exact Value.allIntegral_iff.mpr (List.forall_mem_map.mpr fun _ _ => rfl)
  | fullReload path triggeredBy =>
    rintro e (_ | ⟨_, _ | ⟨_, ⟨⟩⟩⟩)
    · exact optionalText_integral path
    · exact optionalText_integral triggeredBy
  | custom event data =>
    rintro e (_ | ⟨_, _ | ⟨_, ⟨⟩⟩⟩)
    · rfl
    · exact h
  | error err =>
    rintro e (_ | ⟨_, ⟨⟩⟩)
    refine Value.entriesIntegral_iff.mpr (List.forall_mem_append.mpr ⟨?_, ?_⟩)
    · simp only [List.forall_mem_cons, List.not_mem_nil, false_imp_iff, implies_true, and_true]
      exact ⟨rfl, rfl, optionalText_integral err.id, optionalText_integral err.plugin⟩
    · exact Value.entriesIntegral_iff.mp h

theorem Message.fieldValues_ne_type (m : Message) : ∀ e ∈ m.fieldValues.2, e.1 ≠ "type" := by
  cases m <;> simp [Message.fieldValues]

theorem Message.parse_eq_ok {text : String} {m : Message} : Message.parse text = .ok m ↔
    ∃ found, Read.whole text readTagged = .ok found ∧
      Message.ofContent found.2 found.1 = .ok m := by
  unfold Message.parse
  cases hread : Read.whole text readTagged with
  | error fault =>
    constructor
    · intro h
      cases h
    · rintro ⟨found, h, -⟩
      cases h
  | ok found =>
    simp only [bind, Except.bind, Except.ok.injEq, exists_eq_left']
    cases Message.ofContent found.2 found.1 with
    | error cause => simp [throw, throwThe, MonadExceptOf.throw]
    | ok n => simp [pure, Except.pure]

theorem Message.parse_settled {text : String} {m : Message} (h : Message.parse text = .ok m) :
    m.Settled 125 := by
  obtain ⟨found, hread, hcontent⟩ := Message.parse_eq_ok.mp h
  have hkeeps : Read.Keeps Read.depthLimit readTagged fun found => Fits (124 + 2 + 1) found.2 :=
    readTagged_keeps (by decide)
  have hfits := whole_keeps hkeeps hread
  exact Message.ofContent_gives found.1 hfits m hcontent

/-- The message that a text holds is written as a text that holds the same message, whatever order the
fields have that are not of its kind, and so the host has the same to do. -/
theorem Message.parse_print {text : String} {m w : Message} (h : Message.parse text = .ok m)
    (hi : m.integral = true) (hw : m.Reordered w) :
    ∃ again, Message.parse w.print = .ok again ∧ again = m ∧
      again.hostEvent? = m.hostEvent? ∧ again.events = m.events := by
  have hsettled : m.Settled (124 + 1) := Message.parse_settled h
  have hfields : ∀ e ∈ w.fieldValues.2,
      Read.TakesIn (Read.value Read.depthLimit) e.2.print.toList e.2 (Read.depthLimit - 1) :=
    fun e he => Read.value_taken (Message.fieldValues_fit hsettled hw e he)
      (Message.fieldValues_integral (hw.integral hi) e he) (by decide) (by decide)
  have hread : Read.whole w.print readTagged = .ok (w.fieldValues.1, .object w.fieldValues.2) :=
    whole_taken (readTagged_taken w.fieldValues_ne_type (by decide) hfields)
  have hparse : Message.parse w.print = .ok m :=
    Message.parse_eq_ok.mpr ⟨_, hread, Message.ofContent_fieldValues hsettled hw⟩
  exact ⟨m, hparse, rfl, rfl, rfl⟩

def strayReport : String :=
  "\x7b\"type\":\"error\",\"err\":\x7b\"loc\":\x7b\"line\":3,\"column\":-1\x7d,\"message\":\"no\"," ++
    "\"frame\":[null,true]\x7d\x7d"

def strayReportWritten : String :=
  "\x7b\"type\":\"error\",\"err\":\x7b\"message\":\"no\",\"stack\":\"\",\"id\":null," ++
    "\"plugin\":null,\"loc\":\x7b\"column\":-1,\"line\":3\x7d,\"frame\":[null,true]\x7d\x7d"

theorem Message.parse_print_strayReport :
    ∃ m w, Message.parse strayReport = .ok m ∧ m.integral = true ∧ m.Reordered w ∧
      w.print = strayReportWritten ∧ ∃ again, Message.parse w.print = .ok again ∧ again = m ∧
        again.hostEvent? = m.hostEvent? ∧ again.events = m.events := by
  have hrun : (match Message.parse strayReport with
      | .ok (.error err) => decide ((Message.error err).integral = true ∧
          (Message.error { err with extra := err.extra.reverse }).print = strayReportWritten)
      | _ => false) = true := by decide +kernel
  split at hrun
  · rename_i err hparse
    obtain ⟨hi, hprint⟩ := of_decide_eq_true hrun
    have hw : (Message.error err).Reordered (.error { err with extra := err.extra.reverse }) :=
      .extra (List.reverse_perm _)
    exact ⟨_, _, hparse, hi, hw, hprint, Message.parse_print hparse hi hw⟩
  · cases hrun

end ModuleHost.Hot
