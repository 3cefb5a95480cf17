import ModuleHost.Hot.MessageText
import ModuleHost.Proofs.Json.Reading

/-! The first step of reading a message. The kind is set apart from the content, which fits the depth
that is left, and the written form of a message comes apart into the two again. -/

namespace ModuleHost.Hot

open ModuleHost.Json ModuleHost.Json.Read ModuleHost.Text

variable {d depth fuel offset : Nat} {rest : List Char} {kind : MessageKind}
  {fields : List (String × Value)}

theorem mismatch_fails {α : Type} (expected : String) :
    Keeps d (Read.mismatch expected : Read α) fun _ => False := by
  refine .placed (.andThen next_level fun head => ?_)
  split
  · exact .throw _
  · exact .throw _
  · refine (scalar?_keeps _).bind fun found _ => ?_
    cases found with
    | some v => exact .throw _
    | none => exact .failAhead _
  · exact .fail _

theorem expectString_level (expected : String) : Level (expectString expected) := fun d =>
  .andThen next_level fun _ => .ite (string_level d) ((mismatch_fails expected).mono nofun)

namespace MessageKind

theorem read_level : Level read := by
  refine fun d => .placed (.andThen (expectString_level _) fun name => ?_)
  split
  · exact .pure trivial
  · exact .throw _

theorem ofName?_name (kind : MessageKind) : ofName? kind.name = some kind := by
  cases kind <;> decide +kernel

theorem read_taken (kind : MessageKind) : Takes read (quoteChars kind.name.toList) kind := by
  intro rest offset depth
  have hstring := string_taken kind.name rest offset depth
  have hnext : next ⟨quoteChars kind.name.toList ++ rest, offset, depth⟩ =
      .ok (some doubleQuote) ⟨quoteChars kind.name.toList ++ rest, offset, depth⟩ := by
    rw [quoteChars, List.cons_append]
    exact next_head (by decide)
  have hexpect : expectString "variant identifier"
      ⟨quoteChars kind.name.toList ++ rest, offset, depth⟩ =
        .ok kind.name ⟨rest, offset + byteLength (quoteChars kind.name.toList), depth⟩ := by
    rw [expectString, bind_ok hnext]
    exact hstring
  rw [read, placed]
  simp only [bind_ok hexpect, ofName?_name]
  rfl

end MessageKind

theorem readEntries_keeps (fuel : Nat) (first : Bool) (kind : Option MessageKind) :
    Keeps d (readEntries fuel first kind) fun found => ∀ e ∈ found.2, Fits (d - 1) e.2 := by
  induction fuel generalizing first kind with
  | zero => exact .pure (by simp)
  | succ fuel ih =>
    refine .andThen (moreEntries_level first) fun more => .ite (.pure (by simp)) ?_
    refine .andThen string_level fun key => .ite (.ite (.refused (.throw _)) ?_) ?_
    · exact .andThen colon_level fun _ => .andThen MessageKind.read_level fun kind => ih false _
    · refine .andThen colon_level fun _ => (value_keeps _).bind fun v hv => ?_
      refine (ih false kind).bind fun found hfound => ?_
      exact .pure (List.forall_mem_cons.mpr ⟨hv, hfound⟩)

theorem readTagged_keeps (hd : 1 < d) : Keeps d readTagged fun found => Fits (d - 1) found.2 := by
  have hdeep : d - 1 = d - 1 - 1 + 1 := by omega
  refine .andThen next_level fun head => ?_
  split
  · refine .closedBy endArray_level (.mono (.nested (P := fun found => Fits (d - 1) found.2) ?_)
      fun _ h => h.2)
    refine (.andThen (moreElements_level true) fun more => .ite (.refused (.throw _)) ?_)
    refine .andThen MessageKind.read_level fun kind => .andThen bound_level fun n => ?_
    refine ((value_keeps _).elementsWith n false).bind fun elements helements => .pure ?_
    rw [hdeep]
    exact .array helements
  · refine .closedBy endObject_level (.mono (.nested (P := fun found => Fits (d - 1) found.2) ?_)
      fun _ h => h.2)
    refine (.andThen bound_level fun n => (readEntries_keeps n true none).bind ?_)
    rintro ⟨kind, entries⟩ hentries
    cases kind with
    | none => exact .throw _
    | some kind =>
      refine .pure ?_
      rw [hdeep]
      exact .object hentries
  · exact (mismatch_fails _).mono nofun
  · exact .fail _

theorem whole_keeps {α : Type} {action : Read α} {P : α → Prop} {text : String} {a : α}
    (h : Keeps depthLimit action P) (hok : whole text action = .ok a) : P a := by
  have hend : Level endOfText := fun _ =>
    .andThen next_level fun _ => .ite (.failAhead _) (.pure trivial)
  have hkeeps : Keeps depthLimit (action <* endOfText) P := by
    rw [seqLeft_eq_bind]
    exact h.bind fun a ha => .andThen hend fun _ => .pure ha
  unfold whole at hok
  split at hok
  · rename_i b s hb
    cases hok
    exact (hkeeps _ _ _ rfl hb).2
  · cases hok

theorem readEntries_taken (hkeys : ∀ e ∈ fields, e.1 ≠ "type")
    (h : ∀ e ∈ fields, TakesIn (value depthLimit) e.2.print.toList e.2 depth)
    (hfuel : fields.length < fuel) :
    readEntries fuel false (some kind)
      ⟨commaed (keyed Prod.fst Value.behindKey) fields ++ '}' :: rest, offset, depth⟩ =
        .ok (some kind, fields) ⟨'}' :: rest,
          offset + byteLength (commaed (keyed Prod.fst Value.behindKey) fields), depth⟩ := by
  induction fields generalizing fuel offset with
  | nil =>
    obtain ⟨fuel, rfl⟩ := Nat.exists_eq_add_of_lt hfuel
    rw [readEntries, commaed, List.flatMap_nil, List.nil_append, bind_ok (moreEntries_end false)]
    rfl
  | cons e fields ih =>
    obtain ⟨fuel, rfl⟩ : ∃ n, fuel = n + 1 := ⟨fuel - 1, by omega⟩
    obtain ⟨he, hfields⟩ := List.forall_mem_cons.mp h
    obtain ⟨hkey, hkeys⟩ := List.forall_mem_cons.mp hkeys
    have hended := commaed_ended (keyed Prod.fst Value.behindKey) fields (@Ended.brace rest)
    have htext : commaed (keyed Prod.fst Value.behindKey) (e :: fields) ++ '}' :: rest = ',' ::
        (quoteChars e.1.toList ++ (':' :: (e.2.print.toList ++
          (commaed (keyed Prod.fst Value.behindKey) fields ++ '}' :: rest)))) := by
      simp [commaed, keyed, Value.behindKey]
    rw [htext, readEntries, bind_ok (moreEntries_next _)]
    show (string >>= fun key => if key = "type" then _ else _) _ = _
    rw [bind_ok (string_taken e.1 _ _ _), if_neg hkey, bind_ok colon_taken,
      bind_ok (he _ _ hended), bind_ok (ih hkeys hfields (Nat.lt_of_succ_lt_succ hfuel))]
    have hcomma : (',' : Char).utf8Size = 1 := rfl
    have hcolon : (':' : Char).utf8Size = 1 := rfl
    simp only [commaed, keyed, Value.behindKey, List.flatMap_cons, byteLength_append,
      byteLength_cons, hcomma, hcolon, Nat.add_assoc]
    rfl

theorem readTagged_taken (hkeys : ∀ e ∈ fields, e.1 ≠ "type") (hdepth : 1 < depth)
    (h : ∀ e ∈ fields, TakesIn (value depthLimit) e.2.print.toList e.2 (depth - 1)) :
    TakesIn readTagged (Value.object (("type", .string kind.name) :: fields)).print.toList
      (kind, .object fields) depth := by
  intro rest offset _
  let written := commaed (keyed Prod.fst Value.behindKey) fields
  let entries := listed (keyed Prod.fst Value.behindKey) (("type", .string kind.name) :: fields)
  have hentries : entries = quoteChars "type".toList ++
      ':' :: (quoteChars kind.name.toList ++ written) := by
    simp [entries, written, listed, keyed, Value.behindKey, Value.print, quote_toList]
  have hlength := length_le_commaed (keyed Prod.fst Value.behindKey) fields
  have hcolon : (':' : Char).utf8Size = 1 := rfl
  have hinside : readEntries ((entries ++ '}' :: rest).length + 1) true none
      ⟨entries ++ '}' :: rest, offset + 1, depth - 1⟩ =
        .ok (some kind, fields) ⟨'}' :: rest, offset + 1 + byteLength entries, depth - 1⟩ := by
    rw [hentries, List.append_assoc, List.cons_append, List.append_assoc, readEntries,
      bind_ok (moreEntries_first _)]
    show (string >>= fun key => if key = "type" then _ else _) _ = _
    rw [bind_ok (string_taken "type" _ _ _), if_pos rfl]
    show (colon >>= fun _ => MessageKind.read >>= fun kind => _) _ = _
    rw [bind_ok colon_taken, bind_ok (MessageKind.read_taken kind _ _ _)]
    have hfuel : fields.length < (quoteChars "type".toList ++
        ':' :: (quoteChars kind.name.toList ++ (written ++ '}' :: rest))).length := by
      simp only [List.length_append, List.length_cons, written]
      omega
    rw [readEntries_taken hkeys h hfuel]
    simp only [byteLength_append, byteLength_cons, hcolon, written, Nat.add_assoc]
  have hread : readTagged ⟨'{' :: (entries ++ '}' :: rest), offset, depth⟩ =
      .ok (kind, .object fields) ⟨rest, offset + 1 + byteLength entries + 1, depth⟩ := by
    rw [readTagged, bind_ok (next_head (by decide))]
    show closedBy endObject (nested _) _ = _
    refine construct_taken hdepth ?_ endObject_taken
    rw [bind_ok (bound_ok _)]
    exact bind_ok hinside
  have htext : '{' :: (entries ++ ['}']) ++ rest = '{' :: (entries ++ '}' :: rest) := by simp
  have hlast : byteLength ('{' :: (entries ++ ['}'])) = 1 + byteLength entries + 1 := by
    simp only [byteLength_cons, byteLength_append, byteLength_nil, Nat.add_assoc]
    rfl
  rw [Value.print_object, htext, hlast, hread, ← Nat.add_assoc, ← Nat.add_assoc]

end ModuleHost.Hot
