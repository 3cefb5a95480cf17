import ModuleHost.Proofs.Json.Numbers

/-! How arrays and objects are read when there is no space in them. What a list of things is written
as is read back as the list, if each of them is read back wherever something follows. -/

namespace ModuleHost.Json.Read

open ModuleHost.Text

variable {α : Type} {action : Read α} {a : α} {c : Char} {rest text : List Char}
  {offset depth fuel : Nat} {s : Input}

/-- An action takes a text off at a depth where something ends the text. -/
def TakesIn (action : Read α) (text : List Char) (a : α) (depth : Nat) : Prop :=
  ∀ rest offset, Ended rest → action ⟨text ++ rest, offset, depth⟩ =
    .ok a ⟨rest, offset + byteLength text, depth⟩

theorem next_head (hc : isSpace c = false) :
    next ⟨c :: rest, offset, depth⟩ = .ok (some c) ⟨c :: rest, offset, depth⟩ := by
  have htaken : takeWhile isSpace ⟨[] ++ c :: rest, offset, depth⟩ =
      .ok [] ⟨c :: rest, offset + byteLength [], depth⟩ :=
    takeWhile_ok (by simp) (by simpa using hc)
  have hdiscard : (discard (takeWhile isSpace)) ⟨c :: rest, offset, depth⟩ =
      .ok () ⟨c :: rest, offset, depth⟩ := by
    have hbind := bind_ok (f := fun _ => pure ()) htaken
    exact hbind
  rw [next, bind_ok hdiscard]
  rfl

theorem moreElements_first (hc : isSpace c = false) (hne : c ≠ ']') :
    moreElements true ⟨c :: rest, offset, depth⟩ = .ok true ⟨c :: rest, offset, depth⟩ := by
  have hsome : some c ≠ none := nofun
  have hhead : some c ≠ some ']' := by simpa using hne
  rw [moreElements, bind_ok (next_head hc)]
  generalize some c = head at hsome hhead
  split
  · exact absurd rfl hsome
  · exact absurd rfl hhead
  · rfl
  · rfl

theorem moreElements_next (hc : isSpace c = false) (hne : c ≠ ']') :
    moreElements false ⟨',' :: c :: rest, offset, depth⟩ =
      .ok true ⟨c :: rest, offset + 1, depth⟩ := by
  have hsome : some c ≠ none := nofun
  have hhead : some c ≠ some ']' := by simpa using hne
  rw [moreElements, bind_ok (next_head (by decide))]
  show (advance >>= fun _ => next >>= fun head => _) _ = _
  rw [bind_ok advance_cons, bind_ok (next_head hc)]
  generalize some c = head at hsome hhead
  split
  · exact absurd rfl hhead
  · rfl
  · exact absurd rfl hsome

theorem moreElements_end (first : Bool) :
    moreElements first ⟨']' :: rest, offset, depth⟩ = .ok false ⟨']' :: rest, offset, depth⟩ := by
  rw [moreElements, bind_ok (next_head (by decide))]
  rfl

theorem moreEntries_first (key : List Char) :
    moreEntries true ⟨quoteChars key ++ rest, offset, depth⟩ =
      .ok true ⟨quoteChars key ++ rest, offset, depth⟩ := by
  rw [quoteChars, List.cons_append, moreEntries, bind_ok (next_head (by decide))]
  rfl

theorem moreEntries_next (key : List Char) :
    moreEntries false ⟨',' :: (quoteChars key ++ rest), offset, depth⟩ =
      .ok true ⟨quoteChars key ++ rest, offset + 1, depth⟩ := by
  rw [quoteChars, List.cons_append, moreEntries, bind_ok (next_head (by decide))]
  show (advance >>= fun _ => next >>= fun head => _) _ = _
  rw [bind_ok advance_cons, bind_ok (next_head (by decide))]
  rfl

theorem moreEntries_end (first : Bool) :
    moreEntries first ⟨'}' :: rest, offset, depth⟩ = .ok false ⟨'}' :: rest, offset, depth⟩ := by
  rw [moreEntries, bind_ok (next_head (by decide))]
  rfl

theorem colon_taken : colon ⟨':' :: rest, offset, depth⟩ = .ok () ⟨rest, offset + 1, depth⟩ := by
  rw [colon, bind_ok (next_head (by decide))]
  rfl

theorem endArray_taken :
    endArray ⟨']' :: rest, offset, depth⟩ = .ok () ⟨rest, offset + 1, depth⟩ := by
  rw [endArray, bind_ok (next_head (by decide))]
  rfl

theorem endObject_taken :
    endObject ⟨'}' :: rest, offset, depth⟩ = .ok () ⟨rest, offset + 1, depth⟩ := by
  rw [endObject, bind_ok (next_head (by decide))]
  rfl

theorem construct_taken {close : Read Unit} {after : List Char} {behind : Nat}
    (hdepth : 1 < depth)
    (h : action ⟨rest, offset + c.utf8Size, depth - 1⟩ = .ok a ⟨after, behind, depth - 1⟩)
    (hclose : close ⟨after, behind, depth⟩ = .ok () s) :
    closedBy close (nested action) ⟨c :: rest, offset, depth⟩ = .ok a s := by
  have hnested : nested action ⟨c :: rest, offset, depth⟩ = .ok a ⟨after, behind, depth⟩ := by
    have hback : depth - 1 + 1 = depth := by omega
    rw [nested, bind_ok get_ok, if_neg (by simpa using hdepth)]
    show (advance >>= fun _ => _) _ = _
    rw [bind_ok advance_cons]
    have hdown : ∀ t : Input, (modify fun t => { t with depth := t.depth - 1 } : Read Unit) t =
        .ok () ⟨t.rest, t.offset, t.depth - 1⟩ := fun _ => rfl
    have hup : ∀ t : Input, (modify fun t => { t with depth := t.depth + 1 } : Read Unit) t =
        .ok () ⟨t.rest, t.offset, t.depth + 1⟩ := fun _ => rfl
    rw [bind_ok (hdown _), bind_ok h, bind_ok (hup _), hback]
    rfl
  unfold closedBy placed
  simp only [hnested]
  have hseq : (close *> pure a) ⟨after, behind, depth⟩ = .ok a s := by
    simp only [SeqRight.seqRight, hclose, EStateM.seqRight]
    rfl
  rw [hseq]

def commaed (write : α → List Char) (as : List α) : List Char :=
  as.flatMap fun a => ',' :: write a

def listed (write : α → List Char) : List α → List Char
  | [] => []
  | a :: as => write a ++ commaed write as

theorem length_le_commaed (write : α → List Char) (as : List α) :
    as.length ≤ (commaed write as).length := by
  induction as with
  | nil => exact Nat.le_refl 0
  | cons a as ih =>
    simp only [commaed, List.flatMap_cons, List.length_append, List.length_cons] at ih ⊢
    omega

theorem length_le_listed {write : α → List Char} {as : List α} (hwrite : ∀ a ∈ as, write a ≠ []) :
    as.length ≤ (listed write as).length := by
  cases as with
  | nil => exact Nat.le_refl 0
  | cons a as =>
    have hone := List.length_pos_iff.mpr (hwrite a List.mem_cons_self)
    have hrest := length_le_commaed write as
    simp only [listed, List.length_append, List.length_cons]
    omega

theorem commaed_ended (write : α → List Char) (as : List α) (h : Ended rest) :
    Ended (commaed write as ++ rest) := by
  cases as with
  | nil => exact h
  | cons a as => exact .comma

/-- A text that an element can be written as: it does not begin with space, nor as the end of an
array. -/
def Begins (text : List Char) : Prop := ∃ c t, text = c :: t ∧ isSpace c = false ∧ c ≠ ']'

theorem Begins.ne_nil (h : Begins text) : text ≠ [] := by
  obtain ⟨c, t, rfl, -, -⟩ := h
  exact List.cons_ne_nil c t

section

variable {element : Read α} {write : α → List Char} {as : List α}

theorem elementsOn_taken (h : ∀ a ∈ as, TakesIn element (write a) a depth)
    (hbegins : ∀ a ∈ as, Begins (write a)) (hfuel : as.length < fuel) :
    elementsWith element fuel false ⟨commaed write as ++ ']' :: rest, offset, depth⟩ =
      .ok as ⟨']' :: rest, offset + byteLength (commaed write as), depth⟩ := by
  induction as generalizing fuel offset with
  | nil =>
    obtain ⟨fuel, rfl⟩ := Nat.exists_eq_add_of_lt hfuel
    rw [elementsWith, commaed, List.flatMap_nil, List.nil_append, bind_ok (moreElements_end false)]
    rfl
  | cons a as ih =>
    obtain ⟨fuel, rfl⟩ : ∃ n, fuel = n + 1 := ⟨fuel - 1, by omega⟩
    obtain ⟨ha, has⟩ := List.forall_mem_cons.mp h
    obtain ⟨⟨c, t, hwrite, hspace, hne⟩, hbegins'⟩ := List.forall_mem_cons.mp hbegins
    have htext : commaed write (a :: as) ++ ']' :: rest =
        ',' :: (write a ++ (commaed write as ++ ']' :: rest)) := by simp [commaed]
    have hmore : moreElements false ⟨',' :: (write a ++ (commaed write as ++ ']' :: rest)), offset,
        depth⟩ = .ok true ⟨write a ++ (commaed write as ++ ']' :: rest), offset + 1, depth⟩ := by
      rw [hwrite]
      exact moreElements_next hspace hne
    rw [htext, elementsWith, bind_ok hmore]
    show (element >>= fun a => elementsWith element fuel false >>= fun as => pure (a :: as)) _ = _
    rw [bind_ok (ha _ _ (commaed_ended write as .bracket)),
      bind_ok (ih has hbegins' (Nat.lt_of_succ_lt_succ hfuel))]
    have hcomma : (',' : Char).utf8Size = 1 := rfl
    simp only [commaed, List.flatMap_cons, byteLength_append, byteLength_cons, hcomma,
      Nat.add_assoc]
    rfl

theorem elements_taken (h : ∀ a ∈ as, TakesIn element (write a) a depth)
    (hbegins : ∀ a ∈ as, Begins (write a)) (hfuel : as.length < fuel) :
    elementsWith element fuel true ⟨listed write as ++ ']' :: rest, offset, depth⟩ =
      .ok as ⟨']' :: rest, offset + byteLength (listed write as), depth⟩ := by
  obtain ⟨fuel, rfl⟩ : ∃ n, fuel = n + 1 := ⟨fuel - 1, by omega⟩
  cases as with
  | nil =>
    rw [elementsWith, listed, List.nil_append, bind_ok (moreElements_end true)]
    rfl
  | cons a as =>
    obtain ⟨ha, has⟩ := List.forall_mem_cons.mp h
    obtain ⟨⟨c, t, hwrite, hspace, hne⟩, hbegins'⟩ := List.forall_mem_cons.mp hbegins
    have hmore : moreElements true ⟨write a ++ (commaed write as ++ ']' :: rest), offset, depth⟩ =
        .ok true ⟨write a ++ (commaed write as ++ ']' :: rest), offset, depth⟩ := by
      rw [hwrite]
      exact moreElements_first hspace hne
    rw [listed, List.append_assoc, elementsWith, bind_ok hmore]
    show (element >>= fun a => elementsWith element fuel false >>= fun as => pure (a :: as)) _ = _
    rw [bind_ok (ha _ _ (commaed_ended write as .bracket)),
      bind_ok (elementsOn_taken has hbegins' (Nat.lt_of_succ_lt_succ hfuel)), byteLength_append,
      Nat.add_assoc]
    rfl

def keyed (key : α → String) (write : α → List Char) (a : α) : List Char :=
  quoteChars (key a).toList ++ write a

theorem keyed_ne_nil (key : α → String) (write : α → List Char) (a : α) :
    keyed key write a ≠ [] := by
  simp [keyed, quoteChars]

theorem entriesOn_taken {entry : String → Read α} {key : α → String}
    (h : ∀ a ∈ as, TakesIn (entry (key a)) (write a) a depth) (hfuel : as.length < fuel) :
    entriesWith entry fuel false ⟨commaed (keyed key write) as ++ '}' :: rest, offset, depth⟩ =
      .ok as ⟨'}' :: rest, offset + byteLength (commaed (keyed key write) as), depth⟩ := by
  induction as generalizing fuel offset with
  | nil =>
    obtain ⟨fuel, rfl⟩ := Nat.exists_eq_add_of_lt hfuel
    rw [entriesWith, commaed, List.flatMap_nil, List.nil_append, bind_ok (moreEntries_end false)]
    rfl
  | cons a as ih =>
    obtain ⟨fuel, rfl⟩ : ∃ n, fuel = n + 1 := ⟨fuel - 1, by omega⟩
    obtain ⟨ha, has⟩ := List.forall_mem_cons.mp h
    have htext : commaed (keyed key write) (a :: as) ++ '}' :: rest = ',' ::
        (quoteChars (key a).toList ++
          (write a ++ (commaed (keyed key write) as ++ '}' :: rest))) := by simp [commaed, keyed]
    rw [htext, entriesWith, bind_ok (moreEntries_next _)]
    show (string >>= fun k => entry k >>= fun a => entriesWith entry fuel false >>= fun as =>
      pure (a :: as)) _ = _
    rw [bind_ok (string_taken (key a) _ _ _),
      bind_ok (ha _ _ (commaed_ended (keyed key write) as .brace)),
      bind_ok (ih has (Nat.lt_of_succ_lt_succ hfuel))]
    have hcomma : (',' : Char).utf8Size = 1 := rfl
    simp only [commaed, keyed, List.flatMap_cons, byteLength_append, byteLength_cons, hcomma,
      Nat.add_assoc]
    rfl

theorem entries_taken {entry : String → Read α} {key : α → String}
    (h : ∀ a ∈ as, TakesIn (entry (key a)) (write a) a depth) (hfuel : as.length < fuel) :
    entriesWith entry fuel true ⟨listed (keyed key write) as ++ '}' :: rest, offset, depth⟩ =
      .ok as ⟨'}' :: rest, offset + byteLength (listed (keyed key write) as), depth⟩ := by
  obtain ⟨fuel, rfl⟩ : ∃ n, fuel = n + 1 := ⟨fuel - 1, by omega⟩
  cases as with
  | nil =>
    rw [entriesWith, listed, List.nil_append, bind_ok (moreEntries_end true)]
    rfl
  | cons a as =>
    obtain ⟨ha, has⟩ := List.forall_mem_cons.mp h
    rw [listed, keyed, List.append_assoc, List.append_assoc, entriesWith,
      bind_ok (moreEntries_first _)]
    show (string >>= fun k => entry k >>= fun a => entriesWith entry fuel false >>= fun as =>
      pure (a :: as)) _ = _
    rw [bind_ok (string_taken (key a) _ _ _),
      bind_ok (ha _ _ (commaed_ended (keyed key write) as .brace)),
      bind_ok (entriesOn_taken has (Nat.lt_of_succ_lt_succ hfuel))]
    simp only [byteLength_append, Nat.add_assoc]
    rfl

end

end ModuleHost.Json.Read
