import ModuleHost.Proofs.Json.Constructs

/-! A value without fractions is read back from what it is printed as, if it does not nest too deep
and 64 bits hold its numbers. -/

namespace ModuleHost.Json

open ModuleHost.Text Read

/-- A value that may be read where constructs may nest so deep: integers are as large as 64 bits
hold, with a sign or without. -/
inductive Fits : Nat → Value → Prop where
  | null {d : Nat} : Fits d .null
  | bool {d : Nat} (b : Bool) : Fits d (.bool b)
  | int {d : Nat} {n : Int} (hlow : -Int.pow 2 63 ≤ n) (hhigh : n < Int.pow 2 64) :
      Fits d (.number (.int n))
  | real {d : Nat} (x : Decimal.Binary64) : Fits d (.number (.real x))
  | string {d : Nat} (s : String) : Fits d (.string s)
  | array {d : Nat} {elements : List Value} (h : ∀ v ∈ elements, Fits d v) :
      Fits (d + 1) (.array elements)
  | object {d : Nat} {entries : List (String × Value)} (h : ∀ e ∈ entries, Fits d e.2) :
      Fits (d + 1) (.object entries)

theorem Fits.natural {d n : Nat} (h : n < wordLimit) : Fits d (.number (.int n)) := by
  refine .int (Int.le_trans ?_ (Int.natCast_nonneg n)) (Int.ofNat_lt.mpr h)
  decide

theorem Fits.negated {d n : Nat} (h : n ≤ Nat.pow 2 63) : Fits d (.number (.int (-n))) := by
  refine .int (Int.neg_le_neg (Int.ofNat_le.mpr h)) (Int.lt_of_le_of_lt (b := 0) ?_ ?_)
  · exact Int.neg_nonpos_of_nonneg (Int.natCast_nonneg n)
  · decide

namespace Value

mutual

/-- Whether all numbers of a value are integers, the zero with a sign among them. -/
def integral : Value → Bool
  | number (.real x) => x = Decimal.Binary64.zero.neg
  | array elements => allIntegral elements
  | object entries => entriesIntegral entries
  | _ => true

def allIntegral : List Value → Bool
  | [] => true
  | v :: rest => v.integral && allIntegral rest

def entriesIntegral : List (String × Value) → Bool
  | [] => true
  | (_, v) :: rest => v.integral && entriesIntegral rest

end

theorem allIntegral_iff {elements : List Value} :
    allIntegral elements = true ↔ ∀ v ∈ elements, v.integral = true := by
  induction elements with
  | nil => simp [allIntegral]
  | cons v rest ih => simp [allIntegral, ih]

theorem entriesIntegral_iff {entries : List (String × Value)} :
    entriesIntegral entries = true ↔ ∀ e ∈ entries, e.2.integral = true := by
  induction entries with
  | nil => simp [entriesIntegral]
  | cons e rest ih =>
    obtain ⟨k, v⟩ := e
    simp [entriesIntegral, ih]

def behindKey (e : String × Value) : List Char := ':' :: e.2.print.toList

theorem printAll_toList (elements : List Value) :
    (printAll elements).toList = listed (fun v => v.print.toList) elements := by
  induction elements with
  | nil => rfl
  | cons v rest ih =>
    cases rest with
    | nil => simp [printAll, listed, commaed]
    | cons w rest => simp [printAll, ih, listed, commaed]

theorem printEntries_toList (entries : List (String × Value)) :
    (printEntries entries).toList = listed (keyed Prod.fst behindKey) entries := by
  induction entries with
  | nil => rfl
  | cons e rest ih =>
    obtain ⟨k, v⟩ := e
    cases rest with
    | nil => simp [printEntries, listed, commaed, keyed, behindKey, quote]
    | cons w rest => simp [printEntries, ih, listed, commaed, keyed, behindKey, quote]

theorem print_array (elements : List Value) : (array elements).print.toList =
    '[' :: (listed (fun v => v.print.toList) elements ++ [']']) := by
  simp [print, printAll_toList]

theorem print_object (entries : List (String × Value)) : (object entries).print.toList =
    '{' :: (listed (keyed Prod.fst behindKey) entries ++ ['}']) := by
  simp [print, printEntries_toList]

end Value

theorem quote_toList (s : String) : (quote s).toList = quoteChars s.toList := by
  simp [quote]

theorem print_nat (n : Nat) : (Number.print (.int (Int.ofNat n))).toList = Nat.toDigits 10 n := by
  have h : toString (Int.ofNat n) = toString n := rfl
  rw [Number.print, h, Nat.toString_eq_ofList_toDigits, String.toList_ofList]

theorem print_negative (n : Nat) :
    (Number.print (.int (Int.negSucc n))).toList = '-' :: Nat.toDigits 10 (n + 1) := by
  have h : toString (Int.negSucc n) = "-" ++ toString (n + 1) := rfl
  rw [Number.print, h]
  simp

theorem negative_zero_of_integral {x : Decimal.Binary64}
    (h : (Value.number (.real x)).integral = true) : x = Decimal.Binary64.zero.neg := by
  simpa [Value.integral] using h

theorem print_negative_zero :
    (Number.print (.real Decimal.Binary64.zero.neg)).toList = ['-', '0', '.', '0'] := by
  decide +kernel

theorem digit_begins {c : Char} (hc : c.isDigit = true) : isSpace c = false ∧ c ≠ ']' := by
  constructor
  · by_contra hspace
    simp only [isSpace, Bool.not_eq_false, Bool.or_eq_true, decide_eq_true_eq] at hspace
    rcases hspace with ((rfl | rfl) | rfl) | rfl <;> cases hc
  · rintro rfl
    cases hc

theorem print_begins {v : Value} (hi : v.integral = true) : Begins v.print.toList := by
  cases v with
  | null => exact ⟨'n', _, rfl, by decide, by decide⟩
  | bool b => cases b <;> exact ⟨_, _, rfl, by decide, by decide⟩
  | string s =>
    refine ⟨doubleQuote, s.toList.flatMap escape ++ [doubleQuote], ?_, by decide, by decide⟩
    rw [Value.print, quote_toList, quoteChars]
  | array elements => exact ⟨'[', _, Value.print_array elements, by decide, by decide⟩
  | object entries => exact ⟨'{', _, Value.print_object entries, by decide, by decide⟩
  | number n =>
    cases n with
    | real x =>
      obtain rfl := negative_zero_of_integral hi
      exact ⟨'-', _, print_negative_zero, by decide, by decide⟩
    | int n =>
      cases n with
      | ofNat n =>
        obtain ⟨c, digits, hdigits⟩ := List.exists_cons_of_ne_nil (@Nat.toDigits_ne_nil n 10)
        have hfirst : c ∈ Nat.toDigits 10 n := hdigits ▸ List.mem_cons_self
        obtain ⟨hspace, hne⟩ := digit_begins (digits_isDigit c hfirst)
        exact ⟨c, digits, (print_nat n).trans hdigits, hspace, hne⟩
      | negSucc n => exact ⟨'-', _, print_negative n, by decide, by decide⟩

namespace Read

variable {c : Char} {rest : List Char} {offset depth d fuel : Nat} {v : Value}

theorem value_scalar {s : Input} (hc : isSpace c = false)
    (h : scalar? c ⟨c :: rest, offset, depth⟩ = .ok (some v) s) :
    value (fuel + 1) ⟨c :: rest, offset, depth⟩ = .ok v s := by
  rw [value, bind_ok (next_head hc)]
  show (scalar? c >>= fun found => _) _ = _
  rw [bind_ok h]
  rfl

theorem scalar?_digit (hc : c.isDigit = true) :
    scalar? c = do return some (.number (← number false)) := by
  unfold scalar?
  split
  all_goals first | cases hc | simp only [hc, if_true]

theorem word_taken (expected : List Char) : Takes (word expected) expected () := by
  intro rest offset depth
  induction expected generalizing offset with
  | nil => rfl
  | cons c expected ih =>
    rw [List.cons_append, word, bind_ok peek_head]
    simp only [List.head?_cons, if_true]
    rw [bind_ok advance_cons, ih, byteLength_cons, Nat.add_assoc]

theorem literal_taken {more : List Char} (hc : isSpace c = false)
    (h : scalar? c = advance >>= fun _ => word more >>= fun _ => pure (some v)) :
    TakesIn (value (fuel + 1)) (c :: more) v depth := by
  intro rest offset _
  refine value_scalar hc ?_
  rw [h, List.append_eq, bind_ok advance_cons, bind_ok (word_taken more rest _ _), byteLength_cons,
    Nat.add_assoc]
  rfl

theorem string_value_taken (s : String) :
    TakesIn (value (fuel + 1)) (Value.string s).print.toList (.string s) depth := by
  intro rest offset _
  have hquote := string_taken s rest offset depth
  rw [Value.print, quote_toList]
  rw [quoteChars, List.cons_append] at hquote ⊢
  refine value_scalar (by decide) ?_
  show (string >>= fun s => pure (some (Value.string s))) _ = _
  rw [bind_ok hquote]
  rfl

theorem int_value_taken {n : Int} (hlow : -Int.pow 2 63 ≤ n) (hhigh : n < Int.pow 2 64) :
    TakesIn (value (fuel + 1)) (Value.number (.int n)).print.toList (.number (.int n)) depth := by
  intro rest offset hrest
  rw [Value.print]
  cases n with
  | ofNat n =>
    have hlimit : n < 2 ^ 64 := Int.ofNat_lt.mp hhigh
    obtain ⟨c, digits, hdigits⟩ := List.exists_cons_of_ne_nil (@Nat.toDigits_ne_nil n 10)
    have hfirst : c.isDigit = true := digits_isDigit c (hdigits ▸ List.mem_cons_self)
    have hnumber := @number_taken n rest offset depth hlimit hrest
    rw [print_nat]
    rw [hdigits, List.cons_append] at hnumber ⊢
    refine value_scalar (digit_begins hfirst).1 ?_
    rw [scalar?_digit hfirst, bind_ok hnumber]
    rfl
  | negSucc n =>
    have hlimit : n + 1 ≤ Nat.pow 2 63 := by
      have hbound : -9223372036854775808 ≤ Int.negSucc n := hlow
      have hvalue : Nat.pow 2 63 = 9223372036854775808 := rfl
      omega
    have hnumber := @number_negative_taken (n + 1) rest (offset + 1) depth (Nat.succ_pos n) hlimit
      hrest
    rw [print_negative, List.cons_append]
    refine value_scalar (by decide) ?_
    show (advance >>= fun _ => number true >>= fun x => pure (some (Value.number x))) _ = _
    rw [bind_ok advance_cons]
    have hsign : (Char.utf8Size '-') = 1 := rfl
    rw [hsign, bind_ok hnumber, byteLength_cons, hsign, Nat.add_assoc]
    rfl

theorem negative_zero_value_taken :
    TakesIn (value (fuel + 1)) (Value.number (.real Decimal.Binary64.zero.neg)).print.toList
      (.number (.real Decimal.Binary64.zero.neg)) depth := by
  intro rest offset hrest
  have hnumber := @number_negative_zero rest (offset + 1) depth hrest
  rw [Value.print, print_negative_zero]
  refine value_scalar (by decide) ?_
  show (advance >>= fun _ => number true >>= fun x => pure (some (Value.number x))) _ = _
  rw [bind_ok advance_cons]
  exact bind_ok hnumber

theorem bound_ok (s : Input) : bound s = .ok (s.rest.length + 1) s := rfl

theorem array_taken {elements : List Value} (hdepth : 1 < depth)
    (hi : ∀ v ∈ elements, v.integral = true)
    (h : ∀ v ∈ elements, TakesIn (value fuel) v.print.toList v (depth - 1)) :
    TakesIn (value (fuel + 1)) (Value.array elements).print.toList (.array elements) depth := by
  intro rest offset _
  let written := listed (fun v => v.print.toList) elements
  have hbegins : ∀ v ∈ elements, Begins v.print.toList := fun v hv => print_begins (hi v hv)
  have hlength := length_le_listed fun v hv => (hbegins v hv).ne_nil
  have hinside : (bound >>= fun n => elementsWith (value fuel) n true)
      ⟨written ++ ']' :: rest, offset + 1, depth - 1⟩ =
        .ok elements ⟨']' :: rest, offset + 1 + byteLength written, depth - 1⟩ := by
    rw [bind_ok (bound_ok _)]
    refine elements_taken h hbegins ?_
    simp only [List.length_append, written]
    omega
  have hclosed : closedBy endArray (nested (bound >>= fun n => elementsWith (value fuel) n true))
      ⟨'[' :: (written ++ ']' :: rest), offset, depth⟩ =
        .ok elements ⟨rest, offset + 1 + byteLength written + 1, depth⟩ :=
    construct_taken hdepth hinside endArray_taken
  have htext : '[' :: (written ++ [']']) ++ rest = '[' :: (written ++ ']' :: rest) := by simp
  have hlast : byteLength ('[' :: (written ++ [']'])) = 1 + byteLength written + 1 := by
    simp only [byteLength_cons, byteLength_append, byteLength_nil, Nat.add_assoc]
    rfl
  rw [Value.print_array, htext, hlast, value, bind_ok (next_head (by decide))]
  show (closedBy endArray (nested (bound >>= fun n => elementsWith (value fuel) n true)) >>=
    fun elements => pure (Value.array elements)) _ = _
  rw [bind_ok hclosed, Nat.add_assoc, Nat.add_assoc, ← Nat.add_assoc 1]
  rfl

theorem entry_taken {k : String} (h : TakesIn (value fuel) v.print.toList v depth) :
    TakesIn (colon >>= fun _ => value fuel >>= fun v => pure (k, v)) (Value.behindKey (k, v)) (k, v)
      depth := by
  intro rest offset hrest
  rw [Value.behindKey, List.cons_append, bind_ok colon_taken, bind_ok (h _ _ hrest),
    byteLength_cons, Nat.add_assoc]
  rfl

theorem object_taken {entries : List (String × Value)} (hdepth : 1 < depth)
    (h : ∀ e ∈ entries, TakesIn (value fuel) e.2.print.toList e.2 (depth - 1)) :
    TakesIn (value (fuel + 1)) (Value.object entries).print.toList (.object entries) depth := by
  intro rest offset _
  let written := listed (keyed Prod.fst Value.behindKey) entries
  let entry (k : String) : Read (String × Value) :=
    colon >>= fun _ => value fuel >>= fun v => pure (k, v)
  have hlength := length_le_listed fun e (_ : e ∈ entries) =>
    keyed_ne_nil Prod.fst Value.behindKey e
  have hinside : (bound >>= fun n => entriesWith entry n true)
      ⟨written ++ '}' :: rest, offset + 1, depth - 1⟩ =
        .ok entries ⟨'}' :: rest, offset + 1 + byteLength written, depth - 1⟩ := by
    rw [bind_ok (bound_ok _)]
    refine entries_taken (fun e he => entry_taken (h e he)) ?_
    simp only [List.length_append, written]
    omega
  have hclosed : closedBy endObject (nested (bound >>= fun n => entriesWith entry n true))
      ⟨'{' :: (written ++ '}' :: rest), offset, depth⟩ =
        .ok entries ⟨rest, offset + 1 + byteLength written + 1, depth⟩ :=
    construct_taken hdepth hinside endObject_taken
  have htext : '{' :: (written ++ ['}']) ++ rest = '{' :: (written ++ '}' :: rest) := by simp
  have hlast : byteLength ('{' :: (written ++ ['}'])) = 1 + byteLength written + 1 := by
    simp only [byteLength_cons, byteLength_append, byteLength_nil, Nat.add_assoc]
    rfl
  rw [Value.print_object, htext, hlast, value, bind_ok (next_head (by decide))]
  show (closedBy endObject (nested (bound >>= fun n => entriesWith entry n true)) >>=
    fun entries => pure (Value.object entries)) _ = _
  rw [bind_ok hclosed, Nat.add_assoc, Nat.add_assoc, ← Nat.add_assoc 1]
  rfl

/-- What a value without fractions is printed as is read as the value. -/
theorem value_taken (hf : Fits d v) (hi : v.integral = true) (hfuel : d < fuel)
    (hdepth : d < depth) : TakesIn (value fuel) v.print.toList v depth := by
  induction hf generalizing fuel depth with
  | null =>
    obtain ⟨fuel, rfl⟩ := Nat.exists_eq_add_of_lt hfuel
    exact literal_taken (by decide) rfl
  | bool b =>
    obtain ⟨fuel, rfl⟩ := Nat.exists_eq_add_of_lt hfuel
    cases b <;> exact literal_taken (by decide) rfl
  | int hlow hhigh =>
    obtain ⟨fuel, rfl⟩ := Nat.exists_eq_add_of_lt hfuel
    exact int_value_taken hlow hhigh
  | real x =>
    obtain ⟨fuel, rfl⟩ := Nat.exists_eq_add_of_lt hfuel
    obtain rfl := negative_zero_of_integral hi
    exact negative_zero_value_taken
  | string s =>
    obtain ⟨fuel, rfl⟩ := Nat.exists_eq_add_of_lt hfuel
    exact string_value_taken s
  | array h ih =>
    obtain ⟨fuel, rfl⟩ : ∃ n, fuel = n + 1 := ⟨fuel - 1, by omega⟩
    have hall := Value.allIntegral_iff.mp hi
    exact array_taken (by omega) hall fun v hv => ih v hv (hall v hv) (by omega) (by omega)
  | object h ih =>
    obtain ⟨fuel, rfl⟩ : ∃ n, fuel = n + 1 := ⟨fuel - 1, by omega⟩
    have hall := Value.entriesIntegral_iff.mp hi
    exact object_taken (by omega) fun e he => ih e he (hall e he) (by omega) (by omega)

end Read

theorem whole_taken {α : Type} {action : Read α} {a : α} {text : String}
    (h : TakesIn action text.toList a depthLimit) : whole text action = .ok a := by
  have haction := h [] 0 .nil
  rw [List.append_nil] at haction
  have hend : (action <* endOfText) ⟨text.toList, 0, depthLimit⟩ =
      .ok a ⟨[], 0 + byteLength text.toList, depthLimit⟩ := by
    rw [seqLeft_eq_bind, bind_ok haction]
    rfl
  rw [whole, hend]

end ModuleHost.Json
