import ModuleHost.Json.Print
import ModuleHost.Proofs.Json.Literals

/-! Integers are read back from their digits, as far as 64 bits hold them. -/

namespace ModuleHost.Json.Read

open ModuleHost.Text

variable {n limit v : Nat} {rest : List Char} {offset depth : Nat}

def Ended (rest : List Char) : Prop := ∀ c ∈ rest.head?, c = ',' ∨ c = ']' ∨ c = '}'

theorem Ended.nil : Ended [] := nofun

theorem Ended.comma : Ended (',' :: rest) := by rintro c ⟨⟩; exact .inl rfl

theorem Ended.bracket : Ended (']' :: rest) := by rintro c ⟨⟩; exact .inr (.inl rfl)

theorem Ended.brace : Ended ('}' :: rest) := by rintro c ⟨⟩; exact .inr (.inr rfl)

theorem Ended.head (h : Ended rest) : ∀ c ∈ rest.head?, c.isDigit = false := by
  intro c hc
  rcases h c hc with rfl | rfl | rfl <;> decide

theorem le_ofDigitChars (digits : List Char) (v : Nat) : v ≤ Nat.ofDigitChars 10 digits v := by
  induction digits generalizing v with
  | nil => exact Nat.le_refl v
  | cons c digits ih =>
    rw [Nat.ofDigitChars_cons]
    exact Nat.le_trans (by omega) (ih _)

theorem digitsInto_eq {digits : List Char} (h : Nat.ofDigitChars 10 digits v < limit) :
    digitsInto v limit digits = (Nat.ofDigitChars 10 digits v, digits.length) := by
  induction digits generalizing v with
  | nil => rfl
  | cons c digits ih =>
    have hgrown : 10 * v + (c.toNat - '0'.toNat) = v * 10 + (c.toNat - '0'.toNat) := by omega
    rw [Nat.ofDigitChars_cons, hgrown] at h ⊢
    have hlt := Nat.lt_of_le_of_lt (le_ofDigitChars digits _) h
    rw [digitsInto]
    simp only [if_pos hlt, ih h, List.length_cons]

theorem digitsInto_lt {digits : List Char} (h : v < limit) :
    (digitsInto v limit digits).1 < limit := by
  induction digits generalizing v with
  | nil => exact h
  | cons c digits ih =>
    rw [digitsInto]
    split
    · exact ih ‹_›
    · exact h

theorem digits_isDigit : ∀ c ∈ Nat.toDigits 10 n, c.isDigit = true :=
  fun _ hc => Nat.isDigit_of_mem_toDigits (by decide) (by decide) hc

theorem toDigits_zero_or (n : Nat) : n = 0 ∧ Nat.toDigits 10 n = ['0'] ∨
    0 < n ∧ ∃ c digits, Nat.toDigits 10 n = c :: digits ∧ c ≠ '0' := by
  induction n using Nat.strongRecOn with
  | ind n ih =>
    rcases Nat.eq_zero_or_pos n with rfl | hpos
    · exact .inl ⟨rfl, Nat.toDigits_zero 10⟩
    · refine .inr ⟨hpos, ?_⟩
      rw [Nat.toDigits_eq_if (by decide)]
      split
      · refine ⟨n.digitChar, [], rfl, fun heq => ?_⟩
        rw [Nat.digitChar_eq_zero] at heq
        omega
      · obtain ⟨hzero, -⟩ | ⟨-, c, digits, hdigits, hc⟩ := ih (n / 10) (by omega)
        · omega
        · exact ⟨c, digits ++ [(n % 10).digitChar], by simp [hdigits], hc⟩

def digitsOn (negative : Bool) : Read Number := do
  let written ← takeWhile Char.isDigit
  let (value, used) := digitsInto 0 wordLimit written
  let dropped := written.length - used
  match ← peek with
  | some '.' => fractionPart negative value dropped
  | some 'e' | some 'E' => exponentPart negative value dropped
  | _ =>
    if dropped ≠ 0 then finish negative value dropped
    else if !negative then return .int value
    else if 0 < value && value ≤ Nat.pow 2 63 then return .int (-value)
    else finish true value 0

theorem eat_head {c : Char} :
    eat c ⟨c :: rest, offset, depth⟩ = .ok true ⟨rest, offset + c.utf8Size, depth⟩ := by
  rw [eat, bind_ok peek_head, List.head?_cons, if_pos rfl, bind_ok advance_cons]
  rfl

theorem eat_other {c : Char} {s : Input} (h : s.rest.head? ≠ some c) : eat c s = .ok false s := by
  rw [eat, bind_ok peek_head, if_neg h]
  rfl

theorem number_nought (negative : Bool) (h : ∀ c ∈ rest.head?, c.isDigit = false) :
    number negative ⟨'0' :: rest, offset, depth⟩ =
      digitsOn negative ⟨rest, offset + 1, depth⟩ := by
  have hnone : rest.head?.any Char.isDigit = false := by
    cases hc : rest.head? with
    | none => rfl
    | some c => exact h c hc
  have hdigit : '0'.isDigit = true := by decide
  rw [number, bind_ok peek_head]
  simp only [List.head?_cons, hdigit, if_true]
  rw [bind_ok eat_head, if_pos rfl, bind_ok peek_head]
  simp only [hnone, Bool.false_eq_true, if_false]
  rfl

theorem number_other (negative : Bool) {c : Char} (hc : c.isDigit = true) (hne : c ≠ '0') :
    number negative ⟨c :: rest, offset, depth⟩ =
      digitsOn negative ⟨c :: rest, offset, depth⟩ := by
  have hother : (c :: rest).head? ≠ some '0' := by simpa using hne
  rw [number, bind_ok peek_head]
  simp only [List.head?_cons, hc, if_true]
  rw [bind_ok (eat_other hother), if_neg Bool.false_ne_true]
  rfl

theorem digitsOn_ended (negative : Bool) {digits : List Char}
    (hdigits : ∀ c ∈ digits, c.isDigit = true) (hn : Nat.ofDigitChars 10 digits 0 = n)
    (hlimit : n < wordLimit) (h : Ended rest) :
    digitsOn negative ⟨digits ++ rest, offset, depth⟩ =
      (if !negative then pure (.int n)
        else if 0 < n && n ≤ Nat.pow 2 63 then pure (.int (-n)) else finish true n 0)
        ⟨rest, offset + byteLength digits, depth⟩ := by
  have hused : digitsInto 0 wordLimit digits = (n, digits.length) := by
    rw [digitsInto_eq (hn ▸ hlimit), hn]
  rw [digitsOn, bind_ok (takeWhile_ok hdigits h.head)]
  simp only [hused, Nat.sub_self, ne_eq, not_true, if_false]
  rw [bind_ok peek_head]
  cases rest with
  | nil => rfl
  | cons c rest => rcases h c rfl with rfl | rfl | rfl <;> rfl

theorem number_digits (negative : Bool) (hn : n < wordLimit) (h : Ended rest) :
    number negative ⟨Nat.toDigits 10 n ++ rest, offset, depth⟩ =
      (if !negative then pure (.int n)
        else if 0 < n && n ≤ Nat.pow 2 63 then pure (.int (-n)) else finish true n 0)
        ⟨rest, offset + byteLength (Nat.toDigits 10 n), depth⟩ := by
  obtain ⟨rfl, hdigits⟩ | ⟨-, c, digits, hdigits, hc⟩ := toDigits_zero_or n
  · rw [hdigits, List.singleton_append, number_nought negative h.head]
    exact @digitsOn_ended 0 rest (offset + 1) depth negative [] (by simp) rfl hn h
  · have hfirst : c.isDigit = true := digits_isDigit (n := n) c (by simp [hdigits])
    rw [← digitsOn_ended negative digits_isDigit Nat.ofDigitChars_ten_toDigits hn h, hdigits,
      List.cons_append, number_other negative hfirst hc]

theorem number_taken (hn : n < wordLimit) (h : Ended rest) :
    number false ⟨Nat.toDigits 10 n ++ rest, offset, depth⟩ =
      .ok (.int n) ⟨rest, offset + byteLength (Nat.toDigits 10 n), depth⟩ := by
  rw [number_digits false hn h]
  rfl

theorem number_negative_taken (hpos : 0 < n) (hn : n ≤ Nat.pow 2 63) (h : Ended rest) :
    number true ⟨Nat.toDigits 10 n ++ rest, offset, depth⟩ =
      .ok (.int (-n)) ⟨rest, offset + byteLength (Nat.toDigits 10 n), depth⟩ := by
  have hlimit : n < wordLimit := Nat.lt_of_le_of_lt hn (by decide)
  rw [number_digits true hlimit h]
  simp [hpos, hn]
  rfl

theorem number_negative_zero (h : Ended rest) :
    number true ⟨'0' :: '.' :: '0' :: rest, offset, depth⟩ =
      .ok (.real Decimal.Binary64.zero.neg) ⟨rest, offset + 3, depth⟩ := by
  have hpoint : ∀ c ∈ ('.' :: '0' :: rest).head?, c.isDigit = false := by
    rintro c ⟨⟩
    decide
  have hfraction : takeWhile Char.isDigit ⟨'0' :: rest, offset + 2, depth⟩ =
      .ok ['0'] ⟨rest, offset + 3, depth⟩ :=
    takeWhile_ok (p := ['0']) (List.forall_mem_singleton.mpr (by decide)) h.head
  have hreal : real true 0 (-1) = some Decimal.Binary64.zero.neg := by decide
  have hfinish : afterDigits true 0 (-1) ⟨rest, offset + 3, depth⟩ =
      .ok (.real Decimal.Binary64.zero.neg) ⟨rest, offset + 3, depth⟩ := by
    rw [afterDigits, bind_ok peek_head]
    have hplain : finish true 0 (-1) ⟨rest, offset + 3, depth⟩ =
        .ok (.real Decimal.Binary64.zero.neg) ⟨rest, offset + 3, depth⟩ := by
      rw [finish, hreal]
      rfl
    cases rest with
    | nil => exact hplain
    | cons c rest => rcases h c rfl with rfl | rfl | rfl <;> exact hplain
  have hnone : takeWhile Char.isDigit ⟨'.' :: '0' :: rest, offset + 1, depth⟩ =
      .ok [] ⟨'.' :: '0' :: rest, offset + 1, depth⟩ :=
    takeWhile_ok (p := []) (by simp) hpoint
  rw [number_nought true hpoint, digitsOn, bind_ok hnone]
  show fractionPart true 0 0 ⟨'.' :: '0' :: rest, offset + 1, depth⟩ = _
  rw [fractionPart, bind_ok advance_cons]
  exact (bind_ok hfraction).trans hfinish

end ModuleHost.Json.Read
