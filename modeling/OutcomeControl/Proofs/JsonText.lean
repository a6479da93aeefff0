import Mathlib.Data.Fintype.Basic
import Mathlib.Data.List.DropRight
import Mathlib.Tactic.FinCases
import OutcomeControl.Json.Printer
import OutcomeControl.Json.Reader

/-! JSON text that was printed is read back.

Numerals and string literals are read back with whatever follows them, as long as that does not go on
with the number. For values the text that follows is empty or starts with a comma or a new line
(`Stops`), which is what the printer puts there. Two calls for each character are enough to read a
value, and reading a whole text allows for more, so `read_pretty` holds of every value without a break
in it. -/

namespace OutcomeControl.Json

/-! ### Digits -/

theorem decimal?_digit (d : Fin 10) : decimal? (Numeral.digit d) = some d := by
  revert d
  decide

theorem digits_append (ds : List (Fin 10)) {rest : List Char}
    (h : ∀ c ∈ rest.head?, decimal? c = none) :
    digits (ds.map Numeral.digit ++ rest) = (ds, rest) := by
  induction ds with
  | nil =>
    cases rest with
    | nil => rfl
    | cons c cs =>
      have hc := h c rfl
      simp only [List.map_nil, List.nil_append, digits, hc]
  | cons d ds ih =>
    simp only [List.map_cons, List.cons_append, digits, decimal?_digit, ih]

theorem digit_digitOf {c : Char} (h : c.isDigit = true) :
    Numeral.digit (Numeral.digitOf (c.toNat - 48)) = c := by
  have hc : 48 ≤ c.toNat ∧ c.toNat ≤ 57 := by
    simpa [Char.isDigit, UInt32.le_iff_toNat_le] using h
  have hval : 48 + (c.toNat - 48) % 10 = c.toNat := by omega
  simp only [Numeral.digit, Numeral.digitOf, Fin.val_ofNat, hval, Char.ofNat_toNat]

theorem map_digit_digitsOf (n : Nat) : (Numeral.digitsOf n).map Numeral.digit = Nat.toDigits 10 n := by
  rw [Numeral.digitsOf, List.map_map]
  refine (List.map_congr_left fun c hc => ?_).trans (List.map_id _)
  exact digit_digitOf (Nat.isDigit_of_mem_toDigits (by decide) (by decide) hc)

theorem toList_toString (n : Nat) : (toString n).toList = (Numeral.digitsOf n).map Numeral.digit := by
  rw [map_digit_digitsOf, Nat.toString_eq_ofList_toDigits, String.toList_ofList]

theorem valueOf_digitsOf (n : Nat) : valueOf (Numeral.digitsOf n) = n := by
  have hval : ∀ d : Fin 10, (Numeral.digit d).toNat - '0'.toNat = d.val := by decide
  calc valueOf (Numeral.digitsOf n)
      = Nat.ofDigitChars 10 ((Numeral.digitsOf n).map Numeral.digit) 0 := by
        simp only [valueOf, Nat.ofDigitChars, List.foldl_map, hval]
    _ = n := by
        rw [map_digit_digitsOf]
        exact Nat.ofDigitChars_toDigits (by decide) (by decide)

theorem head_toDigits {n : Nat} (h : 0 < n) : ∃ c cs, Nat.toDigits 10 n = c :: cs ∧ c ≠ '0' := by
  induction n using Nat.strongRecOn with
  | ind n ih =>
    by_cases hlt : n < 10
    · have hdigit : ∀ m < 10, 0 < m → Nat.digitChar m ≠ '0' := by decide
      exact ⟨n.digitChar, [], Nat.toDigits_of_lt_base hlt, hdigit n hlt h⟩
    · obtain ⟨c, cs, hcs, hc⟩ := ih (n / 10) (by omega) (by omega)
      rw [Nat.toDigits_of_base_le (by decide) (by omega), hcs]
      exact ⟨c, _, rfl, hc⟩

/-- A number of several digits does not start with a zero. -/
theorem head_digitsOf {n : Nat} {d : Fin 10} {ds : List (Fin 10)} (h : Numeral.digitsOf n = d :: ds)
    (hds : ds ≠ []) : d.val ≠ 0 := by
  intro hd
  have hdigits := map_digit_digitsOf n
  rw [h, List.map_cons] at hdigits
  obtain rfl | hpos := Nat.eq_zero_or_pos n
  · simp only [Nat.toDigits_zero, List.cons.injEq, List.map_eq_nil_iff] at hdigits
    exact hds hdigits.2
  · obtain ⟨c, cs, hcs, hc⟩ := head_toDigits hpos
    rw [hcs] at hdigits
    obtain ⟨rfl, -⟩ := List.cons.inj hdigits
    obtain rfl : d = 0 := Fin.ext hd
    exact hc rfl

theorem digitsOf_ne_nil (n : Nat) : Numeral.digitsOf n ≠ [] := by
  intro h
  have hdigits := map_digit_digitsOf n
  rw [h] at hdigits
  exact Nat.toDigits_ne_nil hdigits.symm

/-! ### Numerals -/

theorem wholePart_append (n : Nat) {rest : List Char} (h : ∀ c ∈ rest.head?, decimal? c = none) :
    wholePart ((toString n).toList ++ rest) = some (n, rest) := by
  have hvalue := valueOf_digitsOf n
  rw [wholePart, toList_toString, digits_append _ h]
  rcases hn : Numeral.digitsOf n with _ | ⟨d, _ | ⟨e, ds⟩⟩
  · exact absurd hn (digitsOf_ne_nil n)
  · rw [hn] at hvalue
    obtain rfl : d.val = n := by simpa [valueOf] using hvalue
    rfl
  · have hd := head_digitsOf hn (List.cons_ne_nil e ds)
    rw [hn] at hvalue
    simp only [if_neg hd, hvalue]

/-- The digits after the point, as they are printed. -/
def fractionText (ds : List (Fin 10)) : List Char :=
  if ds.isEmpty then [] else '.' :: ds.map Numeral.digit

/-- The exponent, as it is printed. -/
def exponentText : Option Int → List Char
  | none => []
  | some e => 'e' :: (if e < 0 then '-' else '+') :: (toString e.natAbs).toList

theorem text_eq (n : Numeral) :
    (n.text true).toList = (if n.negative then ['-'] else []) ++ ((toString n.whole).toList ++
      (fractionText n.fraction ++ exponentText n.exponent)) := by
  obtain ⟨negative, whole, fraction, exponent⟩ := n
  simp only [Numeral.text, String.toList_append, List.append_assoc]
  congr 1
  · cases negative <;> simp
  · congr 2
    · cases fraction with
      | nil => rfl
      | cons d ds => simp [fractionText]
    · cases exponent with
      | none => rfl
      | some e => by_cases he : e < 0 <;> simp [exponentText, he]

/-- The text goes on after a value, with a comma or on the next line, or ends there. -/
inductive Stops : List Char → Prop where
  | nothing : Stops []
  | comma (cs : List Char) : Stops (',' :: cs)
  | newline (cs : List Char) : Stops ('\n' :: cs)

theorem Stops.decimal? {rest : List Char} (h : Stops rest) : ∀ c ∈ rest.head?, decimal? c = none := by
  cases h <;> simp <;> decide

theorem exponentPart_append (e : Option Int) {rest : List Char} (h : Stops rest) :
    exponentPart (exponentText e ++ rest) = some (e, rest) := by
  cases e with
  | none => cases h <;> rfl
  | some e =>
    have hdigits : digits ((toString e.natAbs).toList ++ rest) =
        (Numeral.digitsOf e.natAbs, rest) := by
      rw [toList_toString, digits_append _ h.decimal?]
    have hne := digitsOf_ne_nil e.natAbs
    have hsigned : ∀ negative, exponentDigits negative ((toString e.natAbs).toList ++ rest) =
        some (some (if negative then -(e.natAbs : Int) else e.natAbs), rest) := by
      intro negative
      have hvalue := valueOf_digitsOf e.natAbs
      rw [exponentDigits, hdigits]
      cases hds : Numeral.digitsOf e.natAbs with
      | nil => exact absurd hds hne
      | cons d ds =>
        rw [hds] at hvalue
        simp only [hvalue]
    by_cases he : e < 0
    · rw [exponentText, if_pos he]
      refine (hsigned true).trans ?_
      rw [if_pos rfl, Int.ofNat_natAbs_of_nonpos (Int.le_of_lt he), Int.neg_neg]
    · rw [exponentText, if_neg he]
      refine (hsigned false).trans ?_
      rw [if_neg Bool.false_ne_true, Int.natAbs_of_nonneg (Int.not_lt.mp he)]

theorem fractionPart_append (ds : List (Fin 10)) (e : Option Int) {rest : List Char} (h : Stops rest) :
    fractionPart (fractionText ds ++ (exponentText e ++ rest)) = some (ds, exponentText e ++ rest) := by
  have hend : ∀ c ∈ (exponentText e ++ rest).head?, decimal? c = none := by
    cases e with
    | none => exact h.decimal?
    | some e => simp [exponentText]; decide
  cases ds with
  | nil =>
    cases e with
    | none => cases h <;> rfl
    | some e => rfl
  | cons d ds =>
    have hpoint : fractionText (d :: ds) ++ (exponentText e ++ rest) =
        '.' :: ((d :: ds).map Numeral.digit ++ (exponentText e ++ rest)) := rfl
    rw [hpoint, fractionPart, digits_append (d :: ds) hend]

theorem numeral_append (n : Numeral) {rest : List Char} (h : Stops rest) :
    numeral ((n.text true).toList ++ rest) = some (n, rest) := by
  have hstart : ∀ c ∈ (fractionText n.fraction ++ (exponentText n.exponent ++ rest)).head?,
      decimal? c = none := by
    obtain ⟨negative, whole, _ | ⟨d, ds⟩, _ | e⟩ := n
    · exact h.decimal?
    · simp [fractionText, exponentText]; decide
    · simp [fractionText]; decide
    · simp [fractionText]; decide
  have hunsigned : unsignedNumeral n.negative ((toString n.whole).toList ++
      (fractionText n.fraction ++ (exponentText n.exponent ++ rest))) = some (n, rest) := by
    simp only [unsignedNumeral, wholePart_append n.whole hstart, Option.bind_eq_bind, Option.bind_some,
      fractionPart_append n.fraction n.exponent h, exponentPart_append n.exponent h]
    rfl
  rw [text_eq, List.append_assoc, List.append_assoc, List.append_assoc]
  cases hnegative : n.negative with
  | true =>
    rw [hnegative] at hunsigned
    exact hunsigned
  | false =>
    rw [hnegative] at hunsigned
    obtain ⟨d, ds, hd⟩ := List.exists_cons_of_ne_nil (digitsOf_ne_nil n.whole)
    have hfirst : ∀ cs,
        numeral (Numeral.digit d :: cs) = unsignedNumeral false (Numeral.digit d :: cs) := by
      fin_cases d <;> exact fun _ => rfl
    rw [toList_toString, hd] at hunsigned ⊢
    exact (hfirst _).trans hunsigned

/-! ### String literals -/

theorem Literal.unit_eq_char (l : Literal) {u : Nat} (h : u < 0xD800) :
    l.unit u = l.char (Char.ofNat u) := by
  have hhigh : isHighSurrogate u = false := by simp [isHighSurrogate]; omega
  have hlow : isLowSurrogate u = false := by simp [isLowSurrogate]; omega
  cases hl : l.high <;> simp [Literal.unit, Literal.single, Literal.char, hl, hhigh, hlow]

/-- A control character is read back from its four hexadecimal digits. -/
theorem stringFrom_unit (l : Literal) {c : Char} (h : c.toNat < 32) (cs : List Char) :
    stringFrom l ('\\' :: 'u' :: '0' :: '0' :: Nat.digitChar (c.toNat / 16) ::
      Nat.digitChar (c.toNat % 16) :: cs) = stringFrom (l.char c) cs := by
  have hunit : ∀ n < 32, unit? '0' '0' (Nat.digitChar (n / 16)) (Nat.digitChar (n % 16)) = some n := by
    decide
  rw [stringFrom, hunit _ h]
  dsimp only
  rw [l.unit_eq_char (by omega), Char.ofNat_toNat]

theorem toDigits_hex {n : Nat} (h : 16 ≤ n) (h' : n < 32) :
    Nat.toDigits 16 n = [Nat.digitChar (n / 16), Nat.digitChar (n % 16)] := by
  rw [Nat.toDigits_of_base_le (by decide) h, Nat.toDigits_of_lt_base (by omega)]
  rfl

/-- A character is read back as it was written. -/
theorem stringFrom_escapeChar (l : Literal) (c : Char) (cs : List Char) :
    stringFrom l ((escapeChar c).toList ++ cs) = stringFrom (l.char c) cs := by
  unfold escapeChar
  split
  · subst c; rfl
  split
  · subst c; rfl
  split
  · subst c; rfl
  split
  · subst c; rfl
  split
  · subst c; rfl
  split
  · subst c; rfl
  split
  · subst c; rfl
  split
  case isTrue hlt =>
    have hzero : c.toNat / 16 = 0 := by omega
    have hunit := stringFrom_unit l (c := c) (by omega) cs
    rw [hzero, Nat.mod_eq_of_lt hlt, show Nat.digitChar 0 = '0' from rfl] at hunit
    simpa [hexText, Nat.toDigits_of_lt_base hlt] using hunit
  split
  case isTrue hle hlt =>
    simpa [hexText, toDigits_hex (Nat.not_lt.mp hle) hlt] using stringFrom_unit l hlt cs
  case isFalse hquote hslash _ _ _ _ _ _ hlt =>
    simp only [Char.toString, String.toList_singleton, List.singleton_append]
    have hplain : ¬ (c.toNat < 0x20 || c = '\\') = true := by simp [hlt, hslash]
    rw [stringFrom.eq_def]
    split <;> simp_all

theorem stringFrom_escaped (l : Literal) (hhigh : l.high = none) (hsound : l.sound = true)
    (cs rest : List Char) :
    stringFrom l ((String.join (cs.map escapeChar)).toList ++ '"' :: rest) =
      some (some (String.ofList (l.reversed.reverse ++ cs)), rest) := by
  induction cs generalizing l with
  | nil => simp [stringFrom, Literal.spelling, hhigh, hsound]
  | cons c cs ih =>
    simp only [String.toList_join, List.map_cons, List.flatMap_cons, List.append_assoc] at ih ⊢
    rw [stringFrom_escapeChar, ih (l.char c) rfl (by simp [Literal.char, hhigh, hsound])]
    simp [Literal.char]

/-- What follows the opening quote of a literal is read to its closing quote. -/
theorem literal_append (s : Spelling) (rest : List Char) :
    ∃ cs, (literal s).toList ++ rest = '"' :: cs ∧ stringFrom {} cs = some (s, rest) := by
  cases s with
  | none => exact ⟨_, rfl, rfl⟩
  | some s =>
    refine ⟨(String.join (s.toList.map escapeChar)).toList ++ '"' :: rest, ?_, ?_⟩
    · simp [literal, quote]
    · rw [stringFrom_escaped {} rfl rfl]
      simp

/-! ### Values -/

@[simp] theorem skipBlanks_skipBlanks (cs : List Char) : skipBlanks (skipBlanks cs) = skipBlanks cs :=
  List.dropWhile_idempotent _ _

theorem skipBlanks_append {blanks : List Char} (h : ∀ c ∈ blanks, isBlank c = true) (cs : List Char) :
    skipBlanks (blanks ++ cs) = skipBlanks cs := List.dropWhile_append_of_pos h

theorem toList_indent (level : Nat) : (indent level).toList = List.replicate (2 * level) ' ' := by
  rw [indent, String.toList_join]
  induction level with
  | zero => rfl
  | succ level ih =>
    rw [List.replicate_succ, List.flatMap_cons, ih, Nat.mul_succ, Nat.add_comm, List.replicate_add]
    rfl

theorem isBlank_indent (level : Nat) : ∀ c ∈ (indent level).toList, isBlank c = true := by
  intro c hc
  rw [toList_indent] at hc
  rw [List.eq_of_mem_replicate hc]
  rfl

theorem value_skipBlanks (fuel : Nat) (cs : List Char) : value fuel (skipBlanks cs) = value fuel cs := by
  cases fuel with
  | zero => rfl
  | succ fuel => rw [value, value, skipBlanks_skipBlanks]

theorem items_skipBlanks (fuel : Nat) (cs : List Char) : items fuel (skipBlanks cs) = items fuel cs := by
  cases fuel with
  | zero => rfl
  | succ fuel => rw [items, items, value_skipBlanks]

theorem members_skipBlanks (fuel : Nat) (cs : List Char) :
    members fuel (skipBlanks cs) = members fuel cs := by
  cases fuel with
  | zero => rfl
  | succ fuel => rw [members, members, skipBlanks_skipBlanks]

theorem value_append {blanks : List Char} (h : ∀ c ∈ blanks, isBlank c = true) (fuel : Nat)
    (cs : List Char) : value fuel (blanks ++ cs) = value fuel cs := by
  rw [← value_skipBlanks, skipBlanks_append h, value_skipBlanks]

/-- A character that a value can start with. -/
def Starts (c : Char) : Prop := isBlank c = false ∧ c ≠ ']'

theorem text_head (n : Numeral) :
    ∃ c cs, (n.text true).toList = c :: cs ∧ (c = '-' ∨ ∃ d, c = Numeral.digit d) := by
  obtain ⟨d, ds, hd⟩ := List.exists_cons_of_ne_nil (digitsOf_ne_nil n.whole)
  rw [text_eq, toList_toString, hd]
  cases n.negative with
  | true => exact ⟨'-', _, rfl, .inl rfl⟩
  | false => exact ⟨Numeral.digit d, _, rfl, .inr ⟨d, rfl⟩⟩

theorem pretty_head {j : Json} (h : j.intact = true) (level : Nat) :
    ∃ c, (j.pretty level).toList.head? = some c ∧ Starts c := by
  cases j with
  | null => exact ⟨'n', by simp [pretty], by decide, by decide⟩
  | bool b =>
    cases b with
    | true => exact ⟨'t', by simp [pretty], by decide, by decide⟩
    | false => exact ⟨'f', by simp [pretty], by decide, by decide⟩
  | number n =>
    obtain ⟨c, cs, hcs, hc⟩ := text_head n
    refine ⟨c, by rw [pretty, hcs, List.head?_cons], ?_⟩
    have hdigit : ∀ d, isBlank (Numeral.digit d) = false ∧ Numeral.digit d ≠ ']' := by decide
    obtain rfl | ⟨d, rfl⟩ := hc
    · exact ⟨by decide, by decide⟩
    · exact hdigit d
  | string s =>
    obtain ⟨cs, hcs, -⟩ := literal_append s []
    rw [List.append_nil] at hcs
    exact ⟨'"', by rw [pretty, hcs, List.head?_cons], by decide, by decide⟩
  | array items => exact ⟨'[', by cases items <;> simp [pretty], by decide, by decide⟩
  | object members => exact ⟨'\x7b', by cases members <;> simp [pretty], by decide, by decide⟩
  | broken => cases h

theorem value_numeral {c : Char} (h : c = '-' ∨ ∃ d, c = Numeral.digit d) (fuel : Nat)
    (cs : List Char) : value (fuel + 1) (c :: cs) = match numeral (c :: cs) with
      | some (n, rest) => (Json.number n, some rest)
      | none => (Json.broken, none) := by
  obtain rfl | ⟨d, rfl⟩ := h
  · rfl
  · fin_cases d <;> rfl

theorem value_number (n : Numeral) (fuel : Nat) {rest : List Char} (h : Stops rest) :
    value (fuel + 1) ((n.text true).toList ++ rest) = (.number n, some rest) := by
  have hnumeral := numeral_append n h
  obtain ⟨c, cs, hcs, hc⟩ := text_head n
  rw [hcs, List.cons_append] at hnumeral ⊢
  rw [value_numeral hc, hnumeral]

theorem value_bracket (fuel : Nat) (cs : List Char) :
    value (fuel + 1) ('[' :: cs) = match skipBlanks cs with
      | ']' :: rest => (.array [], some rest)
      | rest => (.array (items fuel rest).1, (items fuel rest).2) := rfl

theorem value_array {cs : List Char} (h : ∀ rest, skipBlanks cs ≠ ']' :: rest) (fuel : Nat) :
    value (fuel + 1) ('[' :: cs) = (.array (items fuel cs).1, (items fuel cs).2) := by
  rw [← items_skipBlanks, value_bracket]
  split
  case h_1 rest hrest => exact absurd hrest (h rest)
  case h_2 => rfl

theorem value_brace (fuel : Nat) (cs : List Char) :
    value (fuel + 1) ('\x7b' :: cs) = match skipBlanks cs with
      | '\x7d' :: rest => (.object [], some rest)
      | rest => (.object (members fuel rest).1, (members fuel rest).2) := rfl

theorem value_object {cs : List Char} (h : ∀ rest, skipBlanks cs ≠ '\x7d' :: rest) (fuel : Nat) :
    value (fuel + 1) ('\x7b' :: cs) = (.object (members fuel cs).1, (members fuel cs).2) := by
  rw [← members_skipBlanks, value_brace]
  split
  case h_1 rest hrest => exact absurd hrest (h rest)
  case h_2 => rfl

@[simp] theorem skipBlanks_comma (cs : List Char) : skipBlanks (',' :: cs) = ',' :: cs := rfl

@[simp] theorem skipBlanks_colon (cs : List Char) : skipBlanks (':' :: cs) = ':' :: cs := rfl

@[simp] theorem skipBlanks_newline (cs : List Char) : skipBlanks ('\n' :: cs) = skipBlanks cs := rfl

@[simp] theorem skipBlanks_space (cs : List Char) : skipBlanks (' ' :: cs) = skipBlanks cs := rfl

section
variable {fuel : Nat} {cs cs' tail rest rest' : List Char} {key : Spelling} {j : Json}

theorem items_last (h : value fuel cs = (j, some tail)) (htail : skipBlanks tail = ']' :: rest) :
    items (fuel + 1) cs = ([j], some rest) := by
  simp [items, h, htail]

theorem items_comma {js : List Json} (h : value fuel cs = (j, some (',' :: '\n' :: tail)))
    (hrest : items fuel tail = (js, some rest)) : items (fuel + 1) cs = (j :: js, some rest) := by
  rw [← items_skipBlanks, ← skipBlanks_newline, items_skipBlanks] at hrest
  simp [items, h, hrest]

theorem members_last (hkey : skipBlanks cs = '"' :: cs')
    (hstring : stringFrom {} cs' = some (key, ':' :: tail)) (h : value fuel tail = (j, some rest))
    (hrest : skipBlanks rest = '\x7d' :: rest') :
    members (fuel + 1) cs = ([(key, j)], some rest') := by
  simp [members, hkey, hstring, h, hrest]

theorem members_comma {ms : List (Spelling × Json)} (hkey : skipBlanks cs = '"' :: cs')
    (hstring : stringFrom {} cs' = some (key, ':' :: tail))
    (h : value fuel tail = (j, some (',' :: '\n' :: rest)))
    (hrest : members fuel rest = (ms, some rest')) :
    members (fuel + 1) cs = ((key, j) :: ms, some rest') := by
  rw [← members_skipBlanks, ← skipBlanks_newline, members_skipBlanks] at hrest
  simp [members, hkey, hstring, h, hrest]

end

/-- The line with a key, and where its value starts. -/
theorem key_append (key : Spelling) (level : Nat) (rest : List Char) :
    ∃ cs, skipBlanks ((indent level).toList ++ ((literal key).toList ++ rest)) = '"' :: cs ∧
      stringFrom {} cs = some (key, rest) := by
  obtain ⟨cs, hcs, hstring⟩ := literal_append key rest
  refine ⟨cs, ?_, hstring⟩
  rw [skipBlanks_append (isBlank_indent level), hcs]
  rfl

/-- The closing bracket of an array or an object stands on a line of its own. -/
theorem skipBlanks_close (level : Nat) {c : Char} (h : isBlank c = false) (rest : List Char) :
    skipBlanks ('\n' :: ((indent level).toList ++ c :: rest)) = c :: rest := by
  rw [← List.cons_append, skipBlanks_append (List.forall_mem_cons.mpr ⟨rfl, isBlank_indent level⟩),
    skipBlanks, List.dropWhile_cons_of_neg (by rw [h]; decide)]

theorem toList_prettyItems (level : Nat) (j : Json) (js : List Json) :
    (prettyItems level (j :: js)).toList = (indent level).toList ++ ((j.pretty level).toList ++
      if js.isEmpty then [] else ',' :: '\n' :: (prettyItems level js).toList) := by
  cases js <;> simp [prettyItems]

theorem toList_prettyMembers (level : Nat) (key : Spelling) (j : Json) (ms : List (Spelling × Json)) :
    (prettyMembers level ((key, j) :: ms)).toList = (indent level).toList ++ ((literal key).toList ++
      ':' :: ' ' :: ((j.pretty level).toList ++
        if ms.isEmpty then [] else ',' :: '\n' :: (prettyMembers level ms).toList)) := by
  cases ms <;> simp [prettyMembers]

theorem prettyItems_head {j : Json} {js : List Json} (h : intactItems (j :: js) = true) (level : Nat)
    (tail rest : List Char) :
    skipBlanks ('\n' :: ((prettyItems level (j :: js)).toList ++ tail)) ≠ ']' :: rest := by
  rw [intactItems, Bool.and_eq_true] at h
  obtain ⟨c, hc, hblank, hne⟩ := pretty_head h.1 level
  obtain ⟨cs, hcs⟩ : ∃ cs, (j.pretty level).toList = c :: cs := List.head?_eq_some_iff.mp hc
  simp only [toList_prettyItems, hcs, List.append_assoc, List.cons_append]
  rw [skipBlanks_close level hblank]
  exact fun heq => hne (List.cons.inj heq).1

theorem prettyMembers_head (key : Spelling) (j : Json) (ms : List (Spelling × Json)) (level : Nat)
    (tail rest : List Char) :
    skipBlanks ('\n' :: ((prettyMembers level ((key, j) :: ms)).toList ++ tail)) ≠ '\x7d' :: rest := by
  rw [toList_prettyMembers, skipBlanks_newline, List.append_assoc, List.append_assoc]
  obtain ⟨cs, hcs, -⟩ := key_append key level _
  rw [hcs]
  simp

mutual
/-- **A printed value is read back**, whatever follows it. -/
theorem value_pretty : (j : Json) → j.intact = true → ∀ (level fuel : Nat) (rest : List Char),
    2 * (j.pretty level).toList.length < fuel → Stops rest →
      value fuel ((j.pretty level).toList ++ rest) = (j, some rest)
  | .null, _, _, _ + 1, _, _, _ => by simp [pretty, value, skipBlanks, isBlank]
  | .bool b, _, _, _ + 1, _, _, _ => by cases b <;> simp [pretty, value, skipBlanks, isBlank]
  | .number n, _, _, fuel + 1, _, _, hrest => value_number n fuel hrest
  | .string s, _, _, _ + 1, rest, _, _ => by
    obtain ⟨cs, hcs, hstring⟩ := literal_append s rest
    simp [pretty, hcs, value, skipBlanks, isBlank, hstring]
  | .array [], _, _, _ + 1, _, _, _ => by simp [pretty, value, skipBlanks, isBlank]
  | .object [], _, _, _ + 1, _, _, _ => by simp [pretty, value, skipBlanks, isBlank]
  | .array (j :: js), h, level, fuel + 1, rest, hfuel, _ => by
    have htext : ((array (j :: js)).pretty level).toList ++ rest = '[' :: '\n' ::
        ((prettyItems (level + 1) (j :: js)).toList ++
          '\n' :: ((indent level).toList ++ ']' :: rest)) := by simp [pretty]
    have hitems := items_pretty j js h level fuel ('\n' :: ((indent level).toList ++ ']' :: rest)) rest
      (by simp [pretty] at hfuel; omega) (.newline _) (skipBlanks_close level (by decide) rest)
    rw [htext, value_array (prettyItems_head h _ _), ← items_skipBlanks, skipBlanks_newline,
      items_skipBlanks, hitems]
  | .object ((key, j) :: ms), h, level, fuel + 1, rest, hfuel, _ => by
    have htext : ((object ((key, j) :: ms)).pretty level).toList ++ rest = '\x7b' :: '\n' ::
        ((prettyMembers (level + 1) ((key, j) :: ms)).toList ++
          '\n' :: ((indent level).toList ++ '\x7d' :: rest)) := by simp [pretty]
    have hmembers := members_pretty key j ms h level fuel
      ('\n' :: ((indent level).toList ++ '\x7d' :: rest)) rest
      (by simp [pretty] at hfuel; omega) (.newline _) (skipBlanks_close level (by decide) rest)
    rw [htext, value_object (prettyMembers_head key j ms _ _), ← members_skipBlanks,
      skipBlanks_newline, members_skipBlanks, hmembers]
/-- Items stand on indented lines, so that there is a call to spare for each. -/
theorem items_pretty : (j : Json) → (js : List Json) → intactItems (j :: js) = true →
    ∀ (level fuel : Nat) (tail rest : List Char),
      2 * (prettyItems (level + 1) (j :: js)).toList.length < fuel → Stops tail →
      skipBlanks tail = ']' :: rest →
      items fuel ((prettyItems (level + 1) (j :: js)).toList ++ tail) = (j :: js, some rest)
  | j, js, h, level, fuel + 1, tail, rest, hfuel, hstops, htail => by
    rw [intactItems, Bool.and_eq_true] at h
    have hvalue := fun tail => value_pretty j h.1 (level + 1) fuel tail
      (by simp [toList_prettyItems, toList_indent] at hfuel; omega)
    simp only [toList_prettyItems, List.append_assoc] at hfuel ⊢
    cases js with
    | nil =>
      refine items_last ?_ htail
      rw [value_append (isBlank_indent _)]
      exact hvalue _ hstops
    | cons k js =>
      have hitems := items_pretty k js h.2 level fuel tail rest (by simp at hfuel; omega) hstops htail
      refine items_comma ?_ hitems
      rw [value_append (isBlank_indent _)]
      exact hvalue _ (.comma _)
theorem members_pretty : (key : Spelling) → (j : Json) → (ms : List (Spelling × Json)) →
    intactMembers ((key, j) :: ms) = true →
    ∀ (level fuel : Nat) (tail rest : List Char),
      2 * (prettyMembers (level + 1) ((key, j) :: ms)).toList.length < fuel → Stops tail →
      skipBlanks tail = '\x7d' :: rest →
      members fuel ((prettyMembers (level + 1) ((key, j) :: ms)).toList ++ tail) =
        ((key, j) :: ms, some rest)
  | key, j, ms, h, level, fuel + 1, tail, rest, hfuel, hstops, htail => by
    rw [intactMembers, Bool.and_eq_true] at h
    have hvalue := fun tail => value_pretty j h.1 (level + 1) fuel tail
      (by simp [toList_prettyMembers, toList_indent] at hfuel; omega)
    simp only [toList_prettyMembers, List.append_assoc, List.cons_append] at hfuel ⊢
    cases ms with
    | nil =>
      obtain ⟨cs, hcs, hstring⟩ := key_append key (level + 1) _
      refine members_last hcs hstring ?_ htail
      rw [← value_skipBlanks, skipBlanks_space, value_skipBlanks]
      exact hvalue _ hstops
    | cons m ms =>
      obtain ⟨key', k⟩ := m
      have hmembers := members_pretty key' k ms h.2 level fuel tail rest (by simp at hfuel; omega) hstops
        htail
      obtain ⟨cs, hcs, hstring⟩ := key_append key (level + 1) _
      refine members_comma hcs hstring ?_ hmembers
      rw [← value_skipBlanks, skipBlanks_space, value_skipBlanks]
      exact hvalue _ (.comma _)
end

/-- **A printed text is read back** as the value it was printed for, to its end. -/
theorem read_pretty {j : Json} (h : j.intact = true) {tail : String} (hstops : Stops tail.toList)
    (hblank : skipBlanks tail.toList = []) : read (j.pretty 0 ++ tail) = ⟨j, true⟩ := by
  have hvalue := value_pretty j h 0 (2 * ((j.pretty 0).toList ++ tail.toList).length + 2) tail.toList
    (by rw [List.length_append]; omega) hstops
  simp only [read, String.toList_append, hvalue, hblank]
  rfl

end OutcomeControl.Json
