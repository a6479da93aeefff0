import Mathlib.Algebra.Group.Nat.Defs
import Mathlib.Data.List.Nodup
import Mathlib.Data.List.Perm.Subperm
import Mathlib.Order.Nat
import OutcomeControl.Proofs.Induction

/-! What a name supply gives out.

A generated name tells its number: after the prefix the digits run up to the first underscore. So
different numbers have different names, and a supply that reserves `n` names finds a free one among
the next `n + 1` numbers. A name that is drawn is free (`NameSupply.Ends.draw_notMem`), and as long as
fewer than `2 ^ 32` numbers are drawn, names drawn one after the other are distinct
(`NameSupply.Draws.nodup`). -/

namespace OutcomeControl

namespace NameSupply

/-! ### Numbered names -/

/-- The name starts with the prefix, the number in decimal digits and an underscore. -/
def Numbered (pre : String) (token : Nat) (name : String) : Prop :=
  ∃ tail, name = pre ++ toString token ++ "_" ++ tail

theorem takeWhile_digits (token : Nat) (tail : List Char) :
    ((toString token).toList ++ '_' :: tail).takeWhile (· ≠ '_') = (toString token).toList := by
  rw [List.takeWhile_append_of_pos, List.takeWhile_cons_of_neg (by simp), List.append_nil]
  intro c hc
  rw [Nat.toString_eq_ofList_toDigits, String.toList_ofList] at hc
  simp only [decide_eq_true_eq]
  rintro rfl
  exact Nat.underscore_not_in_toDigits hc

theorem Numbered.token_eq {pre name : String} {m n : Nat} (hm : Numbered pre m name)
    (hn : Numbered pre n name) : m = n := by
  obtain ⟨tail, rfl⟩ := hm
  obtain ⟨tail', heq⟩ := hn
  have hlist := congrArg String.toList heq
  simp only [String.toList_append, List.append_assoc, List.append_cancel_left_eq] at hlist
  have hdigits := congrArg (List.takeWhile (· ≠ '_')) hlist
  change List.takeWhile _ (_ ++ '_' :: _) = List.takeWhile _ (_ ++ '_' :: _) at hdigits
  rw [takeWhile_digits, takeWhile_digits] at hdigits
  have hvalue := congrArg (Nat.ofDigitChars 10 · 0) hdigits
  simpa only [Nat.toString_eq_ofList_toDigits, String.toList_ofList,
    Nat.ofDigitChars_toDigits (by decide : 1 < 10) (by decide : 10 ≤ 10)] using hvalue

/-- Every number stands in its own name. -/
def IsNumbering (pre : String) (wanted : UInt32 → String) : Prop :=
  ∀ t : UInt32, Numbered pre t.toNat (wanted t)

theorem isNumbering_callableName (s : NameSupply) (enclosing : String) :
    IsNumbering s.callablePrefix (s.callableName enclosing) := fun _ => ⟨enclosing, rfl⟩

theorem isNumbering_variableName (s : NameSupply) :
    IsNumbering s.variablePrefix s.variableName := by
  intro t
  refine ⟨"_", ?_⟩
  rw [variableName, show "__" = "_" ++ "_" from rfl]
  simp only [String.append_assoc]

/-! ### Drawing -/

section
variable (wanted : UInt32 → String) (reserved : List String)

/-- The numbers that are passed over have reserved names. Where the tries run out, the last one was
not looked at. -/
theorem search_spec (n k : Nat) :
    (∀ j, k < j → j < search wanted reserved n k → wanted (.ofNat j) ∈ reserved) ∧
      (wanted (.ofNat (search wanted reserved n k)) ∉ reserved ∨
        search wanted reserved n k = k + n + 1) := by
  induction n generalizing k with
  | zero => exact ⟨fun j hk hj => by simp only [search] at hj; omega, .inr rfl⟩
  | succ n ih =>
    unfold search
    split
    case isTrue htaken =>
      obtain ⟨hskipped, hend⟩ := ih (k + 1)
      refine ⟨fun j hk hj => ?_, hend.imp id fun h => by omega⟩
      obtain rfl | hlt := Nat.eq_or_lt_of_le hk
      · exact htaken
      · exact hskipped j hlt hj
    case isFalse hfree => exact ⟨fun j hk hj => by omega, .inl hfree⟩

/-- Among `n + 1` numbers in a row one has a name outside a list of length `n`, as long as counting
does not come back to where it began. -/
theorem exists_notMem_of_numbering {pre : String} (h : IsNumbering pre wanted) (k : Nat)
    (hlength : reserved.length < 2 ^ 32) :
    ∃ j, k < j ∧ j ≤ k + reserved.length + 1 ∧ wanted (.ofNat j) ∉ reserved := by
  by_contra hall
  push Not at hall
  let names := (List.range' (k + 1) (reserved.length + 1)).map fun j => wanted (.ofNat j)
  have hnodup : names.Nodup := by
    refine List.Nodup.map_on (fun i hi j hj heq => ?_) List.nodup_range'
    simp only [List.mem_range'_1] at hi hj
    have htoken := (h (.ofNat i)).token_eq (heq ▸ h (.ofNat j))
    simp only [UInt32.toNat_ofNat'] at htoken
    omega
  have hsubset : names ⊆ reserved := by
    intro name hname
    obtain ⟨j, hj, rfl⟩ := List.mem_map.mp hname
    rw [List.mem_range'_1] at hj
    exact hall j (by omega) (by omega)
  have hle := (hnodup.subperm hsubset).length_le
  simp only [names, List.length_map, List.length_range'] at hle
  omega

theorem search_free_of_length {pre : String} (h : IsNumbering pre wanted) (k : Nat)
    (hlength : reserved.length < 2 ^ 32) :
    wanted (.ofNat (search wanted reserved reserved.length k)) ∉ reserved := by
  obtain ⟨hskipped, hfree | hend⟩ := search_spec wanted reserved reserved.length k
  · exact hfree
  · obtain ⟨j, hj, hle, hnot⟩ := exists_notMem_of_numbering wanted reserved h k hlength
    obtain hlt | rfl := Nat.lt_or_eq_of_le (hend ▸ hle)
    · exact absurd (hskipped j hj hlt) hnot
    · exact hnot

theorem search_free {pre : String} (h : IsNumbering pre wanted) (k : Nat)
    (hlt : search wanted reserved reserved.length k < k + 2 ^ 32) :
    wanted (.ofNat (search wanted reserved reserved.length k)) ∉ reserved := by
  obtain ⟨-, hfree | hend⟩ := search_spec wanted reserved reserved.length k
  · exact hfree
  · exact search_free_of_length wanted reserved h k (by omega)

end

/-- Some number has a free name, so that drawing comes to an end wherever it starts. -/
def Ends (s : NameSupply) (wanted : UInt32 → String) : Prop := ∃ token, wanted token ∉ s.reserved

theorem ends_of_length_lt {s : NameSupply} {pre : String} {wanted : UInt32 → String}
    (h : IsNumbering pre wanted) (hlength : s.reserved.length < 2 ^ 32) : s.Ends wanted :=
  ⟨_, search_free_of_length wanted s.reserved h s.issued hlength⟩

/-- A name that is drawn is free, however many numbers were drawn before. With `2 ^ 32` reserved names
or more the search has looked at all numbers when it gives up. -/
theorem Ends.draw_notMem {s : NameSupply} {pre : String} {wanted : UInt32 → String}
    (hends : s.Ends wanted) (h : IsNumbering pre wanted) : (s.draw wanted).1 ∉ s.reserved := by
  by_cases hlength : s.reserved.length < 2 ^ 32
  · exact search_free_of_length wanted s.reserved h s.issued hlength
  · obtain ⟨hskipped, hfree | hend⟩ := search_spec wanted s.reserved s.reserved.length s.issued
    · exact hfree
    · obtain ⟨token, htoken⟩ := hends
      -- The first number after `issued` that has this token.
      let j := s.issued + 1 + (token.toNat + 2 ^ 32 - (s.issued + 1) % 2 ^ 32) % 2 ^ 32
      have hj : UInt32.ofNat j = token := by
        apply UInt32.toNat_inj.mp
        have hlt := token.toNat_lt
        rw [UInt32.toNat_ofNat']
        omega
      have hmem := hskipped j (by omega) (by omega)
      rw [hj] at hmem
      exact absurd hmem htoken

/-- The first name has the smaller number. -/
def Precedes (pre first second : String) : Prop :=
  ∃ i j, Numbered pre i first ∧ Numbered pre j second ∧ i < j

namespace Precedes
variable {pre : String}

theorem trans {a b c : String} (hab : Precedes pre a b) (hbc : Precedes pre b c) :
    Precedes pre a c := by
  obtain ⟨i, j, hi, hj, hij⟩ := hab
  obtain ⟨j', k, hj', hk, hjk⟩ := hbc
  obtain rfl := hj.token_eq hj'
  exact ⟨i, k, hi, hk, hij.trans hjk⟩

theorem irrefl {a : String} (h : Precedes pre a a) : False := by
  obtain ⟨i, j, hi, hj, hij⟩ := h
  exact hij.ne (hi.token_eq hj)

end Precedes

/-! ### A run of draws -/

/-- What holds between two items holds between what goes with them. -/
theorem pairwise_of_forall₂ {α β : Type} {R : α → β → Prop} {S : α → α → Prop} {T : β → β → Prop}
    {as : List α} {bs : List β} (h : List.Forall₂ R as bs) (hS : as.Pairwise S)
    (hT : ∀ a b a' b', R a b → R a' b' → S a a' → T b b') : bs.Pairwise T := by
  induction h with
  | nil => exact .nil
  | @cons a b as bs hab hbs ih =>
    rw [List.pairwise_cons] at hS
    refine List.pairwise_cons.mpr ⟨fun b' hb' => ?_, ih hS.2⟩
    obtain ⟨i, hi, rfl⟩ := List.getElem_of_mem hb'
    have hi' : i < as.length := hbs.length_eq ▸ hi
    exact hT a b as[i] bs[i] hab ((List.forall₂_iff_get.mp hbs).2 i hi' hi)
      (hS.1 _ (List.getElem_mem hi'))

/-- Names that the supply gives while it counts up to `last`, each with its number as counted in
32 bits. -/
structure Draws (s : NameSupply) (pre : String) (last : Nat) (names : List String) : Prop where
  numbered : ∃ tokens, List.Forall₂ (fun t => Numbered pre (t % 2 ^ 32)) tokens names ∧
    tokens.Pairwise (· < ·) ∧ ∀ t ∈ tokens, s.issued < t ∧ t ≤ last
  free : ∀ n ∈ names, n ∉ s.reserved

/-- Names that the supply gives while it counts up to `last`, each with its own number. -/
structure Gives (s : NameSupply) (pre : String) (last : Nat) (names : List String) : Prop where
  numbered : ∃ tokens, List.Forall₂ (Numbered pre) tokens names ∧ tokens.Pairwise (· < ·) ∧
    ∀ t ∈ tokens, s.issued < t ∧ t ≤ last
  free : ∀ n ∈ names, n ∉ s.reserved

section
variable {s : NameSupply} {pre : String} {middle last : Nat} {names others : List String}

namespace Draws

theorem nil : s.Draws pre last [] :=
  ⟨⟨[], .nil, .nil, fun _ ht => by cases ht⟩, fun _ hn => by cases hn⟩

theorem draw {wanted : UInt32 → String} (h : IsNumbering pre wanted)
    (hlt : (s.draw wanted).2.issued < s.issued + 2 ^ 32) :
    s.Draws pre (s.draw wanted).2.issued [(s.draw wanted).1] := by
  have htoken := h (.ofNat (s.draw wanted).2.issued)
  rw [UInt32.toNat_ofNat'] at htoken
  refine ⟨⟨[_], .cons htoken .nil, List.pairwise_singleton .., ?_⟩, ?_⟩
  · intro t ht
    obtain rfl := List.mem_singleton.mp ht
    exact ⟨lt_search .., Nat.le_refl _⟩
  · intro n hn
    obtain rfl := List.mem_singleton.mp hn
    exact search_free wanted s.reserved h s.issued hlt

theorem append (hfirst : s.Draws pre middle names)
    (hsecond : { s with issued := middle }.Draws pre last others) (hle : s.issued ≤ middle)
    (hlast : middle ≤ last) : s.Draws pre last (names ++ others) := by
  obtain ⟨⟨ts, hnames, hts, hrange⟩, hfree⟩ := hfirst
  obtain ⟨⟨us, hothers, hus, hrange'⟩, hfree'⟩ := hsecond
  refine ⟨⟨ts ++ us, List.rel_append hnames hothers, ?_, ?_⟩, ?_⟩
  · refine List.pairwise_append.mpr ⟨hts, hus, fun t ht u hu => ?_⟩
    exact (hrange t ht).2.trans_lt (hrange' u hu).1
  · intro t ht
    obtain ht | ht := List.mem_append.mp ht
    · exact ⟨(hrange t ht).1, (hrange t ht).2.trans hlast⟩
    · exact ⟨hle.trans_lt (hrange' t ht).1, (hrange' t ht).2⟩
  · intro n hn
    exact (List.mem_append.mp hn).elim (hfree n) (hfree' n)

/-- Counting does not come back to where it began, so the names are distinct. -/
theorem nodup (h : s.Draws pre last names) (hlast : last < s.issued + 2 ^ 32) : names.Nodup := by
  obtain ⟨⟨tokens, hnames, hlt, hrange⟩, -⟩ := h
  have hnear : tokens.Pairwise fun t u => t < u ∧ u < t + 2 ^ 32 := by
    refine List.Pairwise.imp_of_mem (fun ht hu htu => ⟨htu, ?_⟩) hlt
    have ht := hrange _ ht
    have hu := hrange _ hu
    omega
  refine pairwise_of_forall₂ hnames hnear ?_
  rintro t n u m htn hum ⟨htu, hut⟩ rfl
  have htoken := htn.token_eq hum
  omega

theorem gives (h : s.Draws pre last names) (hlast : last < 2 ^ 32) : s.Gives pre last names := by
  obtain ⟨⟨tokens, hnames, hlt, hrange⟩, hfree⟩ := h
  refine ⟨⟨tokens, ?_, hlt, hrange⟩, hfree⟩
  refine List.forall₂_iff_get.mpr ⟨hnames.length_eq, fun i hi hi' => ?_⟩
  have htoken := (List.forall₂_iff_get.mp hnames).2 i hi hi'
  have hle := (hrange _ (List.get_mem tokens ⟨i, hi⟩)).2
  rwa [Nat.mod_eq_of_lt (hle.trans_lt hlast)] at htoken

end Draws

namespace Gives

theorem pairwise (h : s.Gives pre last names) : names.Pairwise (Precedes pre) := by
  obtain ⟨⟨tokens, hnames, hlt, -⟩, -⟩ := h
  exact pairwise_of_forall₂ hnames hlt fun t n u m htn hum htu => ⟨t, u, htn, hum, htu⟩

theorem nodup (h : s.Gives pre last names) : names.Nodup :=
  h.pairwise.imp fun hlt heq => (heq ▸ hlt).irrefl

end Gives

end

end NameSupply

end OutcomeControl
