import Mathlib.Combinatorics.Enumerative.DoubleCounting
import Mathlib.Order.Bounds.Defs
import OutcomeControl.Proofs.Freshness

/-! How many numbers are drawn.

A name is found by a loop that draws one number after the other and has no bound of its own
(`NameSupply.Retries`). It ends, because different numbers give different names, and it ends at the
least number with a free name (`NameSupply.fresh_least`).

Over a whole run every number that is drawn stands in a generated name, or it stands in a reserved one
behind one of the two prefixes. A reserved name tells at most one number for each prefix, so
`Compilation.lower_budget` bounds the numbers of a run by the names that it generates and twice the
names that are reserved. -/

namespace OutcomeControl

namespace NameSupply

/-! ### The loop -/

/-- Draws the next number, counted in 32 bits. -/
def next (s : NameSupply) : UInt32 × NameSupply :=
  (.ofNat (s.issued + 1), { s with issued := s.issued + 1 })

/-- Numbers are drawn until one has a free name: the numbers that were drawn, the name and the supply
that is left. -/
inductive Retries (wanted : UInt32 → String) :
    NameSupply → List UInt32 → String × NameSupply → Prop where
  | free {s : NameSupply} : wanted s.next.1 ∉ s.reserved →
    Retries wanted s [s.next.1] (wanted s.next.1, s.next.2)
  | taken {s : NameSupply} {tried : List UInt32} {out : String × NameSupply} :
    wanted s.next.1 ∈ s.reserved → Retries wanted s.next.2 tried out →
    Retries wanted s (s.next.1 :: tried) out

/-- The loop passes over `n` numbers whose names are taken. -/
theorem Retries.of_skipped {wanted : UInt32 → String} (n : Nat) {s : NameSupply}
    (hskipped : ∀ j, s.issued < j → j ≤ s.issued + n → wanted (.ofNat j) ∈ s.reserved)
    (hfree : wanted (.ofNat (s.issued + n + 1)) ∉ s.reserved) :
    ∃ tried, Retries wanted s tried
      (wanted (.ofNat (s.issued + n + 1)), { s with issued := s.issued + n + 1 }) := by
  induction n generalizing s with
  | zero => exact ⟨_, .free hfree⟩
  | succ n ih =>
    have hcount : s.next.2.issued + n + 1 = s.issued + (n + 1) + 1 := by
      change s.issued + 1 + n + 1 = _
      omega
    obtain ⟨tried, htried⟩ := ih (s := s.next.2)
      (fun j hlt hle => hskipped j (Nat.lt_of_succ_lt hlt)
        (Nat.le_trans hle (Nat.le_of_eq (Nat.succ.inj hcount))))
      (by rw [hcount]; exact hfree)
    rw [hcount] at htried
    exact ⟨_, .taken (hskipped _ (Nat.lt_succ_self _) (by omega)) htried⟩

/-- Where a number with a free name is left, the loop ends with the name that is drawn. -/
theorem Ends.retries {s : NameSupply} {pre : String} {wanted : UInt32 → String}
    (hends : s.Ends wanted) (h : IsNumbering pre wanted) :
    ∃ tried, Retries wanted s tried (s.draw wanted) := by
  have hfree := hends.draw_notMem h
  have hskipped := (search_spec wanted s.reserved s.reserved.length s.issued).1
  obtain ⟨n, hn⟩ := Nat.exists_eq_add_of_lt
    (lt_search wanted s.reserved s.reserved.length s.issued)
  simp only [draw] at hfree ⊢
  rw [hn] at hfree hskipped ⊢
  exact Retries.of_skipped n (fun j hlt hle => hskipped j hlt (Nat.lt_succ_of_le hle)) hfree

/-! ### The least free number -/

section
variable {s : NameSupply} {pre : String} {wanted : UInt32 → String}

/-- One of the next `n + 1` numbers has a free name when `n` names are reserved. -/
theorem exists_free (h : IsNumbering pre wanted) (hcard : s.reserved.toFinset.card < 2 ^ 32) :
    ∃ j, s.issued < j ∧ j ≤ s.issued + s.reserved.toFinset.card + 1 ∧
      wanted (.ofNat j) ∉ s.reserved := by
  rw [List.card_toFinset] at hcard ⊢
  simpa only [List.mem_dedup] using
    exists_notMem_of_numbering wanted s.reserved.dedup h s.issued hcard

theorem ends_of_card_lt (h : IsNumbering pre wanted) (hcard : s.reserved.toFinset.card < 2 ^ 32) :
    s.Ends wanted := by
  obtain ⟨j, -, -, hfree⟩ := exists_free h hcard
  exact ⟨_, hfree⟩

/-- A number with a free name is not passed over. -/
theorem issued_draw_le {j : Nat} (hlt : s.issued < j) (hfree : wanted (.ofNat j) ∉ s.reserved) :
    (s.draw wanted).2.issued ≤ j := by
  by_contra hgt
  exact hfree ((search_spec wanted s.reserved s.reserved.length s.issued).1 j hlt
    (Nat.lt_of_not_le hgt))

/-- As long as counting stays below `2 ^ 32`, what is drawn is the name of the least number after
those issued that has a free one, and the loop ends there. -/
theorem draw_least (name : Nat → String) (h : IsNumbering pre wanted)
    (hname : ∀ t : UInt32, wanted t = name t.toNat)
    (hcard : s.issued + s.reserved.toFinset.card + 1 < 2 ^ 32) :
    ∃ t ≤ s.issued + s.reserved.toFinset.card + 1,
      IsLeast {t | s.issued < t ∧ name t ∉ s.reserved} t ∧
      s.draw wanted = (name t, { s with issued := t }) ∧
      ∃ tried, Retries wanted s tried (name t, { s with issued := t }) := by
  have hends : s.Ends wanted := ends_of_card_lt h (by omega)
  obtain ⟨j, hlt, hle, hfree⟩ := exists_free (s := s) h (by omega)
  have hbound := (issued_draw_le hlt hfree).trans hle
  have hnat : ∀ i < 2 ^ 32, wanted (.ofNat i) = name i := by
    intro i hi
    rw [hname, UInt32.toNat_ofNat_of_lt' hi]
  have hdraw : s.draw wanted =
      (name (s.draw wanted).2.issued, { s with issued := (s.draw wanted).2.issued }) := by
    rw [← hnat _ (hbound.trans_lt hcard)]
    rfl
  refine ⟨_, hbound, ⟨⟨lt_search .., ?_⟩, fun i hi => ?_⟩, hdraw, hdraw ▸ hends.retries h⟩
  · have hnot := hends.draw_notMem h
    rwa [hdraw] at hnot
  · by_cases hsmall : i < 2 ^ 32
    · exact issued_draw_le hi.1 (by rw [hnat i hsmall]; exact hi.2)
    · omega

end

/-- **The search for a free name ends and passes over as little as possible.** With `k` numbers issued
and `n` names reserved, where counting up to `k + n + 1` stays below `2 ^ 32`, a fresh name has the
least number after `k` that makes it free, which is at most `k + n + 1`. The loop that draws numbers one
by one ends there, the count is then that number, and nothing else of the supply changes. -/
theorem fresh_least (s : NameSupply)
    (h : s.issued + s.reserved.toFinset.card + 1 < 2 ^ 32) :
    (∀ enclosing : QualifiedName, ∃ t ≤ s.issued + s.reserved.toFinset.card + 1,
      IsLeast {t | s.issued < t ∧
        s.callablePrefix ++ toString t ++ "_" ++ enclosing.name ∉ s.reserved} t ∧
      s.freshCallable enclosing =
        (⟨enclosing.space, s.callablePrefix ++ toString t ++ "_" ++ enclosing.name⟩,
          { s with issued := t }) ∧
      ∃ tried, Retries (s.callableName enclosing.name) s tried
        (s.callablePrefix ++ toString t ++ "_" ++ enclosing.name, { s with issued := t })) ∧
    ∃ t ≤ s.issued + s.reserved.toFinset.card + 1,
      IsLeast {t | s.issued < t ∧ s.variablePrefix ++ toString t ++ "__" ∉ s.reserved} t ∧
      s.freshVariable = (s.variablePrefix ++ toString t ++ "__", { s with issued := t }) ∧
      ∃ tried, Retries s.variableName s tried
        (s.variablePrefix ++ toString t ++ "__", { s with issued := t }) := by
  refine ⟨fun enclosing => ?_, draw_least _ s.isNumbering_variableName (fun _ => rfl) h⟩
  obtain ⟨t, hle, hleast, hdraw, hretries⟩ := draw_least
    (fun t => s.callablePrefix ++ toString t ++ "_" ++ enclosing.name)
    (s.isNumbering_callableName enclosing.name) (fun _ => rfl) h
  refine ⟨t, hle, hleast, ?_, hretries⟩
  rw [freshCallable, hdraw]
  rfl

end NameSupply

namespace Sample

/-- A prefix that ends in a digit, and the names of the next two numbers taken. -/
def halfTaken : NameSupply :=
  { issued := 1
    reserved := ["_ctrl12_Main", "_ctrl13_Main"]
    callablePrefix := "_ctrl1"
    variablePrefix := "__v" }

end Sample

/-- The numbers 2 and 3 are passed over. -/
theorem Sample.halfTaken_least :
    halfTaken.issued + halfTaken.reserved.toFinset.card + 1 < 2 ^ 32 ∧
      halfTaken.freshCallable ⟨"Sample", "Main"⟩ =
        (⟨"Sample", "_ctrl14_Main"⟩, { halfTaken with issued := 4 }) ∧
      IsLeast {t | 1 < t ∧ "_ctrl1" ++ toString t ++ "_" ++ "Main" ∉ halfTaken.reserved} 4 := by
  have hcount : halfTaken.issued + halfTaken.reserved.toFinset.card + 1 < 2 ^ 32 := by
    decide +kernel
  obtain ⟨t, -, hleast, hfresh, -⟩ :=
    (NameSupply.fresh_least halfTaken hcount).1 ⟨"Sample", "Main"⟩
  have hfour : (halfTaken.freshCallable ⟨"Sample", "Main"⟩).2.issued = 4 := by decide +kernel
  obtain rfl : t = 4 := by rwa [hfresh] at hfour
  exact ⟨hcount, hfresh, hleast⟩

namespace NameSupply

/-! ### Loops in a row -/

/-- One of the two forms of names. -/
def Forms (s : NameSupply) (wanted : UInt32 → String) : Prop :=
  wanted = s.variableName ∨ ∃ enclosing, wanted = s.callableName enclosing

theorem Forms.isNumbering {s : NameSupply} {wanted : UInt32 → String} (h : s.Forms wanted) :
    IsNumbering s.callablePrefix wanted ∨ IsNumbering s.variablePrefix wanted := by
  obtain rfl | ⟨enclosing, rfl⟩ := h
  · exact .inr s.isNumbering_variableName
  · exact .inl (s.isNumbering_callableName enclosing)

/-- The supply gives names one after the other: the numbers that are drawn for them, the names and the
supply that is left. -/
inductive Serves : NameSupply → List UInt32 → List String → NameSupply → Prop where
  | nil (s : NameSupply) : Serves s [] [] s
  | cons {s s' s'' : NameSupply} {wanted : UInt32 → String} {name : String}
    {tried tokens : List UInt32} {names : List String} :
    s.Forms wanted → Retries wanted s tried (name, s') → Serves s' tokens names s'' →
    Serves s (tried ++ tokens) (name :: names) s''

theorem Serves.append {s s' s'' : NameSupply} {ts us : List UInt32} {names others : List String}
    (hfirst : s.Serves ts names s') (hsecond : s'.Serves us others s'') :
    s.Serves (ts ++ us) (names ++ others) s'' := by
  induction hfirst with
  | nil s => exact hsecond
  | cons hforms hretries _ ih =>
    rw [List.append_assoc]
    exact .cons hforms hretries (ih hsecond)

/-- The next `n` numbers, each counted in 32 bits. -/
def upcoming (s : NameSupply) (n : Nat) : List UInt32 :=
  (List.range' (s.issued + 1) n).map UInt32.ofNat

theorem upcoming_add (s : NameSupply) (m n : Nat) :
    s.upcoming (m + n) = s.upcoming m ++ { s with issued := s.issued + m }.upcoming n := by
  simp only [upcoming, ← List.map_append]
  rw [show s.issued + m + 1 = s.issued + 1 + m by omega, List.range'_append_1]

/-- Each number is drawn once and in order, and only the count changes. -/
theorem Retries.tried_eq {wanted : UInt32 → String} {s : NameSupply} {tried : List UInt32}
    {out : String × NameSupply} (h : Retries wanted s tried out) :
    tried = s.upcoming tried.length ∧ out.2 = { s with issued := s.issued + tried.length } := by
  induction h with
  | free _ => exact ⟨rfl, rfl⟩
  | @taken s tried out _ _ ih =>
    refine ⟨?_, ?_⟩
    · rw [List.length_cons, Nat.add_comm, upcoming_add]
      exact congrArg (_ :: ·) ih.1
    · rw [ih.2, List.length_cons, Nat.add_comm tried.length, ← Nat.add_assoc]
      rfl

theorem Serves.tokens_eq {s s' : NameSupply} {tokens : List UInt32} {names : List String}
    (h : s.Serves tokens names s') :
    tokens = s.upcoming tokens.length ∧ s' = { s with issued := s.issued + tokens.length } := by
  induction h with
  | nil s => exact ⟨rfl, rfl⟩
  | @cons s s' s'' wanted name tried tokens names _ hretries _ ih =>
    obtain ⟨htried, hleft⟩ := hretries.tried_eq
    obtain rfl : s' = _ := hleft
    rw [List.length_append, upcoming_add, ← htried]
    refine ⟨congrArg (tried ++ ·) ih.1, ?_⟩
    rw [ih.2, ← Nat.add_assoc]

/-! ### What a number is drawn for -/

/-- The number stands in a reserved name behind the prefix. -/
def Blocked (s : NameSupply) (pre : String) (token : UInt32) : Prop :=
  ∃ name ∈ s.reserved, Numbered pre token.toNat name

/-- All but the last number of a loop stand in reserved names. -/
theorem Retries.blocked {wanted : UInt32 → String} {pre : String} (hnumbering : IsNumbering pre wanted)
    {s : NameSupply} {tried : List UInt32} {out : String × NameSupply}
    (h : Retries wanted s tried out) : ∃ last, ∀ t ∈ tried, t = last ∨ s.Blocked pre t := by
  induction h with
  | @free s _ => exact ⟨s.next.1, fun t ht => .inl (List.mem_singleton.mp ht)⟩
  | taken htaken _ ih =>
    obtain ⟨last, hlast⟩ := ih
    refine ⟨last, fun t ht => ?_⟩
    obtain rfl | ht := List.mem_cons.mp ht
    · exact .inr ⟨_, htaken, hnumbering _⟩
    · exact hlast t ht

/-- Every number is drawn for a name that is given, or stands in a reserved one. -/
theorem Serves.charged {s s' : NameSupply} {tokens : List UInt32} {names : List String}
    (h : s.Serves tokens names s') :
    ∃ used : List UInt32, used.length = names.length ∧
      ∀ t ∈ tokens, t ∈ used ∨ s.Blocked s.callablePrefix t ∨ s.Blocked s.variablePrefix t := by
  induction h with
  | nil s => exact ⟨[], rfl, fun t ht => by cases ht⟩
  | @cons s s' s'' wanted name tried tokens names hforms hretries _ ih =>
    obtain ⟨used, hlength, hused⟩ := ih
    obtain rfl : s' = _ := hretries.tried_eq.2
    have hloop : ∃ last, ∀ t ∈ tried,
        t = last ∨ s.Blocked s.callablePrefix t ∨ s.Blocked s.variablePrefix t := by
      obtain hnumbering | hnumbering := hforms.isNumbering
      · exact (hretries.blocked hnumbering).imp fun _ h t ht => (h t ht).imp_right .inl
      · exact (hretries.blocked hnumbering).imp fun _ h t ht => (h t ht).imp_right .inr
    obtain ⟨last, hlast⟩ := hloop
    refine ⟨last :: used, congrArg (· + 1) hlength, fun t ht => ?_⟩
    obtain ht | ht := List.mem_append.mp ht
    · exact (hlast t ht).imp_left fun heq => List.mem_cons.mpr (.inl heq)
    · exact (hused t ht).imp_left (List.mem_cons_of_mem last)

/-- A reserved name tells at most one number behind the prefix. -/
theorem card_le_of_blocked {s : NameSupply} {pre : String} {tokens : Finset UInt32}
    (h : ∀ t ∈ tokens, s.Blocked pre t) : tokens.card ≤ s.reserved.toFinset.card := by
  refine Finset.card_le_card_of_forall_subsingleton (fun t name => Numbered pre t.toNat name)
    (fun t ht => ?_) fun name _ => ?_
  · obtain ⟨name, hmem, hname⟩ := h t ht
    exact ⟨name, List.mem_toFinset.mpr hmem, hname⟩
  · rintro t ⟨-, ht⟩ u ⟨-, hu⟩
    exact UInt32.toNat_inj.mp (ht.token_eq hu)

open Classical in
/-- Distinct numbers among those drawn are no more than the names that are given and twice the names
that are reserved. -/
theorem Serves.card_le {s s' : NameSupply} {tokens : List UInt32} {names : List String}
    (h : s.Serves tokens names s') (drawn : Finset UInt32) (hdrawn : ∀ t ∈ drawn, t ∈ tokens) :
    drawn.card ≤ names.length + 2 * s.reserved.toFinset.card := by
  obtain ⟨used, hlength, hcharged⟩ := h.charged
  let blocked (pre : String) := drawn.filter (s.Blocked pre ·)
  have hblocked (pre : String) : (blocked pre).card ≤ s.reserved.toFinset.card :=
    card_le_of_blocked fun t ht => (Finset.mem_filter.mp ht).2
  have hcover : drawn ⊆ used.toFinset ∪ (blocked s.callablePrefix ∪ blocked s.variablePrefix) := by
    intro t ht
    simp only [blocked, Finset.mem_union, List.mem_toFinset, Finset.mem_filter]
    exact (hcharged t (hdrawn t ht)).imp_right (Or.imp (⟨ht, ·⟩) (⟨ht, ·⟩))
  calc drawn.card
    _ ≤ used.toFinset.card + ((blocked s.callablePrefix).card + (blocked s.variablePrefix).card) :=
      (Finset.card_le_card hcover).trans
        ((Finset.card_union_le ..).trans (Nat.add_le_add_left (Finset.card_union_le ..) _))
    _ ≤ names.length + 2 * s.reserved.toFinset.card := by
      have hused := List.toFinset_card_le used
      have hcallable := hblocked s.callablePrefix
      have hvariable := hblocked s.variablePrefix
      omega

theorem nodup_upcoming (s : NameSupply) {n : Nat} (h : n ≤ 2 ^ 32) : (s.upcoming n).Nodup := by
  refine List.Nodup.map_on (fun i hi j hj heq => ?_) List.nodup_range'
  rw [List.mem_range'_1] at hi hj
  have htoken := congrArg UInt32.toNat heq
  simp only [UInt32.toNat_ofNat'] at htoken
  omega

/-- Below `2 ^ 32` the bound is on all numbers that are drawn. -/
theorem Serves.length_le {s s' : NameSupply} {tokens : List UInt32} {names : List String}
    (h : s.Serves tokens names s')
    (hbudget : names.length + 2 * s.reserved.toFinset.card < 2 ^ 32) :
    tokens.length ≤ names.length + 2 * s.reserved.toFinset.card := by
  by_contra hmore
  -- One number more than the bound is drawn, and so many in a row are still distinct.
  let first := tokens.take (names.length + 2 * s.reserved.toFinset.card + 1)
  have hlength : first.length = names.length + 2 * s.reserved.toFinset.card + 1 :=
    List.length_take_of_le (by omega)
  have hfirst : first.Nodup := by
    obtain ⟨rest, hrest⟩ := Nat.exists_eq_add_of_le (Nat.lt_of_not_le hmore)
    have htokens := h.tokens_eq.1
    rw [hrest, upcoming_add] at htokens
    have htake : first = s.upcoming (names.length + 2 * s.reserved.toFinset.card + 1) := by
      rw [show first = tokens.take _ from rfl, htokens]
      exact List.take_left' (by rw [upcoming, List.length_map, List.length_range'])
    rw [htake]
    exact s.nodup_upcoming hbudget
  have hle := h.card_le first.toFinset
    fun t ht => List.mem_of_mem_take (List.mem_toFinset.mp ht)
  rw [List.toFinset_card_of_nodup hfirst, hlength] at hle
  omega

/-- Below `2 ^ 32` each number is the count of the numbers drawn up to it. -/
theorem Serves.map_toNat {s s' : NameSupply} {tokens : List UInt32} {names : List String}
    (h : s.Serves tokens names s') (hlt : s.issued + tokens.length < 2 ^ 32) :
    tokens.map UInt32.toNat = List.range' (s.issued + 1) tokens.length := by
  have htokens := congrArg (List.map UInt32.toNat) h.tokens_eq.1
  rw [upcoming, List.map_map] at htokens
  refine htokens.trans ((List.map_congr_left fun k hk => ?_).trans (List.map_id _))
  have hsmall : k < 2 ^ 32 := by
    rw [List.mem_range'_1] at hk
    omega
  exact UInt32.toNat_ofNat_of_lt' hsmall

theorem exists_serves_draw {s : NameSupply} {wanted : UInt32 → String} (hforms : s.Forms wanted)
    (hcard : s.reserved.toFinset.card < 2 ^ 32) :
    ∃ tokens, s.Serves tokens [(s.draw wanted).1] (s.draw wanted).2 := by
  have hloop : ∃ tried, Retries wanted s tried (s.draw wanted) := by
    obtain hnumbering | hnumbering := hforms.isNumbering <;>
      exact (ends_of_card_lt hnumbering hcard).retries hnumbering
  obtain ⟨tried, hretries⟩ := hloop
  exact ⟨_, .cons hforms hretries (.nil _)⟩

end NameSupply

/-! ### Whole programs -/

/-- The name that was generated. -/
def Event.generated? : Event → Option String
  | .hoisted _ _ target _ => some target.name
  | .bound _ name => some name
  | .untested _ | .kept _ _ | .extended _ _ => none

/-- The names of the operations that were made and of the variables that were bound, in order. -/
def Lowered.generated {α : Type} (out : Lowered α) : List String :=
  out.report.filterMap Event.generated?

theorem Event.length_generated (events : List Event) :
    (events.filterMap Event.generated?).length =
      (events.filterMap Event.target?).length + (Event.variableNames events).length := by
  induction events with
  | nil => rfl
  | cons e es ih =>
    rw [Event.variableNames] at ih ⊢
    cases e <;>
      simp only [List.filterMap_cons, Event.generated?, Event.target?, Event.variable?,
        List.length_cons] <;> omega

/-- Later in the same run: the supply gave the names of the events in between. -/
def Progress.Serves (p q : Progress) : Prop :=
  ∃ events, q.report = p.report ++ events ∧ (p.names.reserved.toFinset.card < 2 ^ 32 →
    ∃ tokens, p.names.Serves tokens (events.filterMap Event.generated?) q.names)

namespace Progress.Serves

theorem refl (p : Progress) : p.Serves p := ⟨[], by simp, fun _ => ⟨[], .nil _⟩⟩

theorem trans {p q r : Progress} (hpq : p.Serves q) (hqr : q.Serves r) : p.Serves r := by
  obtain ⟨es, hes, hfirst⟩ := hpq
  obtain ⟨fs, hfs, hsecond⟩ := hqr
  refine ⟨es ++ fs, by rw [hfs, hes, List.append_assoc], fun hcard => ?_⟩
  obtain ⟨ts, hts⟩ := hfirst hcard
  obtain ⟨us, hus⟩ := hsecond (by rw [hts.tokens_eq.2]; exact hcard)
  rw [List.filterMap_append]
  exact ⟨ts ++ us, hts.append hus⟩

end Progress.Serves

section
variable (primitives : Primitives)

theorem conclude_serves (frame : Frame) (s : Statement) (p : Progress) :
    p.Serves ((conclude primitives frame s).run p).2 := by
  refine conclude_preorder primitives frame (fun _ _ _ => .trans) ?hoists ?stays ?binds s p
  case hoists =>
    exact fun body comments p =>
      ⟨[_], rfl, NameSupply.exists_serves_draw (.inr ⟨frame.name.name, rfl⟩)⟩
  case stays =>
    intro p event hstays
    refine ⟨[event], rfl, fun _ => ⟨[], ?_⟩⟩
    cases event with
    | untested callable | kept callable condition => exact .nil _
    | bound ty name | hoisted statements source target captured | extended space count => cases hstays
  case binds => exact fun s value p => ⟨[_], rfl, NameSupply.exists_serves_draw (.inl rfl)⟩

theorem Namespace.lower_serves (names : NameSupply) (ns : Namespace)
    (hcard : names.reserved.toFinset.card < 2 ^ 32) :
    ∃ tokens, names.Serves tokens (ns.lower primitives names).generated
      (ns.lower primitives names).names := by
  obtain ⟨elements, p, hchain, -, heq⟩ := ns.lower_chain primitives names
  have hserves := (hchain.run (S := fun _ p _ q => p.Serves q) fun e p =>
    e.lower_preorder primitives .refl (fun _ _ _ => .trans)
      (fun c _ => conclude_serves primitives (.ofCallable c)) p).preorder
        .refl (fun _ _ _ => .trans) fun _ _ _ _ h => h
  obtain ⟨events, hevents, htokens⟩ := hserves
  obtain rfl : p.report = events := hevents
  have hreport : (ns.lower primitives names).generated = p.report.filterMap Event.generated? := by
    rw [Lowered.generated, heq]
    cases p.hoisted.isEmpty <;> simp [Event.generated?]
  rw [hreport, heq]
  exact htokens hcard

theorem Namespace.lowerAll_serves (names : NameSupply) (nss : List Namespace)
    (hcard : names.reserved.toFinset.card < 2 ^ 32) :
    ∃ tokens, names.Serves tokens (Namespace.lowerAll primitives names nss).generated
      (Namespace.lowerAll primitives names nss).names := by
  induction nss generalizing names with
  | nil => exact ⟨[], .nil names⟩
  | cons ns nss ih =>
    obtain ⟨ts, hts⟩ := ns.lower_serves primitives names hcard
    have hleft : (ns.lower primitives names).names.reserved = names.reserved := by
      rw [hts.tokens_eq.2]
    obtain ⟨us, hus⟩ := ih _ (hleft ▸ hcard)
    rw [Lowered.generated, Namespace.lowerAll, List.filterMap_append]
    exact ⟨ts ++ us, hts.append hus⟩

end

theorem NameSupply.issued_forCompilation (c : Compilation) (settings : Settings) :
    (forCompilation c settings).issued = 0 := by
  have hfoldl : ∀ (names : List String) (s : NameSupply),
      (names.foldl reserve s).issued = s.issued := by
    intro names
    induction names with
    | nil => exact fun s => rfl
    | cons n names ih => exact fun s => ih _
  exact hfoldl c.names (.ofSettings settings)

/-- The generated names are what the program declares and introduces more than before. -/
theorem Compilation.length_generated (c : Compilation) (options : Options) :
    (c.lower options).result.callableNames.length + (c.lower options).result.bindings.length =
      c.callableNames.length + c.bindings.length + (c.lower options).generated.length := by
  have haccounts := Namespace.lowerAll_accounts options.primitives
    (.forCompilation c options.settings) c.namespaces
  have hcallables := haccounts.callables.length_eq
  have hbindings := haccounts.bindings.length_eq
  rw [List.length_append] at hcallables hbindings
  calc (c.lower options).result.callableNames.length + (c.lower options).result.bindings.length
    _ = (c.callableNames.length + (c.lower options).targets.length) +
        (c.bindings.length + (Event.variableNames (c.lower options).report).length) :=
      congrArg₂ (· + ·) hcallables hbindings
    _ = c.callableNames.length + c.bindings.length + (c.lower options).generated.length := by
      rw [Lowered.generated, Event.length_generated, Lowered.targets]
      omega

/-- **A run has a budget of numbers.** Let a run generate `g` names, which are the callables and the
variables that the program has more than before, and let `m` names be reserved. Then the 32-bit counter
ends at most at `g + 2 * m`. If this is below `2 ^ 32`, every name is found by a loop that ends, and the
numbers drawn in all loops together are `1`, `2` and so on without a carry out of 32 bits: each is the
count of the numbers drawn up to it, and none is drawn twice. -/
theorem Compilation.lower_budget (c : Compilation) (options : Options) :
    let supply := NameSupply.forCompilation c options.settings
    let out := c.lower options
    let budget := out.generated.length + 2 * supply.reserved.toFinset.card
    out.result.callableNames.length + out.result.bindings.length =
        c.callableNames.length + c.bindings.length + out.generated.length ∧
      (UInt32.ofNat out.names.issued).toNat ≤ budget ∧
      (budget < 2 ^ 32 → out.names.issued ≤ budget ∧
        ∃ tokens, supply.Serves tokens out.generated out.names ∧ tokens.length = out.names.issued ∧
          tokens.map UInt32.toNat = List.range' 1 tokens.length ∧ tokens.Nodup) := by
  intro supply out budget
  have hzero : supply.issued = 0 := NameSupply.issued_forCompilation c options.settings
  have hserved : budget < 2 ^ 32 → ∃ tokens, supply.Serves tokens out.generated out.names ∧
      tokens.length = out.names.issued ∧ tokens.length ≤ budget := by
    intro hbudget
    obtain ⟨tokens, hserves⟩ := Namespace.lowerAll_serves options.primitives supply c.namespaces
      (by omega)
    have hleft : out.names.issued = supply.issued + tokens.length :=
      congrArg NameSupply.issued hserves.tokens_eq.2
    exact ⟨tokens, hserves, by omega, hserves.length_le hbudget⟩
  refine ⟨c.length_generated options, ?_, fun hbudget => ?_⟩
  · by_cases hbudget : budget < 2 ^ 32
    · obtain ⟨tokens, -, hissued, hle⟩ := hserved hbudget
      rw [UInt32.toNat_ofNat']
      exact (Nat.mod_le _ _).trans (hissued ▸ hle)
    · exact (UInt32.toNat_lt _).le.trans (Nat.le_of_not_lt hbudget)
  · obtain ⟨tokens, hserves, hissued, hle⟩ := hserved hbudget
    have hcounts := hserves.map_toNat (by omega)
    rw [hzero, Nat.zero_add] at hcounts
    refine ⟨hissued ▸ hle, tokens, hserves, hissued, hcounts, ?_⟩
    exact .of_map UInt32.toNat (hcounts ▸ List.nodup_range')

/-- Five names are generated and one number is passed over. -/
theorem Sample.program_budget :
    (program.lower {}).generated.length = 5 ∧
      ∃ tokens, (NameSupply.forCompilation program {}).Serves tokens
        ["_ctrl2_Main", "_ctrl3_Main", "__classic_ctrl4__", "_ctrl5_Main", "_ctrl6_Main"]
        (program.lower {}).names ∧
      tokens.map UInt32.toNat = [1, 2, 3, 4, 5, 6] ∧ tokens.Nodup := by
  have hgenerated : (program.lower {}).generated =
      ["_ctrl2_Main", "_ctrl3_Main", "__classic_ctrl4__", "_ctrl5_Main", "_ctrl6_Main"] := by
    decide +kernel
  have hissued : (program.lower {}).names.issued = 6 := by decide +kernel
  obtain ⟨-, tokens, hserves, hlength, hcounts, hnodup⟩ :=
    (program.lower_budget {}).2.2 (by decide +kernel)
  rw [hlength, hissued] at hcounts
  exact ⟨congrArg List.length hgenerated, tokens, hgenerated ▸ hserves, hcounts, hnodup⟩

end OutcomeControl
