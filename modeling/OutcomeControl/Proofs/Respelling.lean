import Mathlib.Data.List.Forall2
import Mathlib.Data.List.Nodup
import Mathlib.Logic.Relation
import OutcomeControl.Proofs.Conformance

/-! Reading does not depend on how a tree is spelled.

A record may be spelled as an object whose members stand in any order, with members that are no
fields among them and without those that say what their absence says, or as the array of its fields;
a variant that carries nothing may be spelled as an object. `Json.Respelling` is one such change at
any depth, and the tree that is decoded is the same after any number of them
(`Formatted.decode_respelled`). -/

namespace OutcomeControl

namespace Json

/-! ### Room

What is read with some room is read with any room that is enough for the value. -/

theorem depth_le_of_mem_items {j : Json} {js : List Json} (hj : j ∈ js) : j.depth ≤ depthItems js := by
  induction js with
  | nil => cases hj
  | cons i is ih =>
    rcases List.mem_cons.mp hj with rfl | hj
    · exact Nat.le_max_left ..
    · exact (ih hj).trans (Nat.le_max_right ..)

theorem depth_le_of_mem_members {m : Spelling × Json} {members : List (Spelling × Json)}
    (hm : m ∈ members) : m.2.depth ≤ depthMembers members := by
  induction members with
  | nil => cases hm
  | cons n ns ih =>
    rcases List.mem_cons.mp hm with rfl | hm
    · exact Nat.le_max_left ..
    · exact (ih hm).trans (Nat.le_max_right ..)

mutual
theorem readHead_of_depth {h : Head} {nullable : Bool} {room more : Nat} : (j : Json) → {v : Value} →
    readHead h nullable room j = .ok v → j.depth ≤ more → readHead h nullable more j = .ok v
  | .null, v, hv, _ | .bool _, v, hv, _ | .number _, v, hv, _ | .string none, v, hv, _
  | .string (some _), v, hv, _ | .broken, v, hv, _ => by simpa only [readHead] using hv
  | .array items, v, hv, hmore => by
    obtain ⟨more, rfl⟩ := Nat.exists_eq_add_one.mpr (Nat.zero_lt_of_lt hmore)
    cases room with
    | zero => cases h <;> cases hv
    | succ room =>
      have hitems := Nat.le_of_succ_le_succ hmore
      cases h with
      | list item =>
        obtain ⟨w, hw, rfl⟩ := Except.of_map_ok hv
        rw [readHead, readItems_of_depth items hw hitems]
        rfl
      | tuple shapes =>
        obtain ⟨w, hw, rfl⟩ := Except.of_map_ok hv
        rw [readHead, readTuple_of_depth items hw hitems]
        rfl
      | record fields =>
        obtain ⟨w, hw, rfl⟩ := Except.of_map_ok hv
        rw [readHead, readFields_of_depth items hw hitems]
        rfl
      | _ => cases hv
  | .object members, v, hv, hmore => by
    obtain ⟨more, rfl⟩ := Nat.exists_eq_add_one.mpr (Nat.zero_lt_of_lt hmore)
    cases room with
    | zero => cases h <;> cases hv
    | succ room =>
      have hmembers := Nat.le_of_succ_le_succ hmore
      cases h with
      | record fields =>
        obtain ⟨found, hfound, hv⟩ := Except.of_bind_ok hv
        rw [readHead, readMembers_of_depth members hfound hmembers]
        exact hv
      | choice variants =>
        obtain ⟨w, hw, rfl⟩ := Except.of_map_ok hv
        rw [readHead, readVariant_of_depth members hw hmembers]
        rfl
      | _ => cases hv
theorem readItems_of_depth {item : Shape} {room more : Nat} : (js : List Json) → {vs : Value} →
    readItems item room js = .ok vs → depthItems js ≤ more → readItems item more js = .ok vs
  | [], vs, hvs, _ => hvs
  | j :: js, vs, hvs, hmore => by
    obtain ⟨w, hw, hvs⟩ := Except.of_bind_ok hvs
    obtain ⟨ws, hws, hvs⟩ := Except.of_bind_ok hvs
    obtain ⟨hj, hjs⟩ := Nat.max_le.mp hmore
    rw [readItems, readHead_of_depth j hw hj, readItems_of_depth js hws hjs]
    exact hvs
theorem readTuple_of_depth {shapes : List Shape} {room more : Nat} : (js : List Json) → {vs : Value} →
    readTuple shapes room js = .ok vs → depthItems js ≤ more → readTuple shapes more js = .ok vs
  | [], vs, hvs, _ => by simpa only [readTuple] using hvs
  | j :: js, vs, hvs, hmore => by
    cases shapes with
    | nil => cases hvs
    | cons s ss =>
      obtain ⟨w, hw, hvs⟩ := Except.of_bind_ok hvs
      obtain ⟨ws, hws, hvs⟩ := Except.of_bind_ok hvs
      obtain ⟨hj, hjs⟩ := Nat.max_le.mp hmore
      rw [readTuple, readHead_of_depth j hw hj, readTuple_of_depth js hws hjs]
      exact hvs
theorem readFields_of_depth {fields : List Field} {room more : Nat} : (js : List Json) → {vs : Value} →
    readFields fields room js = .ok vs → depthItems js ≤ more → readFields fields more js = .ok vs
  | [], vs, hvs, _ => hvs
  | j :: js, vs, hvs, hmore => by
    cases fields with
    | nil => cases hvs
    | cons f fs =>
      obtain ⟨w, hw, hvs⟩ := Except.of_bind_ok hvs
      obtain ⟨ws, hws, hvs⟩ := Except.of_bind_ok hvs
      obtain ⟨hj, hjs⟩ := Nat.max_le.mp hmore
      rw [readFields, readHead_of_depth j hw hj, readFields_of_depth js hws hjs]
      exact hvs
theorem readMembers_of_depth {fields : List Field} {room more : Nat} :
    (members : List (Spelling × Json)) → {found all : List (String × Value)} →
      readMembers fields room found members = .ok all → depthMembers members ≤ more →
      readMembers fields more found members = .ok all
  | [], found, all, hall, _ => hall
  | (none, _) :: _, found, all, hall, _ => by cases hall
  | (some key, j) :: rest, found, all, hall, hmore => by
    obtain ⟨hj, hrest⟩ := Nat.max_le.mp hmore
    simp only [readMembers] at hall ⊢
    split at hall
    next hnone =>
      split at hall
      next hintact =>
        rw [if_pos hintact]
        exact readMembers_of_depth rest hall hrest
      next => cases hall
    next f hf =>
      split at hall
      next => cases hall
      next hnew =>
        obtain ⟨w, hw, hall⟩ := Except.of_bind_ok hall
        rw [if_neg hnew, readHead_of_depth j hw hj]
        exact readMembers_of_depth rest hall hrest
theorem readVariant_of_depth {variants : List (String × Shape)} {room more : Nat} :
    (members : List (Spelling × Json)) → {v : Value} → readVariant variants room members = .ok v →
      depthMembers members ≤ more → readVariant variants more members = .ok v
  | [], v, hv, _ => by cases hv
  | (none, _) :: _, v, hv, _ => by cases hv
  | (some name, j) :: rest, v, hv, hmore => by
    obtain ⟨hj, -⟩ := Nat.max_le.mp hmore
    simp only [readVariant] at hv ⊢
    split at hv
    next => cases hv
    next s hs =>
      obtain ⟨w, hw, hv⟩ := Except.of_bind_ok hv
      rw [readHead_of_depth j hw hj]
      exact hv
end

/-! ### The members of an object

Whether the members of an object can be read, and what they give, are said without their order. -/

section
variable {fields : List Field} {room : Nat} {members : List (Spelling × Json)}

/-- Some member gives the field this value. -/
def Gives (room : Nat) (members : List (Spelling × Json)) (f : Field) (v : Value) : Prop :=
  ∃ j, (some f.name, j) ∈ members ∧ readHead f.shape.head f.shape.nullable room j = .ok v

/-- The names of the fields that have a member, as often as they have one. -/
def given (fields : List Field) (members : List (Spelling × Json)) : List String :=
  members.filterMap fun m => m.1.filter fun key => fields.any (·.name = key)

theorem mem_given {key : String} :
    key ∈ given fields members ↔ (∃ f ∈ fields, f.name = key) ∧ ∃ j, (some key, j) ∈ members := by
  simp only [given, List.mem_filterMap, Option.filter_eq_some_iff, List.any_eq_true, decide_eq_true_eq]
  constructor
  · rintro ⟨⟨_, j⟩, hm, rfl, hf⟩
    exact ⟨hf, j, hm⟩
  · rintro ⟨hf, j, hm⟩
    exact ⟨(some key, j), hm, rfl, hf⟩

/-- The members can be read: each field has one at most, and it can be read as the field. -/
structure Readable (fields : List Field) (room : Nat) (members : List (Spelling × Json)) : Prop where
  spelled : ∀ m ∈ members, ∃ key, m.1 = some key ∧
    ((∀ f ∈ fields, f.name ≠ key) → m.2.intact = true)
  read : ∀ f ∈ fields, ∀ j, (some f.name, j) ∈ members →
    ∃ v, readHead f.shape.head f.shape.nullable room j = .ok v
  once : (given fields members).Nodup

theorem given_cons_field {f : Field} (hf : f ∈ fields) (j : Json) :
    given fields ((some f.name, j) :: members) = f.name :: given fields members := by
  have hany : fields.any (·.name = f.name) = true :=
    List.any_eq_true.mpr ⟨f, hf, decide_eq_true rfl⟩
  exact List.filterMap_cons_some (if_pos hany)

theorem given_cons_other {key : String} (hkey : ∀ f ∈ fields, f.name ≠ key) (j : Json) :
    given fields ((some key, j) :: members) = given fields members := by
  have hany : fields.any (·.name = key) = false :=
    List.any_eq_false.mpr fun f hf => by simpa using hkey f hf
  exact List.filterMap_cons_none (if_neg (Bool.eq_false_iff.mp hany))

theorem readable_cons_field (hnodup : (fields.map (·.name)).Nodup) {f : Field} (hf : f ∈ fields)
    (j : Json) :
    Readable fields room ((some f.name, j) :: members) ↔
      (∃ v, readHead f.shape.head f.shape.nullable room j = .ok v) ∧
        f.name ∉ given fields members ∧ Readable fields room members := by
  constructor
  · rintro ⟨hspelled, hread, honce⟩
    rw [given_cons_field hf, List.nodup_cons] at honce
    exact ⟨hread f hf j (List.mem_cons_self ..), honce.1,
      fun m hm => hspelled m (List.mem_cons_of_mem _ hm),
      fun g hg i hi => hread g hg i (List.mem_cons_of_mem _ hi), honce.2⟩
  · rintro ⟨hj, hnew, hrest⟩
    refine ⟨?_, ?_, ?_⟩
    · intro m hm
      rcases List.mem_cons.mp hm with rfl | hm
      · exact ⟨f.name, rfl, fun hother => absurd rfl (hother f hf)⟩
      · exact hrest.spelled m hm
    · intro g hg i hi
      rcases List.mem_cons.mp hi with heq | hi
      · obtain ⟨hname, rfl⟩ := Prod.mk.inj heq
        -- There is only one field of this name.
        obtain rfl := List.inj_on_of_nodup_map hnodup hg hf (Option.some.inj hname)
        exact hj
      · exact hrest.read g hg i hi
    · rw [given_cons_field hf, List.nodup_cons]
      exact ⟨hnew, hrest.once⟩

theorem readable_cons_other {key : String} (hkey : ∀ f ∈ fields, f.name ≠ key) (j : Json) :
    Readable fields room ((some key, j) :: members) ↔
      j.intact = true ∧ Readable fields room members := by
  constructor
  · rintro ⟨hspelled, hread, honce⟩
    rw [given_cons_other hkey] at honce
    obtain ⟨_, ⟨⟩, hintact⟩ := hspelled _ (List.mem_cons_self ..)
    exact ⟨hintact hkey, fun m hm => hspelled m (List.mem_cons_of_mem _ hm),
      fun g hg i hi => hread g hg i (List.mem_cons_of_mem _ hi), honce⟩
  · rintro ⟨hintact, hrest⟩
    refine ⟨?_, ?_, ?_⟩
    · intro m hm
      rcases List.mem_cons.mp hm with rfl | hm
      · exact ⟨key, rfl, fun _ => hintact⟩
      · exact hrest.spelled m hm
    · intro g hg i hi
      rcases List.mem_cons.mp hi with heq | hi
      · exact absurd (Option.some.inj (Prod.mk.inj heq).1) (hkey g hg)
      · exact hrest.read g hg i hi
    · rw [given_cons_other hkey]
      exact hrest.once

/-- A member is a field's, or no field has its name. -/
theorem find?_cases (fields : List Field) (key : String) :
    (∃ f ∈ fields, f.name = key) ∨
      (∀ f ∈ fields, f.name ≠ key) ∧ fields.find? (·.name = key) = none := by
  cases hfind : fields.find? (·.name = key) with
  | none =>
    have hnone := List.find?_eq_none.mp hfind
    exact .inr ⟨fun f hf => by simpa using hnone f hf, rfl⟩
  | some f =>
    exact .inl ⟨f, List.mem_of_find?_eq_some hfind, by simpa using List.find?_some hfind⟩

/-- The members are read exactly if they can be, and none of them repeats what was found before. -/
theorem exists_readMembers_iff (hnodup : (fields.map (·.name)).Nodup) {found : List (String × Value)} :
    (∃ all, readMembers fields room found members = .ok all) ↔
      Readable fields room members ∧ ∀ key ∈ given fields members, found.lookup key = none := by
  induction members generalizing found with
  | nil => exact ⟨fun _ => ⟨⟨nofun, nofun, .nil⟩, nofun⟩, fun _ => ⟨found, rfl⟩⟩
  | cons m rest ih =>
    obtain ⟨key?, j⟩ := m
    cases key? with
    | none =>
      constructor
      · rintro ⟨all, hall⟩
        cases hall
      · rintro ⟨hreadable, -⟩
        obtain ⟨key, hkey, -⟩ := hreadable.spelled _ (List.mem_cons_self ..)
        cases hkey
    | some key =>
      rcases find?_cases fields key with ⟨f, hf, rfl⟩ | ⟨hkey, hfind⟩
      · rw [readable_cons_field hnodup hf, given_cons_field hf, List.forall_mem_cons]
        simp only [readMembers, find?_name hnodup hf]
        cases hfound : found.lookup f.name with
        | some w => simp
        | none =>
          constructor
          · rintro ⟨all, hall⟩
            obtain ⟨v, hv, hall⟩ := Except.of_bind_ok hall
            obtain ⟨hrest, hnone⟩ := ih.mp ⟨all, hall⟩
            refine ⟨⟨⟨v, hv⟩, fun hmem => ?_, hrest⟩, rfl, fun key hkey => ?_⟩
            · have := hnone f.name hmem
              rw [List.lookup_cons_self] at this
              cases this
            · have := hnone key hkey
              rw [List.lookup_cons] at this
              split at this
              · cases this
              · exact this
          · rintro ⟨⟨⟨v, hv⟩, hnew, hrest⟩, -, hnone⟩
            rw [hv]
            refine ih.mpr ⟨hrest, fun key hkey => ?_⟩
            have hne : key ≠ f.name := fun heq => hnew (heq ▸ hkey)
            rw [List.lookup_cons, beq_false_of_ne hne]
            exact hnone key hkey
      · rw [readable_cons_other hkey, given_cons_other hkey, and_assoc, ← ih]
        simp only [readMembers, hfind]
        by_cases hintact : j.intact = true
        · simp [hintact]
        · simp [hintact]

/-- What is found for a field is what was found before, or what its member gives. -/
theorem lookup_of_readMembers (hnodup : (fields.map (·.name)).Nodup) {found all : List (String × Value)}
    (hall : readMembers fields room found members = .ok all) {f : Field} (hf : f ∈ fields) (v : Value) :
    all.lookup f.name = some v ↔ found.lookup f.name = some v ∨ Gives room members f v := by
  induction members generalizing found with
  | nil =>
    cases hall
    simp [Gives]
  | cons m rest ih =>
    obtain ⟨key?, j⟩ := m
    cases key? with
    | none => cases hall
    | some key =>
      have hgives : Gives room ((some key, j) :: rest) f v ↔
          key = f.name ∧ readHead f.shape.head f.shape.nullable room j = .ok v ∨ Gives room rest f v := by
        simp only [Gives, List.mem_cons, Prod.mk.injEq, Option.some.injEq, or_and_right, exists_or]
        refine or_congr_left ⟨?_, ?_⟩
        · rintro ⟨_, ⟨hkey, rfl⟩, hv⟩
          exact ⟨hkey.symm, hv⟩
        · rintro ⟨hkey, hv⟩
          exact ⟨j, ⟨hkey.symm, rfl⟩, hv⟩
      rw [hgives]
      rcases find?_cases fields key with ⟨g, hg, rfl⟩ | ⟨hkey, hfind⟩
      · simp only [readMembers, find?_name hnodup hg] at hall
        split at hall
        next => cases hall
        next hnew =>
          obtain ⟨w, hw, hall⟩ := Except.of_bind_ok hall
          by_cases hname : f.name = g.name
          · obtain rfl := List.inj_on_of_nodup_map hnodup hf hg hname
            rw [ih hall, List.lookup_cons_self, Option.not_isSome_iff_eq_none.mp hnew, hw]
            simp
          · rw [ih hall, List.lookup_cons, beq_false_of_ne hname]
            simp [Ne.symm hname]
      · simp only [readMembers, hfind] at hall
        split at hall
        next =>
          rw [ih hall]
          simp [Ne.symm (hkey f hf)]
        next => cases hall

theorem lookup_iff_gives (hnodup : (fields.map (·.name)).Nodup) {all : List (String × Value)}
    (hall : readMembers fields room [] members = .ok all) {f : Field} (hf : f ∈ fields) (v : Value) :
    all.lookup f.name = some v ↔ Gives room members f v := by
  simpa using lookup_of_readMembers hnodup hall hf v

theorem lookup_eq_none (hnodup : (fields.map (·.name)).Nodup) {all : List (String × Value)}
    (hall : readMembers fields room [] members = .ok all) {f : Field} (hf : f ∈ fields)
    (hgone : f.name ∉ given fields members) : all.lookup f.name = none := by
  refine Option.eq_none_iff_forall_ne_some.mpr fun v hv => hgone ?_
  obtain ⟨j, hj, -⟩ := (lookup_iff_gives hnodup hall hf v).mp hv
  exact mem_given.mpr ⟨⟨f, hf, rfl⟩, j, hj⟩

/-- Of what was found, a record takes for each field the value that stands for it. -/
theorem fillFields_congr {found others : List (String × Value)}
    (hsame : ∀ f ∈ fields, (found.lookup f.name).or f.absent = (others.lookup f.name).or f.absent) :
    fillFields found fields = fillFields others fields := by
  induction fields with
  | nil => rfl
  | cons f fs ih =>
    obtain ⟨hf, hfs⟩ := List.forall_mem_cons.mp hsame
    simp only [fillFields, ih hfs]
    cases hfound : found.lookup f.name <;> cases hother : others.lookup f.name <;>
      cases habsent : f.absent <;> simp_all

/-- Other members are read as the same record if they give the same values, up to a field that has no
member any more and whose value is what its absence says. -/
theorem readHead_of_members {others : List (Spelling × Json)} (hnodup : (fields.map (·.name)).Nodup)
    {nullable : Bool} {v : Value}
    (hv : readHead (.record fields) nullable (room + 1) (.object members) = .ok v)
    (hothers : Readable fields room others)
    (hgives : ∀ f ∈ fields, ∀ w, Gives room others f w → Gives room members f w)
    (hgiven : ∀ f ∈ fields, ∀ w, Gives room members f w →
      Gives room others f w ∨ f.name ∉ given fields others ∧ f.absent = some w) :
    readHead (.record fields) nullable (room + 1) (.object others) = .ok v := by
  obtain ⟨found, hfound, hv⟩ := Except.of_bind_ok hv
  obtain ⟨all, hall⟩ : ∃ all, readMembers fields room [] others = .ok all :=
    (exists_readMembers_iff hnodup).mpr ⟨hothers, fun _ _ => List.lookup_nil⟩
  have hfill : fillFields all fields = fillFields found fields := by
    refine fillFields_congr fun f hf => ?_
    have hfrom := lookup_iff_gives hnodup hfound hf
    have hto := lookup_iff_gives hnodup hall hf
    cases hw : found.lookup f.name with
    | none =>
      have hnone : all.lookup f.name = none := by
        refine Option.eq_none_iff_forall_ne_some.mpr fun w hsome => ?_
        rw [(hfrom w).mpr (hgives f hf w ((hto w).mp hsome))] at hw
        cases hw
      rw [hnone]
    | some w =>
      rcases hgiven f hf w ((hfrom w).mp hw) with hother | ⟨hgone, habsent⟩
      · rw [(hto w).mpr hother]
      · rw [lookup_eq_none hnodup hall hf hgone, habsent]
        rfl
  rw [readHead, hall]
  change (fillFields all fields >>= _) = _
  rw [hfill]
  exact hv

theorem Readable.of_readHead (hnodup : (fields.map (·.name)).Nodup) {nullable : Bool} {v : Value}
    (hv : readHead (.record fields) nullable (room + 1) (.object members) = .ok v) :
    Readable fields room members := by
  obtain ⟨found, hfound, -⟩ := Except.of_bind_ok hv
  exact ((exists_readMembers_iff hnodup).mp ⟨found, hfound⟩).1

theorem Readable.perm {others : List (Spelling × Json)} (h : Readable fields room members)
    (hperm : members.Perm others) : Readable fields room others where
  spelled m hm := h.spelled m (hperm.mem_iff.mpr hm)
  read f hf j hj := h.read f hf j (hperm.mem_iff.mpr hj)
  once := (hperm.filterMap _).nodup_iff.mp h.once

end

/-! ### Changes of spelling -/

/-- The value is read so, if there is enough room. -/
def Spells (h : Head) (nullable : Bool) (j : Json) (v : Value) : Prop :=
  ∃ room, readHead h nullable room j = .ok v

section
variable {h : Head} {nullable : Bool} {j : Json} {v w : Value}

theorem Spells.readHead (hv : Spells h nullable j v) {room : Nat} (hroom : j.depth ≤ room) :
    readHead h nullable room j = .ok v := by
  obtain ⟨_, hv⟩ := hv
  exact readHead_of_depth j hv hroom

theorem Spells.unique (hv : Spells h nullable j v) (hw : Spells h nullable j w) : v = w := by
  have heq := hv.readHead (Nat.le_refl _)
  rw [hw.readHead (Nat.le_refl _)] at heq
  exact (Except.ok.inj heq).symm

end

/-- The value spells what the absence of the field says. -/
def SpellsAbsent (f : Field) (j : Json) : Prop :=
  ∃ v, f.absent = some v ∧ Spells f.shape.head f.shape.nullable j v

/-- One change of spelling, at any depth of a value that is read as the head says. -/
inductive Respelling : Head → Json → Json → Prop
  /-- The members of an object stand in another order. -/
  | reorder {fields : List Field} {members others : List (Spelling × Json)}
      (hperm : members.Perm others) : Respelling (.record fields) (.object members) (.object others)
  /-- A member that says what the absence of its field says is left out. -/
  | leaveOut {fields : List Field} {f : Field} {before after : List (Spelling × Json)} {j : Json}
      (hf : f ∈ fields) (hj : SpellsAbsent f j) :
      Respelling (.record fields) (.object (before ++ (some f.name, j) :: after))
        (.object (before ++ after))
  /-- A member is added whose name no field has. -/
  | add {fields : List Field} {key : String} {before after : List (Spelling × Json)} {j : Json}
      (hkey : ∀ f ∈ fields, f.name ≠ key) (hj : j.intact = true) :
      Respelling (.record fields) (.object (before ++ after))
        (.object (before ++ (some key, j) :: after))
  /-- An object becomes the array of all fields in their order. -/
  | positional {fields : List Field} {members : List (Spelling × Json)} {items : List Json}
      (hitems : List.Forall₂ (fun f j => (some f.name, j) ∈ members ∨
        f.name ∉ given fields members ∧ SpellsAbsent f j) fields items) :
      Respelling (.record fields) (.object members) (.array items)
  /-- An array that ends early becomes the array of all fields. -/
  | complete {fields : List Field} {items more : List Json}
      (hmore : List.Forall₂ SpellsAbsent (fields.drop items.length) more) :
      Respelling (.record fields) (.array items) (.array (items ++ more))
  /-- The name of a variant that carries nothing becomes an object. -/
  | tagged {variants : List (String × Shape)} {name : String}
      (hname : variants.lookup name = some .null) :
      Respelling (.choice variants) (.text name) (.object [(some name, .null)])
  | item {item : Shape} {before after : List Json} {j j' : Json} (hj : Respelling item.head j j') :
      Respelling (.list item) (.array (before ++ j :: after)) (.array (before ++ j' :: after))
  | component {shapes : List Shape} {s : Shape} {before after : List Json} {j j' : Json}
      (hs : shapes[before.length]? = some s) (hj : Respelling s.head j j') :
      Respelling (.tuple shapes) (.array (before ++ j :: after)) (.array (before ++ j' :: after))
  | field {fields : List Field} {f : Field} {before after : List Json} {j j' : Json}
      (hf : fields[before.length]? = some f) (hj : Respelling f.shape.head j j') :
      Respelling (.record fields) (.array (before ++ j :: after)) (.array (before ++ j' :: after))
  | member {fields : List Field} {f : Field} {before after : List (Spelling × Json)} {j j' : Json}
      (hf : f ∈ fields) (hj : Respelling f.shape.head j j') :
      Respelling (.record fields) (.object (before ++ (some f.name, j) :: after))
        (.object (before ++ (some f.name, j') :: after))
  | payload {variants : List (String × Shape)} {name : String} {s : Shape} {j j' : Json}
      (hs : variants.lookup name = some s) (hj : Respelling s.head j j') :
      Respelling (.choice variants) (.object [(some name, j)]) (.object [(some name, j')])

/-! #### One item after the other -/

section
variable {room : Nat} {before after : List Json} {j j' : Json} {vs : Value}

theorem readItems_replace {item : Shape}
    (hj : ∀ w, readHead item.head item.nullable room j = .ok w →
      readHead item.head item.nullable room j' = .ok w)
    (hvs : readItems item room (before ++ j :: after) = .ok vs) :
    readItems item room (before ++ j' :: after) = .ok vs := by
  induction before generalizing vs with
  | nil =>
    obtain ⟨w, hw, hvs⟩ := Except.of_bind_ok hvs
    rw [List.nil_append, readItems, hj w hw]
    exact hvs
  | cons i is ih =>
    obtain ⟨w, hw, hvs⟩ := Except.of_bind_ok hvs
    obtain ⟨ws, hws, hvs⟩ := Except.of_bind_ok hvs
    rw [List.cons_append, readItems, hw, ih hws]
    exact hvs

theorem readTuple_replace {shapes : List Shape} {s : Shape} (hs : shapes[before.length]? = some s)
    (hj : ∀ w, readHead s.head s.nullable room j = .ok w → readHead s.head s.nullable room j' = .ok w)
    (hvs : readTuple shapes room (before ++ j :: after) = .ok vs) :
    readTuple shapes room (before ++ j' :: after) = .ok vs := by
  induction before generalizing shapes vs with
  | nil =>
    cases shapes with
    | nil => cases hs
    | cons t ts =>
      cases hs
      obtain ⟨w, hw, hvs⟩ := Except.of_bind_ok hvs
      rw [List.nil_append, readTuple, hj w hw]
      exact hvs
  | cons i is ih =>
    cases shapes with
    | nil => cases hs
    | cons t ts =>
      obtain ⟨w, hw, hvs⟩ := Except.of_bind_ok hvs
      obtain ⟨ws, hws, hvs⟩ := Except.of_bind_ok hvs
      rw [List.cons_append, readTuple, hw, ih hs hws]
      exact hvs

theorem readFields_replace {fields : List Field} {f : Field} (hf : fields[before.length]? = some f)
    (hj : ∀ w, readHead f.shape.head f.shape.nullable room j = .ok w →
      readHead f.shape.head f.shape.nullable room j' = .ok w)
    (hvs : readFields fields room (before ++ j :: after) = .ok vs) :
    readFields fields room (before ++ j' :: after) = .ok vs := by
  induction before generalizing fields vs with
  | nil =>
    cases fields with
    | nil => cases hf
    | cons g gs =>
      cases hf
      obtain ⟨w, hw, hvs⟩ := Except.of_bind_ok hvs
      rw [List.nil_append, readFields, hj w hw]
      exact hvs
  | cons i is ih =>
    cases fields with
    | nil => cases hf
    | cons g gs =>
      obtain ⟨w, hw, hvs⟩ := Except.of_bind_ok hvs
      obtain ⟨ws, hws, hvs⟩ := Except.of_bind_ok hvs
      rw [List.cons_append, readFields, hw, ih hf hws]
      exact hvs

/-- An array of all fields is read as the record that is made of what was found. -/
theorem readFields_of_fillFields {fields : List Field} {items : List Json}
    {found : List (String × Value)}
    (hitems : List.Forall₂ (fun f j => ∀ w, (found.lookup f.name).or f.absent = some w →
      Spells f.shape.head f.shape.nullable j w) fields items)
    (hroom : depthItems items ≤ room) (hvs : fillFields found fields = .ok vs) :
    readFields fields room items = .ok vs := by
  induction hitems generalizing vs with
  | nil => exact hvs
  | @cons f j fs js hj _ ih =>
    obtain ⟨hfirst, hrest⟩ := Nat.max_le.mp hroom
    simp only [fillFields] at hvs
    split at hvs
    next w hw =>
      obtain ⟨ws, hws, hvs⟩ := Except.of_bind_ok hvs
      rw [readFields, (hj w (by rw [hw]; rfl)).readHead hfirst, ih hrest hws]
      exact hvs
    next w hnone habsent =>
      obtain ⟨ws, hws, hvs⟩ := Except.of_bind_ok hvs
      rw [readFields, (hj w (by rw [hnone, habsent]; rfl)).readHead hfirst, ih hrest hws]
      exact hvs
    next => cases hvs

theorem fillFields_of_omittedFields {fields : List Field} (hvs : omittedFields fields = .ok vs) :
    fillFields [] fields = .ok vs := by
  induction fields generalizing vs with
  | nil => exact hvs
  | cons f fs ih =>
    simp only [omittedFields] at hvs
    split at hvs
    next w hw =>
      obtain ⟨ws, hws, hvs⟩ := Except.of_bind_ok hvs
      simp only [fillFields, List.lookup_nil, hw, ih hws]
      exact hvs
    next => cases hvs

/-- Fields that an array leaves out can be written down. -/
theorem readFields_append {fields : List Field} {items more : List Json}
    (hmore : List.Forall₂ SpellsAbsent (fields.drop items.length) more)
    (hroom : depthItems (items ++ more) ≤ room) (hvs : readFields fields room items = .ok vs) :
    readFields fields room (items ++ more) = .ok vs := by
  induction items generalizing fields vs with
  | nil =>
    refine readFields_of_fillFields (hmore.imp ?_) hroom (fillFields_of_omittedFields hvs)
    rintro f i ⟨w, habsent, hi⟩ w' hw'
    rw [List.lookup_nil, Option.none_or, habsent] at hw'
    exact Option.some.inj hw' ▸ hi
  | cons i is ih =>
    cases fields with
    | nil => cases hvs
    | cons f fs =>
      obtain ⟨w, hw, hvs⟩ := Except.of_bind_ok hvs
      obtain ⟨ws, hws, hvs⟩ := Except.of_bind_ok hvs
      rw [List.cons_append, readFields, hw, ih hmore (Nat.max_le.mp hroom).2 hws]
      exact hvs

end

/-! #### The members of a record -/

section
variable {fields : List Field} {nullable : Bool} {room : Nat} {v : Value}
  {members before after : List (Spelling × Json)} {j : Json}

theorem readHead_reorder {others : List (Spelling × Json)} (hnodup : (fields.map (·.name)).Nodup)
    (hv : readHead (.record fields) nullable (room + 1) (.object members) = .ok v)
    (hperm : members.Perm others) :
    readHead (.record fields) nullable (room + 1) (.object others) = .ok v := by
  have hgives : ∀ f w, Gives room members f w ↔ Gives room others f w :=
    fun f w => by simp only [Gives, hperm.mem_iff]
  exact readHead_of_members hnodup hv ((Readable.of_readHead hnodup hv).perm hperm)
    (fun f _ w => (hgives f w).mpr) fun f _ w hw => .inl ((hgives f w).mp hw)

/-- A member may as well stand first. -/
theorem readHead_middle (hnodup : (fields.map (·.name)).Nodup) (m : Spelling × Json) :
    readHead (.record fields) nullable (room + 1) (.object (before ++ m :: after)) = .ok v ↔
      readHead (.record fields) nullable (room + 1) (.object (m :: (before ++ after))) = .ok v :=
  ⟨fun hv => readHead_reorder hnodup hv List.perm_middle,
    fun hv => readHead_reorder hnodup hv List.perm_middle.symm⟩

theorem readHead_leaveOut (hnodup : (fields.map (·.name)).Nodup) {f : Field} (hf : f ∈ fields)
    (hj : SpellsAbsent f j)
    (hv : readHead (.record fields) nullable (room + 1) (.object ((some f.name, j) :: members)) = .ok v) :
    readHead (.record fields) nullable (room + 1) (.object members) = .ok v := by
  obtain ⟨-, hgone, hreadable⟩ :=
    (readable_cons_field hnodup hf j).mp (Readable.of_readHead hnodup hv)
  obtain ⟨absent, habsent, hspells⟩ := hj
  refine readHead_of_members hnodup hv hreadable ?_ ?_
  · rintro g _ w ⟨k, hk, hw⟩
    exact ⟨k, List.mem_cons_of_mem _ hk, hw⟩
  · rintro g hg w ⟨k, hk, hw⟩
    rcases List.mem_cons.mp hk with heq | hk
    · obtain ⟨hname, rfl⟩ := Prod.mk.inj heq
      obtain rfl := List.inj_on_of_nodup_map hnodup hg hf (Option.some.inj hname)
      rw [hspells.unique ⟨room, hw⟩] at habsent
      exact .inr ⟨hgone, habsent⟩
    · exact .inl ⟨k, hk, hw⟩

theorem readHead_add (hnodup : (fields.map (·.name)).Nodup) {key : String}
    (hkey : ∀ f ∈ fields, f.name ≠ key) (hj : j.intact = true)
    (hv : readHead (.record fields) nullable (room + 1) (.object members) = .ok v) :
    readHead (.record fields) nullable (room + 1) (.object ((some key, j) :: members)) = .ok v := by
  have hreadable := (readable_cons_other hkey j).mpr ⟨hj, Readable.of_readHead hnodup hv⟩
  refine readHead_of_members hnodup hv hreadable ?_ ?_
  · rintro g hg w ⟨k, hk, hw⟩
    rcases List.mem_cons.mp hk with heq | hk
    · exact absurd (Option.some.inj (Prod.mk.inj heq).1) (hkey g hg)
    · exact ⟨k, hk, hw⟩
  · rintro g _ w ⟨k, hk, hw⟩
    exact .inl ⟨k, List.mem_cons_of_mem _ hk, hw⟩

theorem readHead_member (hnodup : (fields.map (·.name)).Nodup) {f : Field} (hf : f ∈ fields) {j' : Json}
    (hj : ∀ w, readHead f.shape.head f.shape.nullable room j = .ok w →
      readHead f.shape.head f.shape.nullable room j' = .ok w)
    (hv : readHead (.record fields) nullable (room + 1) (.object ((some f.name, j) :: members)) = .ok v) :
    readHead (.record fields) nullable (room + 1) (.object ((some f.name, j') :: members)) = .ok v := by
  obtain ⟨⟨u, hu⟩, hnew, hreadable⟩ :=
    (readable_cons_field hnodup hf j).mp (Readable.of_readHead hnodup hv)
  refine readHead_of_members hnodup hv
    ((readable_cons_field hnodup hf j').mpr ⟨⟨u, hj u hu⟩, hnew, hreadable⟩) ?_ ?_
  · rintro g hg w ⟨k, hk, hw⟩
    rcases List.mem_cons.mp hk with heq | hk
    · obtain ⟨hname, rfl⟩ := Prod.mk.inj heq
      obtain rfl := List.inj_on_of_nodup_map hnodup hg hf (Option.some.inj hname)
      rw [hj u hu] at hw
      exact ⟨j, List.mem_cons_self .., Except.ok.inj hw ▸ hu⟩
    · exact ⟨k, List.mem_cons_of_mem _ hk, hw⟩
  · rintro g hg w ⟨k, hk, hw⟩
    rcases List.mem_cons.mp hk with heq | hk
    · obtain ⟨hname, rfl⟩ := Prod.mk.inj heq
      obtain rfl := List.inj_on_of_nodup_map hnodup hg hf (Option.some.inj hname)
      exact .inl ⟨j', List.mem_cons_self .., hj w hw⟩
    · exact .inl ⟨k, List.mem_cons_of_mem _ hk, hw⟩

theorem readHead_positional (hnodup : (fields.map (·.name)).Nodup) {items : List Json}
    (hitems : List.Forall₂ (fun f j => (some f.name, j) ∈ members ∨
      f.name ∉ given fields members ∧ SpellsAbsent f j) fields items)
    (hroom : depthItems items ≤ room)
    (hv : readHead (.record fields) nullable (room + 1) (.object members) = .ok v) :
    readHead (.record fields) nullable (room + 1) (.array items) = .ok v := by
  have hreadable := Readable.of_readHead hnodup hv
  obtain ⟨found, hfound, hv⟩ := Except.of_bind_ok hv
  obtain ⟨vs, hvs, hv⟩ := Except.of_bind_ok hv
  have hread : List.Forall₂ (fun f j => ∀ w, (found.lookup f.name).or f.absent = some w →
      Spells f.shape.head f.shape.nullable j w) fields items := by
    refine ((List.forall₂_and_left fields items).mpr ⟨fun f hf => hf, hitems⟩).imp ?_
    rintro f i ⟨hf, hmem | ⟨hgone, absent, habsent, hspells⟩⟩ w hw
    · obtain ⟨u, hu⟩ := hreadable.read f hf i hmem
      rw [(lookup_iff_gives hnodup hfound hf u).mpr ⟨i, hmem, hu⟩] at hw
      exact ⟨room, Option.some.inj hw ▸ hu⟩
    · rw [lookup_eq_none hnodup hfound hf hgone, Option.none_or, habsent] at hw
      exact Option.some.inj hw ▸ hspells
  rw [readHead, readFields_of_fillFields hread hroom hvs]
  exact hv

end

/-! #### One step and many -/

section
variable {h : Head} {j j' : Json} {v : Value} {nullable : Bool}

/-- A change of spelling does not change what is read. -/
theorem Respelling.readHead (hstep : Respelling h j j') (hproper : h.IsProper) {room : Nat}
    (hroom : j'.depth ≤ room) (hv : readHead h nullable room j = .ok v) :
    readHead h nullable room j' = .ok v := by
  induction hstep generalizing nullable room v with
  | reorder hperm =>
    cases room with
    | zero => cases hroom
    | succ room => exact readHead_reorder hproper hv hperm
  | leaveOut hf hj =>
    cases room with
    | zero => cases hroom
    | succ room => exact readHead_leaveOut hproper hf hj ((readHead_middle hproper _).mp hv)
  | add hkey hj =>
    cases room with
    | zero => cases hroom
    | succ room => exact (readHead_middle hproper _).mpr (readHead_add hproper hkey hj hv)
  | positional hitems =>
    cases room with
    | zero => cases hroom
    | succ room => exact readHead_positional hproper hitems (Nat.le_of_succ_le_succ hroom) hv
  | complete hmore =>
    cases room with
    | zero => cases hroom
    | succ room =>
      obtain ⟨w, hw, rfl⟩ := Except.of_map_ok hv
      rw [Json.readHead, readFields_append hmore (Nat.le_of_succ_le_succ hroom) hw]
      rfl
  | tagged hname =>
    cases room with
    | zero => cases hroom
    | succ room =>
      obtain ⟨w, hw, rfl⟩ := Except.of_map_ok hv
      simp only [readString, hname] at hw
      cases hw
      simp only [Json.readHead, readVariant, hname]
      rfl
  | @item item before after i i' _ ih =>
    cases room with
    | zero => cases hroom
    | succ room =>
      have hdepth : i'.depth ≤ room :=
        (depth_le_of_mem_items (by simp)).trans (Nat.le_of_succ_le_succ hroom)
      obtain ⟨w, hw, rfl⟩ := Except.of_map_ok hv
      rw [Json.readHead, readItems_replace (fun _ => ih item.head_isProper hdepth) hw]
      rfl
  | @component shapes s before after i i' hs _ ih =>
    cases room with
    | zero => cases hroom
    | succ room =>
      have hdepth : i'.depth ≤ room :=
        (depth_le_of_mem_items (by simp)).trans (Nat.le_of_succ_le_succ hroom)
      obtain ⟨w, hw, rfl⟩ := Except.of_map_ok hv
      rw [Json.readHead, readTuple_replace hs (fun _ => ih s.head_isProper hdepth) hw]
      rfl
  | @field fields f before after i i' hf _ ih =>
    cases room with
    | zero => cases hroom
    | succ room =>
      have hdepth : i'.depth ≤ room :=
        (depth_le_of_mem_items (by simp)).trans (Nat.le_of_succ_le_succ hroom)
      obtain ⟨w, hw, rfl⟩ := Except.of_map_ok hv
      rw [Json.readHead, readFields_replace hf (fun _ => ih f.shape.head_isProper hdepth) hw]
      rfl
  | @member fields f before after i i' hf _ ih =>
    cases room with
    | zero => cases hroom
    | succ room =>
      have hmem : (some f.name, i') ∈ before ++ (some f.name, i') :: after := by simp
      have hdepth : i'.depth ≤ room :=
        (depth_le_of_mem_members hmem).trans (Nat.le_of_succ_le_succ hroom)
      exact (readHead_middle hproper _).mpr (readHead_member hproper hf
        (fun _ => ih f.shape.head_isProper hdepth) ((readHead_middle hproper _).mp hv))
  | @payload variants name s i i' hs _ ih =>
    cases room with
    | zero => cases hroom
    | succ room =>
      have hdepth : i'.depth ≤ room :=
        (depth_le_of_mem_members (List.mem_singleton_self _)).trans (Nat.le_of_succ_le_succ hroom)
      obtain ⟨w, hw, rfl⟩ := Except.of_map_ok hv
      simp only [readVariant, hs] at hw
      obtain ⟨u, hu, hw⟩ := Except.of_bind_ok hw
      simp only [Json.readHead, readVariant, hs, ih s.head_isProper hdepth hu]
      cases hw
      rfl

theorem Respelling.spells (hsteps : Relation.ReflTransGen (Respelling h) j j') (hproper : h.IsProper)
    (hv : Spells h nullable j v) : Spells h nullable j' v := by
  induction hsteps with
  | refl => exact hv
  | @tail i i' _ hstep ih =>
    exact ⟨max i.depth i'.depth, hstep.readHead hproper (Nat.le_max_right ..)
      (ih.readHead (Nat.le_max_left ..))⟩

end

end Json

namespace Formatted

/-- **What is read and decoded does not depend on how it is spelled.** -/
theorem decode_respelled {j j' : Json} (hdepth : j'.depth < 128) :
    (∀ (s : Shape) (v : Value), Relation.ReflTransGen (Json.Respelling s.head) j j' →
      j.readAs s = .ok v → j'.readAs s = .ok v) ∧
    (∀ (α : Type) [Formatted α] (a : α),
      Relation.ReflTransGen (Json.Respelling (shape α).head) j j' →
      decode j = .ok a → decode j' = .ok a) := by
  have hread : ∀ (s : Shape) (v : Value), Relation.ReflTransGen (Json.Respelling s.head) j j' →
      j.readAs s = .ok v → j'.readAs s = .ok v := by
    intro s v hsteps hv
    have hspells := Json.Respelling.spells hsteps s.head_isProper ⟨nestingLimit, hv⟩
    exact hspells.readHead (Nat.le_of_lt_succ hdepth)
  refine ⟨hread, ?_⟩
  intro α _ a hsteps ha
  obtain ⟨v, hv, ha⟩ := Except.of_bind_ok ha
  rw [decode, hread (shape α) v hsteps hv]
  exact ha

end Formatted

namespace Sample
open Json

/-- A signature whose members all stand there. -/
def plainSignature : Json :=
  .object [(some "type_parameters", .array []), (some "argument_type", .text "Unit"),
    (some "return_type",
      .object [(some "UserDefined", .object [(some "namespace", .text "A"), (some "name", .text "T")])]),
    (some "information", .object [])]

/-- The same signature: a name as an array, a bare variant as an object, a default left out, and a
member that is no field in front of the others. -/
def oddSignature : Json :=
  .object [(some "note", .bool true), (some "argument_type", .object [(some "Unit", .null)]),
    (some "return_type", .object [(some "UserDefined", .array [.text "A", .text "T"])]),
    (some "type_parameters", .array [])]

theorem oddSignature_respells :
    Relation.ReflTransGen (Respelling (Formatted.shape Signature).head) plainSignature oddSignature := by
  refine .head (@Respelling.member _ ⟨"return_type", .named .ty, none⟩
    [(some "type_parameters", .array []), (some "argument_type", .text "Unit")]
    [(some "information", .object [])] _ (.object [(some "UserDefined", .array [.text "A", .text "T"])])
    (by simp) (.payload rfl (.positional (.cons (.inl (by simp)) (.cons (.inl (by simp)) .nil))))) ?_
  refine .head (@Respelling.member _ ⟨"argument_type", .named .ty, none⟩
    [(some "type_parameters", .array [])] [_, _] _ (.object [(some "Unit", .null)])
    (by simp) (.tagged rfl)) ?_
  refine .head (@Respelling.leaveOut _ ⟨"information", .named .information, some Kind.emptyRecord⟩
    [_, _, _] [] _ (by simp) ⟨_, rfl, 1, rfl⟩) ?_
  refine .head (@Respelling.add _ "note" [] [_, _, _] (.bool true) (by simp) rfl) ?_
  exact .single (.reorder (.cons _ (List.perm_append_singleton _ [_, _]).symm))

theorem oddSignature_decoded :
    plainSignature ≠ oddSignature ∧
      Formatted.decode plainSignature = .ok
        ({ argument := .unit, result := .custom ⟨"A", "T"⟩ } : Signature) ∧
      Formatted.decode oddSignature = .ok
        ({ argument := .unit, result := .custom ⟨"A", "T"⟩ } : Signature) := by
  have hplain : Formatted.decode plainSignature = .ok
      ({ argument := .unit, result := .custom ⟨"A", "T"⟩ } : Signature) := rfl
  refine ⟨by simp [plainSignature, oddSignature], hplain, ?_⟩
  exact (Formatted.decode_respelled (by decide)).2 Signature _ oddSignature_respells hplain

end Sample

end OutcomeControl
