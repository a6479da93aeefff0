import OutcomeControl.Format.Reading
import OutcomeControl.Format.Writing

/-! What is written in a shape is read back in it.

A value has a shape if it is built the way the table of the format says (`Value.HasHead`). Written and
read again it is the same value, as long as no more arrays and objects are open at once than there is
room for; otherwise it is too deep, and nothing else can go wrong (`Value.readHead_writeHead`). The
doubles in it must have numbers that are read back, which not every finite double has
(`Double.Legible`). -/

namespace OutcomeControl

/-! ### Values that have a shape -/

namespace Value

/-- The doubles that occur in a value. -/
def doubles : Value → List Double
  | .double d => [d]
  | .cons v vs => v.doubles ++ vs.doubles
  | .tag _ payload => payload.doubles
  | .text _ | .int _ | .flag _ | .nil => []

mutual
/-- The value is what `h` asks for, or may be absent if `nullable`. -/
def HasHead (h : Head) (nullable : Bool) : Value → Prop
  | .text _ => nullable = false ∧ h = .text
  | .int i => nullable = false ∧ match h with
    | .word => 0 ≤ i ∧ i < wordBound
    | .integer => -integerBound ≤ i ∧ i < integerBound
    | _ => False
  | .double _ => nullable = false ∧ h = .double
  | .flag _ => nullable = false ∧ h = .flag
  | .nil => match nullable, h with
    | true, _ | false, .null | false, .list _ | false, .tuple [] | false, .record [] => True
    | _, _ => False
  | .cons v vs => match nullable, h with
    | true, h => vs = .nil ∧ h ≠ .null ∧ v.HasHead h false
    | false, .list item => v.HasHead item.head item.nullable ∧ vs.AreItems item
    | false, .tuple (s :: ss) => v.HasHead s.head s.nullable ∧ vs.AreTuple ss
    | false, .record (f :: fs) => v.HasHead f.shape.head f.shape.nullable ∧ vs.AreFields fs
    | false, _ => False
  | .tag name payload => nullable = false ∧ ∃ variants s,
    h = .choice variants ∧ variants.lookup name = some s ∧ payload.HasHead s.head s.nullable
def AreItems (item : Shape) : Value → Prop
  | .nil => True
  | .cons v vs => v.HasHead item.head item.nullable ∧ vs.AreItems item
  | _ => False
def AreTuple (shapes : List Shape) : Value → Prop
  | .nil => shapes = []
  | .cons v vs => match shapes with
    | s :: ss => v.HasHead s.head s.nullable ∧ vs.AreTuple ss
    | [] => False
  | _ => False
def AreFields (fields : List Field) : Value → Prop
  | .nil => fields = []
  | .cons v vs => match fields with
    | f :: fs => v.HasHead f.shape.head f.shape.nullable ∧ vs.AreFields fs
    | [] => False
  | _ => False
end

/-- The value is one of the shape. -/
def HasShape (s : Shape) (v : Value) : Prop := v.HasHead s.head s.nullable

end Value

/-- No two fields of a record have the same name. -/
def Head.IsProper : Head → Prop
  | .record fields => (fields.map (·.name)).Nodup
  | _ => True

instance : DecidablePred Head.IsProper
  | .record fields => inferInstanceAs (Decidable (fields.map (·.name)).Nodup)
  | .null | .text | .word | .integer | .double | .flag | .list _ | .tuple _ | .choice _ =>
    inferInstanceAs (Decidable True)

theorem Kind.head_isProper (k : Kind) : k.head.IsProper := by
  cases k <;> decide

theorem Shape.head_isProper (s : Shape) : s.head.IsProper := by
  induction s with
  | named k => exact k.head_isProper
  | optional inner ih => exact ih
  | _ => trivial

/-- The number of the double is read back as the double. Reading rounds twice, the digits and then what
they are scaled to by a power of ten, so a number of many digits may be read as a neighbour. -/
structure Double.Legible (d : Double) : Prop where
  finite : d.isFinite = true
  readsBack : (Numeral.ofDouble Numeral.jsonText d).toDouble? = some d

/-- `0.9452706955539223` is read as the double after the one that it was written for. -/
example : (⟨0x3FEE3FA85468AE3C⟩ : Double).isFinite = true ∧
    (Numeral.ofDouble Numeral.jsonText ⟨0x3FEE3FA85468AE3C⟩).toDouble? =
      some ⟨0x3FEE3FA85468AE3D⟩ := by
  decide +kernel

/-! ### Room -/

/-- The result, if no more than `room` arrays and objects are open at once. -/
def within {α : Type} (room depth : Nat) (a : α) : Except Fault α :=
  if depth ≤ room then .ok a else .error .tooDeep

section
variable {α β γ : Type} (room m n : Nat) (a : α)

@[simp] theorem within_zero : within room 0 a = .ok a := if_pos (Nat.zero_le _)

@[simp] theorem within_succ : within (room + 1) (n + 1) a = within room n a := by
  simp [within]

@[simp] theorem within_zero_succ : within 0 (n + 1) a = .error .tooDeep := rfl

@[simp] theorem within_map (f : α → β) : (within room n a).map f = within room n (f a) := by
  unfold within
  split <;> rfl

@[simp] theorem within_bind_pure (f : α → β) :
    (within room n a >>= fun x => pure (f x)) = within room n (f a) := by
  unfold within
  split <;> rfl

/-- A result whose own room is known, after another one. -/
theorem within_bind {f : α → Except Fault β} {b : β} (h : f a = within room n b) :
    (within room m a >>= f) = within room (max m n) b := by
  unfold within
  by_cases hm : m ≤ room
  · rw [if_pos hm]
    show f a = _
    rw [h]
    simp only [within, Nat.max_le, hm, true_and]
  · rw [if_neg hm, if_neg fun h => hm (Nat.le_trans (Nat.le_max_left m n) h)]
    rfl

end

/-! ### Reading one part after the other -/

namespace Json

variable {h : Head} {room m n : Nat} {j : Json} {v vs : Value}

theorem map_present (x : Except Fault Value) :
    x.map (present true) = (x.map (present false)).map fun v => .cons v .nil := by
  cases x <;> rfl

/-- A value that is there is read as it would be if it had to be there. -/
theorem readHead_nullable (hj : j ≠ .null) :
    readHead h true room j = (readHead h false room j).map fun v => .cons v .nil := by
  cases j with
  | null => exact absurd rfl hj
  | bool b => cases h <;> rfl
  | number n => exact map_present _
  | string s =>
    cases s with
    | none => rfl
    | some s => exact map_present _
  | array items =>
    cases room with
    | zero => cases h <;> rfl
    | succ room =>
      cases h with
      | list item => exact map_present _
      | tuple shapes => exact map_present _
      | record fields => exact map_present _
      | _ => rfl
  | object members =>
    cases room with
    | zero => cases h <;> rfl
    | succ room =>
      cases h with
      | record fields =>
        simp only [readHead]
        cases readMembers fields room [] members with
        | error f => rfl
        | ok found => exact map_present (fillFields found fields)
      | choice variants => exact map_present _
      | _ => rfl
  | broken => rfl

theorem readItems_cons {item : Shape} {js : List Json}
    (hj : readHead item.head item.nullable room j = within room m v)
    (hjs : readItems item room js = within room n vs) :
    readItems item room (j :: js) = within room (max m n) (.cons v vs) := by
  rw [readItems, hj]
  exact within_bind _ _ _ _ (by rw [hjs]; exact within_bind_pure ..)

theorem readTuple_cons {s : Shape} {ss : List Shape} {js : List Json}
    (hj : readHead s.head s.nullable room j = within room m v)
    (hjs : readTuple ss room js = within room n vs) :
    readTuple (s :: ss) room (j :: js) = within room (max m n) (.cons v vs) := by
  rw [readTuple, hj]
  exact within_bind _ _ _ _ (by rw [hjs]; exact within_bind_pure ..)

theorem readVariant_single {variants : List (String × Shape)} {name : String} {s : Shape}
    (hs : variants.lookup name = some s)
    (hj : readHead s.head s.nullable room j = within room n v) :
    readVariant variants room [(some name, j)] = within room n (.tag name v) := by
  simp only [readVariant, hs, hj]
  exact within_bind_pure ..

theorem find?_name {fields : List Field} (hd : (fields.map (·.name)).Nodup) {f : Field}
    (hf : f ∈ fields) : fields.find? (·.name = f.name) = some f := by
  induction fields with
  | nil => cases hf
  | cons g gs ih =>
    rw [List.map_cons, List.nodup_cons] at hd
    rw [List.find?_cons]
    rcases List.mem_cons.mp hf with rfl | hf
    · simp
    · have hne : g.name ≠ f.name := fun e => hd.1 (e ▸ List.mem_map_of_mem hf)
      simp [hne, ih hd.2 hf]

theorem readMembers_cons {fields : List Field} (hd : (fields.map (·.name)).Nodup) {f : Field}
    (hf : f ∈ fields) {found all : List (String × Value)} {rest : List (Spelling × Json)}
    (hfound : found.lookup f.name = none)
    (hj : readHead f.shape.head f.shape.nullable room j = within room m v)
    (hrest : readMembers fields room ((f.name, v) :: found) rest = within room n all) :
    readMembers fields room found ((some f.name, j) :: rest) = within room (max m n) all := by
  simp only [readMembers, find?_name hd hf, hfound, hj]
  exact within_bind _ _ _ _ hrest

theorem readHead_record {fields : List Field} {members : List (Spelling × Json)}
    {found : List (String × Value)}
    (hmembers : readMembers fields room [] members = within room n found)
    (hfill : fillFields found fields = .ok v) :
    readHead (.record fields) false (room + 1) (.object members) = within room n v := by
  rw [readHead, hmembers]
  refine (within_bind room n 0 found ?_).trans (by rw [Nat.max_zero])
  rw [hfill, within_zero]
  rfl

end Json

theorem Numeral.toInt?_ofInt (i : Int) : (Numeral.ofInt i).toInt? = some i := by
  unfold Numeral.ofInt Numeral.toInt?
  rw [if_neg (by simp)]
  by_cases hi : i < 0
  · have hne : i.natAbs ≠ 0 := by omega
    have habs : -(i.natAbs : Int) = i := by omega
    rw [if_pos (decide_eq_true hi), if_neg hne, habs]
  · have habs : (i.natAbs : Int) = i := by omega
    rw [if_neg (by simp only [hi]; decide), habs]

/-! ### Fields and what is found for them -/

namespace Value

/-- What an object that has a member for each of these fields gives, `found` before it. -/
def gather (found : List (String × Value)) (fields : List Field) : Value → List (String × Value)
  | .cons v vs => match fields with
    | f :: fs => vs.gather ((f.name, v) :: found) fs
    | [] => found
  | _ => found

theorem lookup_gather {key : String} {fields : List Field} (hkey : key ∉ fields.map (·.name))
    (found : List (String × Value)) (vs : Value) :
    (vs.gather found fields).lookup key = found.lookup key := by
  fun_induction gather found fields vs with
  | case1 found v vs f fs ih =>
    rw [List.map_cons, List.mem_cons, not_or] at hkey
    rw [ih hkey.2, List.lookup_cons, beq_false_of_ne hkey.1]
  | case2 | case3 => rfl

theorem lookup_cons_eq_none {f : Field} {fs : List Field} {found : List (String × Value)}
    (hf : f.name ∉ fs.map (·.name)) (hfound : ∀ g ∈ fs, found.lookup g.name = none) (v : Value) :
    ∀ g ∈ fs, List.lookup g.name ((f.name, v) :: found) = none := by
  intro g hg
  have hne : g.name ≠ f.name := fun e => hf (e ▸ List.mem_map_of_mem hg)
  rw [List.lookup_cons, beq_false_of_ne hne]
  exact hfound g hg

theorem fillFields_gather : {fields : List Field} → (fields.map (·.name)).Nodup →
    (found : List (String × Value)) → (vs : Value) → vs.AreFields fields →
    Json.fillFields (vs.gather found fields) fields = .ok vs
  | _, _, _, .nil, rfl => rfl
  | f :: fs, hd, found, .cons v vs, hv => by
    rw [List.map_cons, List.nodup_cons] at hd
    have hf : (gather found (f :: fs) (.cons v vs)).lookup f.name = some v := by
      rw [gather, lookup_gather hd.1, List.lookup_cons_self]
    have hfs := fillFields_gather hd.2 ((f.name, v) :: found) vs hv.2
    simp only [Json.fillFields, hf]
    rw [gather, hfs]
    rfl

/-! ### Writing and reading back -/

/-- What is there is never written as `null`. -/
theorem writeHead_ne_null {h : Head} {v : Value} (hh : h ≠ .null) (hv : v.HasHead h false)
    (hd : ∀ d ∈ v.doubles, d.Legible) : v.writeHead Double.json h false ≠ .null := by
  cases v with
  | text s => simp [writeHead, Json.text]
  | int i => simp [writeHead, Json.int]
  | double d => simp [writeHead, Double.json, (hd d (List.mem_singleton_self d)).finite]
  | flag b => simp [writeHead]
  | nil => cases h <;> simp_all [writeHead]
  | cons v vs =>
    match h, hv with
    | .list _, _ | .tuple (_ :: _), _ | .record (_ :: _), _ => simp [writeHead]
  | tag name payload =>
    obtain ⟨-, variants, s, rfl, -, -⟩ := hv
    simp only [writeHead]
    split <;> simp [Json.text, Json.record]

theorem eq_nil_of_hasHead_null {v : Value} (hv : v.HasHead .null false) : v = .nil := by
  match v, hv with
  | .nil, _ => rfl

theorem writeHead_bare {variants : List (String × Shape)} {name : String}
    (hs : variants.lookup name = some .null) (payload : Value) :
    writeHead Double.json (.choice variants) false (.tag name payload) = .text name := by
  simp [writeHead, hs]

theorem writeHead_tag {variants : List (String × Shape)} {name : String} {s : Shape}
    (hs : variants.lookup name = some s) (hn : s ≠ .null) (payload : Value) :
    writeHead Double.json (.choice variants) false (.tag name payload)
      = .object [(some name, payload.writeHead Double.json s.head s.nullable)] := by
  simp only [writeHead, hs]
  cases s with
  | null => exact absurd rfl hn
  | _ => rfl

mutual
/-- What is written is read back as long as there is room for it. -/
theorem readHead_writeHead {h : Head} {nullable : Bool} (hh : h.IsProper) (room : Nat) :
    (v : Value) → v.HasHead h nullable → (∀ d ∈ v.doubles, d.Legible) →
    Json.readHead h nullable room (v.writeHead Double.json h nullable)
      = within room (v.writeHead Double.json h nullable).depth v
  | .text s, hv, _ => by
    obtain ⟨rfl, rfl⟩ := hv
    exact (within_zero ..).symm
  | .int i, hv, _ => by
    obtain ⟨rfl, hv⟩ := hv
    match h, hv with
    | .word, hv | .integer, hv =>
      simp [writeHead, Json.int, Json.readHead, Json.readNumber, Numeral.toInt?_ofInt, hv, Json.depth,
        Json.present, Except.map]
  | .double d, hv, hd => by
    obtain ⟨rfl, rfl⟩ := hv
    have hd := hd d (List.mem_singleton_self d)
    simp [writeHead, Double.json, hd.finite, Json.readHead, Json.readNumber, hd.readsBack, Json.depth,
      Json.present, Except.map]
  | .flag b, hv, _ => by
    obtain ⟨rfl, rfl⟩ := hv
    exact (within_zero ..).symm
  | .nil, hv, _ => by
    match nullable, h, hv with
    | true, _, _ => exact (within_zero ..).symm
    | false, .null, _ => exact (within_zero ..).symm
    | false, .list _, _ | false, .tuple [], _ | false, .record [], _ => cases room <;> rfl
  | .cons v vs, hv, hd => by
    have hdv : ∀ d ∈ v.doubles, d.Legible := fun d h => hd d (List.mem_append_left _ h)
    have hdvs : ∀ d ∈ vs.doubles, d.Legible := fun d h => hd d (List.mem_append_right _ h)
    match nullable, h, hv with
    | true, h, ⟨hnil, hn, hthis⟩ =>
      subst hnil
      change Json.readHead h true room (v.writeHead Double.json h false)
        = within room (v.writeHead Double.json h false).depth _
      rw [Json.readHead_nullable (writeHead_ne_null hn hthis hdv),
        readHead_writeHead hh room v hthis hdv, within_map]
    | false, .list item, ⟨hthis, hrest⟩ =>
      cases room with
      | zero => rfl
      | succ room =>
        have ih := Json.readItems_cons (readHead_writeHead item.head_isProper room v hthis hdv)
          (readItems_writeItems item room vs hrest hdvs)
        rw [writeHead, Json.readHead, ih, within_map, Json.depth, within_succ]
        rfl
    | false, .tuple (s :: ss), ⟨hthis, hrest⟩ =>
      cases room with
      | zero => rfl
      | succ room =>
        have ih := Json.readTuple_cons (readHead_writeHead s.head_isProper room v hthis hdv)
          (readTuple_writeTuple ss room vs hrest hdvs)
        rw [writeHead, Json.readHead, ih, within_map, Json.depth, within_succ]
        rfl
    | false, .record (f :: fs), hfields =>
      cases room with
      | zero => rfl
      | succ room =>
        have hnodup := List.nodup_cons.mp hh
        have ih := Json.readMembers_cons hh (List.mem_cons_self ..) List.lookup_nil
          (readHead_writeHead f.shape.head_isProper room v hfields.1 hdv)
          (readMembers_writeFields hh room vs (List.subset_cons_self ..) hnodup.2
            (lookup_cons_eq_none hnodup.1 (fun _ _ => List.lookup_nil) v) hfields.2 hdvs)
        have hfill := fillFields_gather hh [] (.cons v vs) hfields
        rw [gather] at hfill
        rw [writeHead, Json.readHead_record ih hfill, Json.depth, within_succ]
        rfl
  | .tag name payload, hv, hd => by
    obtain ⟨rfl, variants, s, rfl, hs, hpayload⟩ := hv
    by_cases hn : s = .null
    · subst hn
      rw [writeHead_bare hs, eq_nil_of_hasHead_null hpayload]
      simp [Json.text, Json.readHead, Json.readString, hs, Json.depth, Json.present, Except.map, bare]
    · rw [writeHead_tag hs hn]
      cases room with
      | zero => rfl
      | succ room =>
        have ih := Json.readVariant_single hs
          (readHead_writeHead s.head_isProper room payload hpayload hd)
        rw [Json.readHead, ih, within_map, Json.depth, within_succ, Json.depthMembers,
          Json.depthMembers, Nat.max_zero]
        rfl
theorem readItems_writeItems (item : Shape) (room : Nat) :
    (vs : Value) → vs.AreItems item → (∀ d ∈ vs.doubles, d.Legible) →
    Json.readItems item room (vs.writeItems Double.json item)
      = within room (Json.depthItems (vs.writeItems Double.json item)) vs
  | .nil, _, _ => (within_zero ..).symm
  | .cons v vs, hv, hd =>
    Json.readItems_cons
      (readHead_writeHead item.head_isProper room v hv.1 fun d h => hd d (List.mem_append_left _ h))
      (readItems_writeItems item room vs hv.2 fun d h => hd d (List.mem_append_right _ h))
theorem readTuple_writeTuple (shapes : List Shape) (room : Nat) :
    (vs : Value) → vs.AreTuple shapes → (∀ d ∈ vs.doubles, d.Legible) →
    Json.readTuple shapes room (vs.writeTuple Double.json shapes)
      = within room (Json.depthItems (vs.writeTuple Double.json shapes)) vs
  | .nil, hv, _ => by
    rw [AreTuple] at hv
    subst hv
    exact (within_zero ..).symm
  | .cons v vs, hv, hd =>
    match shapes, hv with
    | s :: ss, hv => Json.readTuple_cons
      (readHead_writeHead s.head_isProper room v hv.1 fun d h => hd d (List.mem_append_left _ h))
      (readTuple_writeTuple ss room vs hv.2 fun d h => hd d (List.mem_append_right _ h))
theorem readMembers_writeFields {fields : List Field} (hfields : (fields.map (·.name)).Nodup)
    {fs : List Field} (room : Nat) {found : List (String × Value)} :
    (vs : Value) → fs ⊆ fields → (fs.map (·.name)).Nodup → (∀ f ∈ fs, found.lookup f.name = none) →
    vs.AreFields fs → (∀ d ∈ vs.doubles, d.Legible) →
    Json.readMembers fields room found (vs.writeFields Double.json fs)
      = within room (Json.depthMembers (vs.writeFields Double.json fs)) (vs.gather found fs)
  | .nil, _, _, _, hv, _ => by
    rw [AreFields] at hv
    subst hv
    exact (within_zero ..).symm
  | .cons v vs, hsub, hnodup, hfound, hv, hd =>
    match fs, hv with
    | f :: fs, hv => Json.readMembers_cons hfields (hsub (List.mem_cons_self ..))
      (hfound f (List.mem_cons_self ..))
      (readHead_writeHead f.shape.head_isProper room v hv.1 fun d h => hd d (List.mem_append_left _ h))
      (readMembers_writeFields hfields room vs (fun _ h => hsub (List.mem_cons_of_mem _ h))
        (List.nodup_cons.mp hnodup).2
        (lookup_cons_eq_none (List.nodup_cons.mp hnodup).1
          (fun g hg => hfound g (List.mem_cons_of_mem _ hg)) v)
        hv.2 fun d h => hd d (List.mem_append_right _ h))
end

/-! ### What is written is JSON -/

theorem intact_json (d : Double) : d.json.intact = true := by
  unfold Double.json
  split <;> rfl

mutual
theorem intact_writeHead (h : Head) (nullable : Bool) :
    (v : Value) → (v.writeHead Double.json h nullable).intact = true
  | .text _ | .int _ | .flag _ => rfl
  | .double d => intact_json d
  | .nil => by cases nullable <;> cases h <;> rfl
  | .cons v vs =>
    match nullable, h with
    | true, h => intact_writeHead h false v
    | false, .list item =>
      (Bool.and_eq_true ..).mpr ⟨intact_writeHead _ _ v, intact_writeItems item vs⟩
    | false, .tuple (_ :: ss) =>
      (Bool.and_eq_true ..).mpr ⟨intact_writeHead _ _ v, intact_writeTuple ss vs⟩
    | false, .record (_ :: fs) =>
      (Bool.and_eq_true ..).mpr ⟨intact_writeHead _ _ v, intact_writeFields fs vs⟩
    | false, .null | false, .text | false, .word | false, .integer | false, .double | false, .flag
    | false, .tuple [] | false, .record [] | false, .choice _ => rfl
  | .tag name payload => by
    cases h with
    | choice variants =>
      simp only [writeHead]
      split
      · rfl
      · rfl
      · exact (Bool.and_eq_true ..).mpr ⟨intact_writeHead _ _ payload, rfl⟩
    | _ => rfl
theorem intact_writeItems (item : Shape) :
    (vs : Value) → Json.intactItems (vs.writeItems Double.json item) = true
  | .cons v vs => (Bool.and_eq_true ..).mpr ⟨intact_writeHead _ _ v, intact_writeItems item vs⟩
  | .text _ | .int _ | .flag _ | .double _ | .nil | .tag _ _ => rfl
theorem intact_writeTuple (shapes : List Shape) :
    (vs : Value) → Json.intactItems (vs.writeTuple Double.json shapes) = true
  | .cons v vs =>
    match shapes with
    | _ :: ss => (Bool.and_eq_true ..).mpr ⟨intact_writeHead _ _ v, intact_writeTuple ss vs⟩
    | [] => rfl
  | .text _ | .int _ | .flag _ | .double _ | .nil | .tag _ _ => rfl
theorem intact_writeFields (fields : List Field) :
    (vs : Value) → Json.intactMembers (vs.writeFields Double.json fields) = true
  | .cons v vs =>
    match fields with
    | _ :: fs => (Bool.and_eq_true ..).mpr ⟨intact_writeHead _ _ v, intact_writeFields fs vs⟩
    | [] => rfl
  | .text _ | .int _ | .flag _ | .double _ | .nil | .tag _ _ => rfl
end

end Value

end OutcomeControl
