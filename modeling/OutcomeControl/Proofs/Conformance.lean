import OutcomeControl.Proofs.Finite
import OutcomeControl.Proofs.TreeRoundTrip

/-! What is read conforms to the table of the format.

A value that is read has the shape it was read in, and its doubles are finite (`Json.readAs_conforms`).
Every value of a shape is the value of a tree, so what is decoded is exactly what was read
(`Compilation.conforms_of_decode`). -/

namespace OutcomeControl

/-! ### Fields that are left out -/

/-- The value of the field when it is left out has the field's shape and no double in it. -/
def Field.Fits (f : Field) : Prop := ∀ v, f.absent = some v → v.HasShape f.shape ∧ v.doubles = []

theorem Field.Fits.required (name : String) (s : Shape) : Field.Fits ⟨name, s, none⟩ := nofun

theorem Field.Fits.ofDefault {s : Shape} {v : Value} (name : String) (h : v.HasShape s)
    (hd : v.doubles = []) : Field.Fits ⟨name, s, some v⟩ := by
  rintro _ ⟨⟩
  exact ⟨h, hd⟩

def Head.Fits : Head → Prop
  | .record fields => ∀ f ∈ fields, f.Fits
  | _ => True

theorem Kind.head_fits (k : Kind) : k.head.Fits := by
  have hnone (name s) : Field.Fits ⟨name, .optional s, some .nil⟩ := .ofDefault name trivial rfl
  have hlist (name s) : Field.Fits ⟨name, .list s, some .nil⟩ := .ofDefault name trivial rfl
  have htext (name t) : Field.Fits ⟨name, .text, some (.text t)⟩ :=
    .ofDefault name (Value.hasShape_text t) rfl
  have hspan (name) : Field.Fits ⟨name, .named .span, some zeroSpan⟩ :=
    .ofDefault name (Span.hasShape ⟨⟨0, 0⟩, ⟨0, 0⟩⟩) rfl
  have hcomments (name) : Field.Fits ⟨name, .named .comments, some noComments⟩ :=
    .ofDefault name (Comments.hasShape {}) rfl
  have hinferred (name) : Field.Fits ⟨name, .named .inferred, some notInferred⟩ :=
    .ofDefault name (Inferred.hasShape {}) rfl
  have hdeclarations (name) : Field.Fits ⟨name, .named .declarations, some emptyRecord⟩ :=
    .ofDefault name (Variable.hasShape_list []) rfl
  have hinformation (name) : Field.Fits ⟨name, .named .information, some emptyRecord⟩ :=
    .ofDefault name (Characteristic.hasShape_list []) rfl
  cases k <;>
    simp [Kind.head, Head.Fits, declarationFields, bindingFields, sourceFile, location?, documentation,
      comments?, names, texts, Field.Fits.required, hnone, hlist, htext, hspan, hcomments, hinferred,
      hdeclarations, hinformation]

theorem Shape.head_fits (s : Shape) : s.head.Fits := by
  induction s with
  | named k => exact k.head_fits
  | optional inner ih => exact ih
  | _ => trivial

/-! ### Reading -/

namespace Value

/-- All doubles in the value are finite. -/
def IsFinite (v : Value) : Prop := ∀ d ∈ v.doubles, d.isFinite = true

theorem IsFinite.cons {v vs : Value} (h : v.IsFinite) (hs : vs.IsFinite) : (cons v vs).IsFinite :=
  fun d hd => (List.mem_append.mp hd).elim (h d) (hs d)

theorem IsFinite.of_doubles {v : Value} (h : v.doubles = []) : v.IsFinite :=
  fun d hd => by rw [h] at hd; cases hd

/-- The value is one that can be read as `h`: it has the shape, and its doubles are finite. -/
structure Conforms (h : Head) (nullable : Bool) (v : Value) : Prop where
  hasHead : v.HasHead h nullable
  finite : v.IsFinite

theorem hasHead_tuple {shapes : List Shape} {vs : Value} (h : vs.AreTuple shapes) :
    vs.HasHead (.tuple shapes) false := by
  match vs, shapes, h with
  | .nil, [], _ => trivial
  | .cons _ _, _ :: _, h => exact h

theorem hasHead_record {fields : List Field} {vs : Value} (h : vs.AreFields fields) :
    vs.HasHead (.record fields) false := by
  match vs, fields, h with
  | .nil, [], _ => trivial
  | .cons _ _, _ :: _, h => exact h

end Value

section
variable {ε α β : Type} {x : Except ε α} {b : β}

theorem Except.of_bind_ok {f : α → Except ε β} (h : x >>= f = .ok b) : ∃ a, x = .ok a ∧ f a = .ok b := by
  cases x with
  | error e => cases h
  | ok a => exact ⟨a, rfl, h⟩

theorem Except.of_map_ok {f : α → β} (h : x.map f = .ok b) : ∃ a, x = .ok a ∧ f a = b := by
  cases x with
  | error e => cases h
  | ok a => exact ⟨a, rfl, Except.ok.inj h⟩

end

namespace Json

section
variable {h : Head} {room : Nat} {v : Value}

theorem readNumber_conforms {n : Numeral} (hv : readNumber n h = .ok v) : v.Conforms h false := by
  cases h with
  | word =>
    simp only [readNumber] at hv
    split at hv
    next i _ =>
      split at hv
      next hrange =>
        cases hv
        exact ⟨⟨rfl, hrange⟩, nofun⟩
      next => cases hv
    next => cases hv
  | integer =>
    simp only [readNumber] at hv
    split at hv
    next i _ =>
      split at hv
      next hrange =>
        cases hv
        exact ⟨⟨rfl, hrange⟩, nofun⟩
      next => cases hv
    next => cases hv
  | double =>
    simp only [readNumber] at hv
    split at hv
    next d hd =>
      cases hv
      exact ⟨⟨rfl, rfl⟩, fun d' hd' => List.mem_singleton.mp hd' ▸ Numeral.isFinite_of_toDouble? hd⟩
    next => cases hv
  | _ => cases hv

theorem readString_conforms {s : String} (hv : readString s h = .ok v) : v.Conforms h false := by
  cases h with
  | text =>
    cases hv
    exact ⟨⟨rfl, rfl⟩, nofun⟩
  | choice variants =>
    simp only [readString] at hv
    split at hv
    next => cases hv
    next hlookup =>
      cases hv
      exact ⟨⟨rfl, variants, .null, rfl, hlookup, trivial⟩, nofun⟩
    next => cases hv
  | _ => cases hv

/-- Nothing but `null` is read as `null`. -/
theorem readHead_null {j : Json} (hj : j ≠ .null) : readHead .null false room j ≠ .ok v := by
  cases j with
  | null => exact absurd rfl hj
  | string s => cases s <;> exact nofun
  | _ => exact nofun

theorem readHead_conforms_nullable {j : Json}
    (hfalse : ∀ w, readHead h false room j = .ok w → w.Conforms h false) {nullable : Bool}
    (hv : readHead h nullable room j = .ok v) : v.Conforms h nullable := by
  cases nullable with
  | false => exact hfalse v hv
  | true =>
    by_cases hj : j = .null
    · subst hj
      cases hv
      exact ⟨trivial, nofun⟩
    · rw [readHead_nullable hj] at hv
      obtain ⟨w, hw, rfl⟩ := Except.of_map_ok hv
      have hthis := hfalse w hw
      have hhead : h ≠ .null := by
        rintro rfl
        exact readHead_null hj hw
      exact ⟨⟨rfl, hhead, hthis.hasHead⟩, hthis.finite.cons nofun⟩

/-! #### Fields -/

theorem omittedFields_conforms {fields : List Field} {vs : Value} (hfits : ∀ f ∈ fields, f.Fits)
    (hvs : omittedFields fields = .ok vs) : vs.AreFields fields ∧ vs.IsFinite := by
  induction fields generalizing vs with
  | nil =>
    cases hvs
    exact ⟨rfl, nofun⟩
  | cons f fs ih =>
    obtain ⟨hf, hfs⟩ := List.forall_mem_cons.mp hfits
    simp only [omittedFields] at hvs
    split at hvs
    next w hw =>
      obtain ⟨ws, hws, hcons⟩ := Except.of_bind_ok hvs
      cases hcons
      obtain ⟨hshape, hd⟩ := hf w hw
      obtain ⟨hfields, hfinite⟩ := ih hfs hws
      exact ⟨⟨hshape, hfields⟩, (Value.IsFinite.of_doubles hd).cons hfinite⟩
    next => cases hvs

/-- What was found for the fields conforms to their shapes. -/
def Found (fields : List Field) (found : List (String × Value)) : Prop :=
  ∀ f ∈ fields, ∀ v, found.lookup f.name = some v → v.Conforms f.shape.head f.shape.nullable

theorem fillFields_conforms {found : List (String × Value)} {fields : List Field} {vs : Value}
    (hfits : ∀ f ∈ fields, f.Fits) (hfound : Found fields found)
    (hvs : fillFields found fields = .ok vs) : vs.AreFields fields ∧ vs.IsFinite := by
  induction fields generalizing vs with
  | nil =>
    cases hvs
    exact ⟨rfl, nofun⟩
  | cons f fs ih =>
    obtain ⟨hf, hfs⟩ := List.forall_mem_cons.mp hfits
    obtain ⟨hthis, hrest⟩ := List.forall_mem_cons.mp hfound
    simp only [fillFields] at hvs
    split at hvs
    next w hw =>
      obtain ⟨ws, hws, hcons⟩ := Except.of_bind_ok hvs
      cases hcons
      obtain ⟨hfields, hfinite⟩ := ih hfs hrest hws
      exact ⟨⟨(hthis w hw).hasHead, hfields⟩, (hthis w hw).finite.cons hfinite⟩
    next w _ hw =>
      obtain ⟨ws, hws, hcons⟩ := Except.of_bind_ok hvs
      cases hcons
      obtain ⟨hshape, hd⟩ := hf w hw
      obtain ⟨hfields, hfinite⟩ := ih hfs hrest hws
      exact ⟨⟨hshape, hfields⟩, (Value.IsFinite.of_doubles hd).cons hfinite⟩
    next => cases hvs

theorem Found.cons {fields : List Field} {found : List (String × Value)} (hfound : Found fields found)
    (hnodup : (fields.map (·.name)).Nodup) {f : Field} (hf : f ∈ fields)
    (hv : v.Conforms f.shape.head f.shape.nullable) : Found fields ((f.name, v) :: found) := by
  intro g hg w hw
  by_cases hname : g.name = f.name
  · -- There is only one field of this name.
    have hfind := find?_name hnodup hf
    rw [← hname, find?_name hnodup hg] at hfind
    cases hfind
    rw [List.lookup_cons_self] at hw
    cases hw
    exact hv
  · rw [List.lookup_cons, beq_false_of_ne hname] at hw
    exact hfound g hg w hw

theorem found_nil (fields : List Field) : Found fields [] := fun _ _ _ hw => by cases hw

end

/-! #### Values -/

mutual
theorem readHead_conforms {h : Head} (hproper : h.IsProper) (hfits : h.Fits) (room : Nat) :
    (j : Json) → {v : Value} → readHead h false room j = .ok v → v.Conforms h false
  | .null, v, hv => by
    cases h with
    | null =>
      cases hv
      exact ⟨trivial, nofun⟩
    | _ => cases hv
  | .bool b, v, hv => by
    cases h with
    | flag =>
      cases hv
      exact ⟨⟨rfl, rfl⟩, nofun⟩
    | _ => cases hv
  | .number n, v, hv => by
    obtain ⟨w, hw, rfl⟩ := Except.of_map_ok hv
    exact readNumber_conforms hw
  | .string none, v, hv => by cases hv
  | .string (some s), v, hv => by
    obtain ⟨w, hw, rfl⟩ := Except.of_map_ok hv
    exact readString_conforms hw
  | .array items, v, hv => by
    cases room with
    | zero => cases h <;> cases hv
    | succ room =>
      cases h with
      | list item =>
        obtain ⟨w, hw, rfl⟩ := Except.of_map_ok hv
        obtain ⟨hitems, hfinite⟩ := readItems_conforms item room items hw
        exact ⟨Value.hasShape_list hitems, hfinite⟩
      | tuple shapes =>
        obtain ⟨w, hw, rfl⟩ := Except.of_map_ok hv
        obtain ⟨htuple, hfinite⟩ := readTuple_conforms shapes room items hw
        exact ⟨Value.hasHead_tuple htuple, hfinite⟩
      | record fields =>
        obtain ⟨w, hw, rfl⟩ := Except.of_map_ok hv
        obtain ⟨hfields, hfinite⟩ := readFields_conforms hfits room items hw
        exact ⟨Value.hasHead_record hfields, hfinite⟩
      | _ => cases hv
  | .object members, v, hv => by
    cases room with
    | zero => cases h <;> cases hv
    | succ room =>
      cases h with
      | record fields =>
        obtain ⟨found, hfound, hv⟩ := Except.of_bind_ok hv
        obtain ⟨w, hw, hv⟩ := Except.of_bind_ok hv
        cases hv
        obtain ⟨hfields, hfinite⟩ := fillFields_conforms hfits
          (readMembers_conforms hproper room members (found_nil fields) hfound) hw
        exact ⟨Value.hasHead_record hfields, hfinite⟩
      | choice variants =>
        obtain ⟨w, hw, rfl⟩ := Except.of_map_ok hv
        exact readVariant_conforms variants room members hw
      | _ => cases hv
  | .broken, v, hv => by cases hv
theorem readItems_conforms (item : Shape) (room : Nat) :
    (js : List Json) → {vs : Value} → readItems item room js = .ok vs →
      vs.AreItems item ∧ vs.IsFinite
  | [], vs, hvs => by
    cases hvs
    exact ⟨trivial, nofun⟩
  | j :: js, vs, hvs => by
    obtain ⟨w, hw, hvs⟩ := Except.of_bind_ok hvs
    obtain ⟨ws, hws, hvs⟩ := Except.of_bind_ok hvs
    cases hvs
    have hfirst := readHead_conforms_nullable
      (fun _ => readHead_conforms item.head_isProper item.head_fits room j) hw
    obtain ⟨hitems, hfinite⟩ := readItems_conforms item room js hws
    exact ⟨⟨hfirst.hasHead, hitems⟩, hfirst.finite.cons hfinite⟩
theorem readTuple_conforms (shapes : List Shape) (room : Nat) :
    (js : List Json) → {vs : Value} → readTuple shapes room js = .ok vs →
      vs.AreTuple shapes ∧ vs.IsFinite
  | [], vs, hvs => by
    cases shapes with
    | nil =>
      cases hvs
      exact ⟨rfl, nofun⟩
    | cons s ss => cases hvs
  | j :: js, vs, hvs => by
    cases shapes with
    | nil => cases hvs
    | cons s ss =>
      obtain ⟨w, hw, hvs⟩ := Except.of_bind_ok hvs
      obtain ⟨ws, hws, hvs⟩ := Except.of_bind_ok hvs
      cases hvs
      have hfirst := readHead_conforms_nullable
        (fun _ => readHead_conforms s.head_isProper s.head_fits room j) hw
      obtain ⟨hitems, hfinite⟩ := readTuple_conforms ss room js hws
      exact ⟨⟨hfirst.hasHead, hitems⟩, hfirst.finite.cons hfinite⟩
theorem readFields_conforms {fields : List Field} (hfits : ∀ f ∈ fields, f.Fits) (room : Nat) :
    (js : List Json) → {vs : Value} → readFields fields room js = .ok vs →
      vs.AreFields fields ∧ vs.IsFinite
  | [], vs, hvs => omittedFields_conforms hfits hvs
  | j :: js, vs, hvs => by
    cases fields with
    | nil => cases hvs
    | cons f fs =>
      obtain ⟨w, hw, hvs⟩ := Except.of_bind_ok hvs
      obtain ⟨ws, hws, hvs⟩ := Except.of_bind_ok hvs
      cases hvs
      have hfirst := readHead_conforms_nullable
        (fun _ => readHead_conforms f.shape.head_isProper f.shape.head_fits room j) hw
      obtain ⟨hfields, hfinite⟩ := readFields_conforms (List.forall_mem_cons.mp hfits).2 room js hws
      exact ⟨⟨hfirst.hasHead, hfields⟩, hfirst.finite.cons hfinite⟩
theorem readMembers_conforms {fields : List Field} (hnodup : (fields.map (·.name)).Nodup)
    (room : Nat) : (members : List (Spelling × Json)) → {found all : List (String × Value)} →
      Found fields found → readMembers fields room found members = .ok all → Found fields all
  | [], found, all, hfound, hall => by
    cases hall
    exact hfound
  | (none, _) :: _, found, all, hfound, hall => by cases hall
  | (some key, j) :: rest, found, all, hfound, hall => by
    simp only [readMembers] at hall
    split at hall
    next =>
      split at hall
      next => exact readMembers_conforms hnodup room rest hfound hall
      next => cases hall
    next f hf =>
      split at hall
      next => cases hall
      next =>
        obtain ⟨w, hw, hall⟩ := Except.of_bind_ok hall
        have hmem := List.mem_of_find?_eq_some hf
        obtain rfl : f.name = key := by simpa using List.find?_some hf
        have hthis := readHead_conforms_nullable
          (fun _ => readHead_conforms f.shape.head_isProper f.shape.head_fits room j) hw
        exact readMembers_conforms hnodup room rest (hfound.cons hnodup hmem hthis) hall
theorem readVariant_conforms (variants : List (String × Shape)) (room : Nat) :
    (members : List (Spelling × Json)) → {v : Value} → readVariant variants room members = .ok v →
      v.Conforms (.choice variants) false
  | [], v, hv => by cases hv
  | (none, _) :: _, v, hv => by cases hv
  | (some name, j) :: rest, v, hv => by
    simp only [readVariant] at hv
    split at hv
    next => cases hv
    next s hs =>
      obtain ⟨w, hw, hv⟩ := Except.of_bind_ok hv
      have hpayload := readHead_conforms_nullable
        (fun _ => readHead_conforms s.head_isProper s.head_fits room j) hw
      split at hv
      next =>
        cases hv
        exact ⟨⟨rfl, variants, s, rfl, hs, hpayload.hasHead⟩, hpayload.finite⟩
      next => cases hv
end

/-- **What is read has the shape it was read in, and its doubles are finite.** -/
theorem readAs_conforms {s : Shape} {j : Json} {v : Value} (hv : j.readAs s = .ok v) :
    v.Conforms s.head s.nullable :=
  readHead_conforms_nullable
    (fun _ => readHead_conforms s.head_isProper s.head_fits nestingLimit j) hv

end Json

end OutcomeControl
