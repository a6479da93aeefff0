import OutcomeControl.Proofs.Conformance

/-! Every value of a shape is the value of a tree.

`Covers f s n` says so of the values of `s` below a size, where `f` gives the values. For records and
lists it follows from their parts, and for the recursive types it is proved by induction on the size. -/

namespace OutcomeControl

namespace Value

def size : Value → Nat
  | .cons v vs => v.size + vs.size + 1
  | .tag _ payload => payload.size + 1
  | .text _ | .int _ | .double _ | .flag _ | .nil => 0

section
variable {α β : Type} {f : α → Value} {s : Shape} {n : Nat} {v : Value}

/-- Every value of the shape below a size is one that `f` gives. -/
def Covers (f : α → Value) (s : Shape) (n : Nat) : Prop :=
  ∀ v : Value, v.size < n → v.HasShape s → ∃ a, f a = v

/-! ### Lists and options -/

theorem areItems_of_hasShape (h : v.HasShape (.list s)) : v.AreItems s := by
  match v, h with
  | .nil, _ => trivial
  | .cons _ _, h => exact h

theorem Covers.items (hf : Covers f s n) :
    (v : Value) → v.size < n → v.AreItems s → ∃ as : List α, ofList (as.map f) = v
  | .nil, _, _ => ⟨[], rfl⟩
  | .cons w ws, hn, h => by
    rw [size] at hn
    obtain ⟨a, rfl⟩ := hf w (by omega) h.1
    obtain ⟨as, rfl⟩ := hf.items ws (by omega) h.2
    exact ⟨a :: as, rfl⟩

theorem Covers.list (hf : Covers f s n) : Covers (fun as : List α => ofList (as.map f)) (.list s) n :=
  fun v hn h => hf.items v hn (areItems_of_hasShape h)

theorem Covers.option (hs : s.IsSolid) (hf : Covers f s n) :
    Covers (fun o : Option α => ofOption (o.map f)) (.optional s) n := by
  intro v hn h
  match v, h with
  | .nil, _ => exact ⟨none, rfl⟩
  | .cons w ws, ⟨hnil, _, hw⟩ =>
    rw [size] at hn
    obtain ⟨a, rfl⟩ := hf w (by omega) (by rwa [HasShape, hs.1])
    subst hnil
    exact ⟨some a, rfl⟩

/-! ### Records and tuples -/

theorem areFields_of_hasHead {fields : List Field} (h : v.HasHead (.record fields) false) :
    v.AreFields fields := by
  match v, fields, h with
  | .nil, [], _ => rfl
  | .cons _ _, _ :: _, h => exact h

theorem areTuple_of_hasHead {shapes : List Shape} (h : v.HasHead (.tuple shapes) false) :
    v.AreTuple shapes := by
  match v, shapes, h with
  | .nil, [], _ => rfl
  | .cons _ _, _ :: _, h => exact h

theorem Covers.field {fld : Field} {fs : List Field} (hf : Covers f fld.shape n) (hn : v.size < n + 1)
    (h : v.AreFields (fld :: fs)) : ∃ a ws, v = .cons (f a) ws ∧ ws.size < n + 1 ∧ ws.AreFields fs := by
  match v, h with
  | .cons w ws, h =>
    rw [size] at hn
    obtain ⟨a, rfl⟩ := hf w (by omega) h.1
    exact ⟨a, ws, rfl, by omega, h.2⟩

theorem eq_nil_of_areFields (h : v.AreFields []) : v = .nil := by
  match v, h with
  | .nil, _ => rfl

theorem Covers.component {ss : List Shape} (hf : Covers f s n) (hn : v.size < n + 1)
    (h : v.AreTuple (s :: ss)) : ∃ a ws, v = .cons (f a) ws ∧ ws.size < n + 1 ∧ ws.AreTuple ss := by
  match v, h with
  | .cons w ws, h =>
    rw [size] at hn
    obtain ⟨a, rfl⟩ := hf w (by omega) h.1
    exact ⟨a, ws, rfl, by omega, h.2⟩

theorem eq_nil_of_areTuple (h : v.AreTuple []) : v = .nil := by
  match v, h with
  | .nil, _ => rfl

/-! ### Choices -/

theorem mem_of_lookup {variants : List (String × Shape)} {name : String} {s : Shape}
    (h : variants.lookup name = some s) : (name, s) ∈ variants := by
  obtain ⟨before, after, rfl, -⟩ := List.lookup_eq_some_iff.mp h
  simp

/-- Every choice is one that `f` gives if every variant is, with what it may carry. -/
theorem of_choice {variants : List (String × Shape)}
    (hf : ∀ x ∈ variants, ∀ payload : Value, payload.size < n → payload.HasShape x.2 →
      ∃ a, f a = .tag x.1 payload)
    (hn : v.size < n + 1) (h : v.HasHead (.choice variants) false) : ∃ a, f a = v := by
  match v, h with
  | .tag name payload, ⟨_, _, s, rfl, hs, hpayload⟩ =>
    rw [size] at hn
    exact hf (name, s) (mem_of_lookup hs) payload (by omega) hpayload

theorem Covers.bare {name : String} (a : α) (ha : f a = .bare name) (payload : Value)
    (_ : payload.size < n) (h : payload.HasShape .null) : ∃ a, f a = .tag name payload := by
  rw [eq_nil_of_hasHead_null h]
  exact ⟨a, ha⟩

theorem Covers.tag {g : β → Value} {name : String} (mk : α → β) (hg : ∀ a, g (mk a) = .tag name (f a))
    (hf : Covers f s n) (payload : Value) (hn : payload.size < n) (h : payload.HasShape s) :
    ∃ b, g b = .tag name payload := by
  obtain ⟨a, rfl⟩ := hf payload hn h
  exact ⟨mk a, hg a⟩

/-! ### Leaves -/

variable (n)

theorem covers_text : Covers text .text n := by
  intro v _ h
  match v, h with
  | .text s, _ => exact ⟨s, rfl⟩

theorem covers_flag : Covers flag .flag n := by
  intro v _ h
  match v, h with
  | .flag b, _ => exact ⟨b, rfl⟩

theorem covers_double : Covers double .double n := by
  intro v _ h
  match v, h with
  | .double d, _ => exact ⟨d, rfl⟩

theorem covers_word : Covers word .word n := by
  intro v _ h
  match v, h with
  | .int i, ⟨_, hlow, hhigh⟩ =>
    refine ⟨i.toNat.toUInt32, ?_⟩
    rw [wordBound] at hhigh
    simp [word]
    omega

theorem covers_integer : Covers integer .integer n := by
  intro v _ h
  match v, h with
  | .int i, ⟨_, hlow, hhigh⟩ => exact ⟨.ofInt i, congrArg int (Int64.toInt_ofInt_of_le hlow hhigh)⟩

theorem covers_texts : Covers (fun ls : List String => ofList (ls.map text)) Kind.texts n :=
  (covers_text n).list

end

end Value

open Value (Covers areFields_of_hasHead areTuple_of_hasHead eq_nil_of_areFields eq_nil_of_areTuple
  covers_text covers_flag covers_word covers_texts covers_double covers_integer)

/-! ### Source and types -/

theorem QualifiedName.covers (n : Nat) : Covers toValue (.named .qualifiedName) n := by
  intro v hn h
  obtain ⟨space, _, rfl, hn, h⟩ :=
    (covers_text n).field (Nat.lt_succ_of_lt hn) (areFields_of_hasHead h)
  obtain ⟨name, _, rfl, -, h⟩ := (covers_text n).field hn h
  obtain rfl := eq_nil_of_areFields h
  exact ⟨⟨space, name⟩, rfl⟩

theorem Position.covers (n : Nat) : Covers toValue (.named .position) n := by
  intro v hn h
  obtain ⟨line, _, rfl, hn, h⟩ :=
    (covers_word n).field (Nat.lt_succ_of_lt hn) (areFields_of_hasHead h)
  obtain ⟨column, _, rfl, -, h⟩ := (covers_word n).field hn h
  obtain rfl := eq_nil_of_areFields h
  exact ⟨⟨line, column⟩, rfl⟩

theorem Span.covers (n : Nat) : Covers toValue (.named .span) n := by
  intro v hn h
  obtain ⟨start, _, rfl, hn, h⟩ :=
    (Position.covers n).field (Nat.lt_succ_of_lt hn) (areFields_of_hasHead h)
  obtain ⟨stop, _, rfl, -, h⟩ := (Position.covers n).field hn h
  obtain rfl := eq_nil_of_areFields h
  exact ⟨⟨start, stop⟩, rfl⟩

theorem Location.covers (n : Nat) : Covers toValue (.named .location) n := by
  intro v hn h
  obtain ⟨offset, _, rfl, hn, h⟩ :=
    (Position.covers n).field (Nat.lt_succ_of_lt hn) (areFields_of_hasHead h)
  obtain ⟨range, _, rfl, -, h⟩ := (Span.covers n).field hn h
  obtain rfl := eq_nil_of_areFields h
  exact ⟨⟨offset, range⟩, rfl⟩

theorem Comments.covers (n : Nat) : Covers toValue (.named .comments) n := by
  intro v hn h
  obtain ⟨opening, _, rfl, hn, h⟩ :=
    (covers_texts n).field (Nat.lt_succ_of_lt hn) (areFields_of_hasHead h)
  obtain ⟨closing, _, rfl, -, h⟩ := (covers_texts n).field hn h
  obtain rfl := eq_nil_of_areFields h
  exact ⟨⟨opening, closing⟩, rfl⟩

theorem covers_optionalLocation (n : Nat) :
    Covers optionalLocation (.optional (.named .location)) n :=
  (Location.covers n).option (Shape.isSolid_named _)

theorem covers_optionalSpan (n : Nat) : Covers optionalSpan (.optional (.named .span)) n :=
  (Span.covers n).option (Shape.isSolid_named _)

theorem TypeParameter.covers (n : Nat) : Covers toValue (.named .typeParameter) n := by
  intro v hn h
  obtain ⟨origin, _, rfl, hn, h⟩ :=
    (QualifiedName.covers n).field (Nat.lt_succ_of_lt hn) (areFields_of_hasHead h)
  obtain ⟨name, _, rfl, hn, h⟩ := (covers_text n).field hn h
  obtain ⟨range, _, rfl, -, h⟩ := (covers_optionalSpan n).field hn h
  obtain rfl := eq_nil_of_areFields h
  exact ⟨⟨origin, name, range⟩, rfl⟩

theorem Characteristic.covers (n : Nat) : Covers toValue (.named .characteristic) n := by
  intro v hn h
  refine Value.of_choice ?_ (Nat.lt_succ_of_lt hn) h
  simp only [List.map_cons, List.map_nil, List.forall_mem_cons]
  exact ⟨Covers.bare .adjointable rfl, Covers.bare .controllable rfl, nofun⟩

theorem Characteristic.covers_list (n : Nat) : Covers listToValue (.named .information) n := by
  intro v hn h
  obtain ⟨cs, _, rfl, -, h⟩ := (Characteristic.covers n).list.field (Nat.lt_succ_of_lt hn)
    (areFields_of_hasHead h)
  obtain rfl := eq_nil_of_areFields h
  exact ⟨cs, rfl⟩

theorem Ty.listToValue_eq (ts : List Ty) : listToValue ts = .ofList (ts.map toValue) := by
  induction ts with
  | nil => rfl
  | cons t ts ih => rw [listToValue, ih, List.map_cons, Value.ofList]

theorem Ty.covers (n : Nat) : Covers toValue (.named .ty) n := by
  induction n with
  | zero => exact fun _ hn => absurd hn (Nat.not_lt_zero _)
  | succ n ih =>
    intro v hn h
    refine Value.of_choice ?_ hn h
    simp only [List.forall_mem_cons]
    refine ⟨Covers.bare .unit rfl, Covers.bare .int rfl, Covers.bare .double rfl,
      Covers.bare .bool rfl, Covers.bare .string rfl, Covers.bare .outcome rfl,
      Covers.bare .qubit rfl, Covers.bare .range rfl, Covers.tag .array (fun _ => rfl) ih,
      Covers.tag .tuple (fun ts => congrArg (Value.tag _) (listToValue_eq ts)) ih.list,
      Covers.tag .custom (fun _ => rfl) (QualifiedName.covers n),
      Covers.tag .parameter (fun _ => rfl) (TypeParameter.covers n), ?operation, ?function,
      Covers.bare .missing rfl, Covers.bare .invalid rfl, nofun⟩
    case operation =>
      intro v hn h
      obtain ⟨input, _, rfl, hn, h⟩ := ih.component (Nat.lt_succ_of_lt hn) (areTuple_of_hasHead h)
      obtain ⟨output, _, rfl, hn, h⟩ := ih.component hn h
      obtain ⟨cs, _, rfl, -, h⟩ := (Characteristic.covers_list n).component hn h
      obtain rfl := eq_nil_of_areTuple h
      exact ⟨.operation input output cs, rfl⟩
    case function =>
      intro v hn h
      obtain ⟨input, _, rfl, hn, h⟩ := ih.component (Nat.lt_succ_of_lt hn) (areTuple_of_hasHead h)
      obtain ⟨output, _, rfl, -, h⟩ := ih.component hn h
      obtain rfl := eq_nil_of_areTuple h
      exact ⟨.function input output, rfl⟩

/-! ### Expressions -/

theorem Outcome.covers (n : Nat) : Covers toValue (.named .outcome) n := by
  intro v hn h
  refine Value.of_choice ?_ (Nat.lt_succ_of_lt hn) h
  simp only [List.map_cons, List.map_nil, List.forall_mem_cons]
  exact ⟨Covers.bare .zero rfl, Covers.bare .one rfl, nofun⟩

theorem UnaryOp.covers (n : Nat) : Covers toValue (.named .unaryOp) n := by
  intro v hn h
  refine Value.of_choice ?_ (Nat.lt_succ_of_lt hn) h
  simp only [List.map_cons, List.map_nil, List.forall_mem_cons]
  exact ⟨Covers.bare .not rfl, Covers.bare .neg rfl, nofun⟩

theorem BinaryOp.covers (n : Nat) : Covers toValue (.named .binaryOp) n := by
  intro v hn h
  refine Value.of_choice ?_ (Nat.lt_succ_of_lt hn) h
  simp only [List.map_cons, List.map_nil, List.forall_mem_cons]
  exact ⟨Covers.bare .eq rfl, Covers.bare .ne rfl, Covers.bare .lt rfl, Covers.bare .le rfl,
    Covers.bare .gt rfl, Covers.bare .ge rfl, Covers.bare .add rfl, Covers.bare .sub rfl,
    Covers.bare .mul rfl, Covers.bare .div rfl, Covers.bare .mod rfl, Covers.bare .and rfl,
    Covers.bare .or rfl, nofun⟩

theorem Identifier.covers (n : Nat) : Covers toValue (.named .identifier) n := by
  intro v hn h
  refine Value.of_choice ?_ (Nat.lt_succ_of_lt hn) h
  simp only [List.forall_mem_cons]
  exact ⟨Covers.tag .ofVariable (fun _ => rfl) (covers_text n),
    Covers.tag .ofCallable (fun _ => rfl) (QualifiedName.covers n), Covers.bare .invalid rfl, nofun⟩

theorem Inferred.covers (n : Nat) : Covers toValue (.named .inferred) n := by
  intro v hn h
  obtain ⟨isMutable, _, rfl, hn, h⟩ :=
    (covers_flag n).field (Nat.lt_succ_of_lt hn) (areFields_of_hasHead h)
  obtain ⟨hasSideEffects, _, rfl, -, h⟩ := (covers_flag n).field hn h
  obtain rfl := eq_nil_of_areFields h
  exact ⟨⟨isMutable, hasSideEffects⟩, rfl⟩

theorem Resolution.covers (n : Nat) : Covers toValue (.named .resolution) n := by
  intro v hn h
  obtain ⟨callable, _, rfl, hn, h⟩ :=
    (QualifiedName.covers n).field (Nat.lt_succ_of_lt hn) (areFields_of_hasHead h)
  obtain ⟨parameter, _, rfl, hn, h⟩ := (covers_text n).field hn h
  obtain ⟨ty, _, rfl, -, h⟩ := (Ty.covers n).field hn h
  obtain rfl := eq_nil_of_areFields h
  exact ⟨⟨callable, parameter, ty⟩, rfl⟩

theorem covers_typeArguments (n : Nat) :
    Covers (fun ts : Option (List Ty) => .ofOption (ts.map Ty.listToValue)) (.optional Kind.types)
      n := by
  have hlist : Covers Ty.listToValue Kind.types n := by
    rw [funext Ty.listToValue_eq]
    exact (Ty.covers n).list
  exact hlist.option (Shape.isSolid_list _)

theorem Expr.listToValue_eq (xs : List Expr) : listToValue xs = .ofList (xs.map toValue) := by
  induction xs with
  | nil => rfl
  | cons x xs ih => rw [listToValue, ih, List.map_cons, Value.ofList]

theorem Expr.covers_both (n : Nat) :
    Covers toValue (.named .expr) n ∧ Covers kindToValue (.named .exprKind) n := by
  induction n with
  | zero => exact ⟨fun _ hn => absurd hn (Nat.not_lt_zero _), fun _ hn => absurd hn (Nat.not_lt_zero _)⟩
  | succ n ih =>
    obtain ⟨ihe, ihk⟩ := ih
    refine ⟨fun v hn h => ?_, fun v hn h => ?_⟩
    · obtain ⟨kind, _, rfl, hn, h⟩ := ihk.field hn (areFields_of_hasHead h)
      obtain ⟨resolutions, _, rfl, hn, h⟩ := (Resolution.covers n).list.field hn h
      obtain ⟨ty, _, rfl, hn, h⟩ := (Ty.covers n).field hn h
      obtain ⟨inferred, _, rfl, hn, h⟩ := (Inferred.covers n).field hn h
      obtain ⟨range, _, rfl, -, h⟩ := (covers_optionalSpan n).field hn h
      obtain rfl := eq_nil_of_areFields h
      exact ⟨⟨kind, ⟨resolutions, ty, inferred, range⟩⟩, rfl⟩
    refine Value.of_choice ?_ hn h
    simp only [List.forall_mem_cons]
    have ihes : Covers listToValue (.list (.named .expr)) n := by
      rw [funext listToValue_eq]
      exact ihe.list
    refine ⟨Covers.bare .unit rfl, ?name, Covers.tag .tuple (fun _ => rfl) ihes,
      Covers.tag .array (fun _ => rfl) ihes, Covers.tag .int (fun _ => rfl) (covers_integer n),
      Covers.tag .double (fun _ => rfl) (covers_double n),
      Covers.tag .bool (fun _ => rfl) (covers_flag n), Covers.tag .string (fun _ => rfl) (covers_text n),
      Covers.tag .outcome (fun _ => rfl) (Outcome.covers n), ?binary, ?unary, ?item, ?choice, ?call,
      Covers.bare .missing rfl, Covers.bare .invalid rfl, nofun⟩
    case name =>
      intro v hn h
      obtain ⟨id, _, rfl, hn, h⟩ :=
        (Identifier.covers n).component (Nat.lt_succ_of_lt hn) (areTuple_of_hasHead h)
      obtain ⟨arguments, _, rfl, -, h⟩ := (covers_typeArguments n).component hn h
      obtain rfl := eq_nil_of_areTuple h
      exact ⟨.name id arguments, rfl⟩
    case binary =>
      intro v hn h
      obtain ⟨op, _, rfl, hn, h⟩ :=
        (BinaryOp.covers n).field (Nat.lt_succ_of_lt hn) (areFields_of_hasHead h)
      obtain ⟨lhs, _, rfl, hn, h⟩ := ihe.field hn h
      obtain ⟨rhs, _, rfl, -, h⟩ := ihe.field hn h
      obtain rfl := eq_nil_of_areFields h
      exact ⟨.binary op lhs rhs, rfl⟩
    case unary =>
      intro v hn h
      obtain ⟨op, _, rfl, hn, h⟩ :=
        (UnaryOp.covers n).field (Nat.lt_succ_of_lt hn) (areFields_of_hasHead h)
      obtain ⟨operand, _, rfl, -, h⟩ := ihe.field hn h
      obtain rfl := eq_nil_of_areFields h
      exact ⟨.unary op operand, rfl⟩
    case item =>
      intro v hn h
      obtain ⟨array, _, rfl, hn, h⟩ := ihe.field (Nat.lt_succ_of_lt hn) (areFields_of_hasHead h)
      obtain ⟨index, _, rfl, -, h⟩ := ihe.field hn h
      obtain rfl := eq_nil_of_areFields h
      exact ⟨.item array index, rfl⟩
    case choice =>
      intro v hn h
      obtain ⟨condition, _, rfl, hn, h⟩ := ihe.field (Nat.lt_succ_of_lt hn) (areFields_of_hasHead h)
      obtain ⟨yes, _, rfl, hn, h⟩ := ihe.field hn h
      obtain ⟨no, _, rfl, -, h⟩ := ihe.field hn h
      obtain rfl := eq_nil_of_areFields h
      exact ⟨.choice condition yes no, rfl⟩
    case call =>
      intro v hn h
      obtain ⟨callee, _, rfl, hn, h⟩ := ihe.field (Nat.lt_succ_of_lt hn) (areFields_of_hasHead h)
      obtain ⟨argument, _, rfl, -, h⟩ := ihe.field hn h
      obtain rfl := eq_nil_of_areFields h
      exact ⟨.call callee argument, rfl⟩

theorem Expr.covers (n : Nat) : Covers toValue (.named .expr) n := (covers_both n).1

/-! ### Statements -/

section
variable {ν : Type} {f : ν → Value} {s : Shape} {n : Nat}

theorem Declaration.covers (hf : Covers f s n) {v : Value} (hn : v.size < n)
    (h : v.HasHead (.record (Kind.declarationFields s)) false) : ∃ d, Declaration.toValue f d = v := by
  obtain ⟨name, _, rfl, hn, h⟩ := hf.field (Nat.lt_succ_of_lt hn) (areFields_of_hasHead h)
  obtain ⟨ty, _, rfl, hn, h⟩ := (Ty.covers n).field hn h
  obtain ⟨inferred, _, rfl, hn, h⟩ := (Inferred.covers n).field hn h
  obtain ⟨position, _, rfl, hn, h⟩ :=
    ((Position.covers n).option (Shape.isSolid_named _)).field hn h
  obtain ⟨range, _, rfl, -, h⟩ := (Span.covers n).field hn h
  obtain rfl := eq_nil_of_areFields h
  exact ⟨⟨name, ty, inferred, position, range⟩, rfl⟩

end

theorem Variable.covers (n : Nat) : Covers toValue (.named .variable) n :=
  fun _ hn h => Declaration.covers (covers_text n) hn h

theorem Variable.covers_list (n : Nat) : Covers listToValue (.named .declarations) n := by
  intro v hn h
  obtain ⟨vs, _, rfl, -, h⟩ := (Variable.covers n).list.field (Nat.lt_succ_of_lt hn)
    (areFields_of_hasHead h)
  obtain rfl := eq_nil_of_areFields h
  exact ⟨vs, rfl⟩

theorem SymbolTuple.listToValue_eq (xs : List SymbolTuple) :
    listToValue xs = .ofList (xs.map toValue) := by
  induction xs with
  | nil => rfl
  | cons x xs ih => rw [listToValue, ih, List.map_cons, Value.ofList]

theorem SymbolTuple.covers (n : Nat) : Covers toValue (.named .symbolTuple) n := by
  induction n with
  | zero => exact fun _ hn => absurd hn (Nat.not_lt_zero _)
  | succ n ih =>
    intro v hn h
    refine Value.of_choice ?_ hn h
    simp only [List.forall_mem_cons]
    exact ⟨Covers.tag .name (fun _ => rfl) (covers_text n),
      Covers.tag .tuple (fun ss => congrArg (Value.tag _) (listToValue_eq ss)) ih.list,
      Covers.bare .discard rfl, Covers.bare .invalid rfl, nofun⟩

theorem BindingKind.covers (n : Nat) : Covers toValue (.named .bindingKind) n := by
  intro v hn h
  refine Value.of_choice ?_ (Nat.lt_succ_of_lt hn) h
  simp only [List.map_cons, List.map_nil, List.forall_mem_cons]
  exact ⟨Covers.bare .immutable rfl, Covers.bare .mutable rfl, nofun⟩

theorem QubitScopeKind.covers (n : Nat) : Covers toValue (.named .qubitScopeKind) n := by
  intro v hn h
  refine Value.of_choice ?_ (Nat.lt_succ_of_lt hn) h
  simp only [List.map_cons, List.map_nil, List.forall_mem_cons]
  exact ⟨Covers.bare .allocate rfl, Covers.bare .borrow rfl, nofun⟩

theorem Binding.covers {ρ : Type} {f : ρ → Value} {s : Shape} {n : Nat} (hf : Covers f s n) {v : Value}
    (hn : v.size < n) (h : v.HasHead (.record (Kind.bindingFields s)) false) :
    ∃ b, Binding.toValue f b = v := by
  obtain ⟨kind, _, rfl, hn, h⟩ :=
    (BindingKind.covers n).field (Nat.lt_succ_of_lt hn) (areFields_of_hasHead h)
  obtain ⟨lhs, _, rfl, hn, h⟩ := (SymbolTuple.covers n).field hn h
  obtain ⟨rhs, _, rfl, -, h⟩ := hf.field hn h
  obtain rfl := eq_nil_of_areFields h
  exact ⟨⟨kind, lhs, rhs⟩, rfl⟩

theorem QubitInit.listToValue_eq (xs : List QubitInit) : listToValue xs = .ofList (xs.map toValue) := by
  induction xs with
  | nil => rfl
  | cons x xs ih => rw [listToValue, ih, List.map_cons, Value.ofList]

theorem QubitInit.covers (n : Nat) : Covers toValue (.named .qubitInit) n := by
  induction n with
  | zero => exact fun _ hn => absurd hn (Nat.not_lt_zero _)
  | succ n ih =>
    intro v hn h
    refine Value.of_choice ?_ hn h
    simp only [List.forall_mem_cons]
    exact ⟨Covers.bare .single rfl, Covers.tag .register (fun _ => rfl) (Expr.covers n),
      Covers.tag .tuple (fun qs => congrArg (Value.tag _) (listToValue_eq qs)) ih.list, nofun⟩

theorem Statement.listToValue_eq (xs : List Statement) : listToValue xs = .ofList (xs.map toValue) := by
  induction xs with
  | nil => rfl
  | cons x xs ih => rw [listToValue, ih, List.map_cons, Value.ofList]

/-- A guard with its block. -/
def armToValue (arm : Expr × Block) : Value := .ofList [arm.1.toValue, arm.2.toValue]

theorem Branches.armsToValue_ofArms (default : Option Block) (arms : List (Expr × Block)) :
    (ofArms default arms).armsToValue = .ofList (arms.map armToValue) := by
  induction arms with
  | nil => cases default <;> rfl
  | cons arm arms ih =>
    rw [ofArms, armsToValue, ih]
    rfl

theorem Branches.defaultToValue_ofArms (default : Option Block) (arms : List (Expr × Block)) :
    (ofArms default arms).defaultToValue = .ofOption (default.map Block.toValue) := by
  induction arms with
  | nil => cases default <;> rfl
  | cons arm arms ih => rw [ofArms, defaultToValue, ih]

/-- The values of statements and of what they are made of, below a size. -/
structure Statement.Covered (n : Nat) : Prop where
  statement : Covers Statement.toValue (.named .statement) n
  kind : Covers StatementKind.toValue (.named .statementKind) n
  block : Covers Block.toValue (.named .block) n
  scope : Covers Scope.toValue (.named .scope) n

namespace Statement.Covered
variable {n : Nat} (ih : Covered n)
include ih

theorem nextKind : Covers StatementKind.toValue (.named .statementKind) (n + 1) := by
  intro v hn h
  refine Value.of_choice ?_ hn h
  simp only [List.forall_mem_cons]
  refine ⟨Covers.tag .expression (fun _ => rfl) (Expr.covers n),
    Covers.tag .returns (fun _ => rfl) (Expr.covers n), Covers.tag .fails (fun _ => rfl) (Expr.covers n),
    Covers.tag .binding (fun _ => rfl) (fun _ hn h => Binding.covers (Expr.covers n) hn h), ?update,
    ?conditional, ?forEach, ?whileLoop, ?repeatUntil, ?qubits, nofun⟩
  case update =>
    intro v hn h
    obtain ⟨lhs, _, rfl, hn, h⟩ :=
      (Expr.covers n).field (Nat.lt_succ_of_lt hn) (areFields_of_hasHead h)
    obtain ⟨rhs, _, rfl, -, h⟩ := (Expr.covers n).field hn h
    obtain rfl := eq_nil_of_areFields h
    exact ⟨.update lhs rhs, rfl⟩
  case conditional =>
    have harm : Covers armToValue (.named .arm) n := by
      intro v hn h
      obtain ⟨condition, _, rfl, hn, h⟩ :=
        (Expr.covers n).field (Nat.lt_succ_of_lt hn) (areFields_of_hasHead h)
      obtain ⟨block, _, rfl, -, h⟩ := ih.block.field hn h
      obtain rfl := eq_nil_of_areFields h
      exact ⟨(condition, block), rfl⟩
    intro v hn h
    obtain ⟨arms, _, rfl, hn, h⟩ := harm.list.field (Nat.lt_succ_of_lt hn) (areFields_of_hasHead h)
    obtain ⟨default, _, rfl, -, h⟩ := (ih.block.option (Shape.isSolid_named _)).field hn h
    obtain rfl := eq_nil_of_areFields h
    refine ⟨.conditional (.ofArms default arms), ?_⟩
    rw [StatementKind.toValue, Branches.armsToValue_ofArms, Branches.defaultToValue_ofArms]
    rfl
  case forEach =>
    intro v hn h
    obtain ⟨symbols, _, rfl, hn, h⟩ :=
      (SymbolTuple.covers n).field (Nat.lt_succ_of_lt hn) (areFields_of_hasHead h)
    obtain ⟨itemTy, _, rfl, hn, h⟩ := (Ty.covers n).field hn h
    obtain ⟨iterable, _, rfl, hn, h⟩ := (Expr.covers n).field hn h
    obtain ⟨body, _, rfl, -, h⟩ := ih.scope.field hn h
    obtain rfl := eq_nil_of_areFields h
    exact ⟨.forEach symbols itemTy iterable body, rfl⟩
  case whileLoop =>
    intro v hn h
    obtain ⟨condition, _, rfl, hn, h⟩ :=
      (Expr.covers n).field (Nat.lt_succ_of_lt hn) (areFields_of_hasHead h)
    obtain ⟨body, _, rfl, -, h⟩ := ih.scope.field hn h
    obtain rfl := eq_nil_of_areFields h
    exact ⟨.whileLoop condition body, rfl⟩
  case repeatUntil =>
    intro v hn h
    obtain ⟨block, _, rfl, hn, h⟩ := ih.block.field (Nat.lt_succ_of_lt hn) (areFields_of_hasHead h)
    obtain ⟨success, _, rfl, hn, h⟩ := (Expr.covers n).field hn h
    obtain ⟨fixup, _, rfl, -, h⟩ := ih.block.field hn h
    obtain rfl := eq_nil_of_areFields h
    exact ⟨.repeatUntil block success fixup, rfl⟩
  case qubits =>
    have hbinding : Covers (Binding.toValue QubitInit.toValue) (.named .qubitBinding) n :=
      fun _ hn h => Binding.covers (QubitInit.covers n) hn h
    intro v hn h
    obtain ⟨kind, _, rfl, hn, h⟩ :=
      (QubitScopeKind.covers n).field (Nat.lt_succ_of_lt hn) (areFields_of_hasHead h)
    obtain ⟨binding, _, rfl, hn, h⟩ := hbinding.field hn h
    obtain ⟨body, _, rfl, -, h⟩ := ih.scope.field hn h
    obtain rfl := eq_nil_of_areFields h
    exact ⟨.qubits kind binding body, rfl⟩

theorem next : Covered (n + 1) where
  kind := ih.nextKind
  statement := by
    intro v hn h
    obtain ⟨kind, _, rfl, hn, h⟩ := ih.kind.field hn (areFields_of_hasHead h)
    obtain ⟨declarations, _, rfl, hn, h⟩ := (Variable.covers_list n).field hn h
    obtain ⟨location, _, rfl, hn, h⟩ := (covers_optionalLocation n).field hn h
    obtain ⟨comments, _, rfl, -, h⟩ := (Comments.covers n).field hn h
    obtain rfl := eq_nil_of_areFields h
    exact ⟨⟨kind, ⟨declarations, location, comments⟩⟩, rfl⟩
  block := by
    intro v hn h
    obtain ⟨body, _, rfl, hn, h⟩ := ih.scope.field hn (areFields_of_hasHead h)
    obtain ⟨location, _, rfl, hn, h⟩ := (covers_optionalLocation n).field hn h
    obtain ⟨comments, _, rfl, -, h⟩ := (Comments.covers n).field hn h
    obtain rfl := eq_nil_of_areFields h
    exact ⟨⟨body, location, comments⟩, rfl⟩
  scope := by
    intro v hn h
    have hstatements : Covers Statement.listToValue (.list (.named .statement)) n := by
      rw [funext Statement.listToValue_eq]
      exact ih.statement.list
    obtain ⟨statements, _, rfl, hn, h⟩ := hstatements.field hn (areFields_of_hasHead h)
    obtain ⟨known, _, rfl, -, h⟩ := (Variable.covers_list n).field hn h
    obtain rfl := eq_nil_of_areFields h
    exact ⟨⟨statements, known⟩, rfl⟩

end Statement.Covered

theorem Statement.covered (n : Nat) : Covered n := by
  induction n with
  | zero =>
    exact ⟨fun _ hn => absurd hn (Nat.not_lt_zero _), fun _ hn => absurd hn (Nat.not_lt_zero _),
      fun _ hn => absurd hn (Nat.not_lt_zero _), fun _ hn => absurd hn (Nat.not_lt_zero _)⟩
  | succ n ih => exact ih.next

/-! ### Callables -/

theorem Symbol.covers (n : Nat) : Covers toValue (.named .symbol) n := by
  intro v hn h
  refine Value.of_choice ?_ (Nat.lt_succ_of_lt hn) h
  simp only [List.forall_mem_cons]
  exact ⟨Covers.tag .valid (fun _ => rfl) (covers_text n), Covers.bare .invalid rfl, nofun⟩

theorem Params.listToValue_eq (xs : List Params) : listToValue xs = .ofList (xs.map toValue) := by
  induction xs with
  | nil => rfl
  | cons x xs ih => rw [listToValue, ih, List.map_cons, Value.ofList]

theorem Params.covers (n : Nat) : Covers toValue (.named .params) n := by
  induction n with
  | zero => exact fun _ hn => absurd hn (Nat.not_lt_zero _)
  | succ n ih =>
    intro v hn h
    refine Value.of_choice ?_ hn h
    simp only [List.forall_mem_cons]
    exact ⟨Covers.tag .item (fun _ => rfl) (fun _ hn h => Declaration.covers (Symbol.covers n) hn h),
      Covers.tag .tuple (fun ps => congrArg (Value.tag _) (listToValue_eq ps)) ih.list, nofun⟩

theorem Signature.covers (n : Nat) : Covers toValue (.named .signature) n := by
  intro v hn h
  obtain ⟨typeParameters, _, rfl, hn, h⟩ :=
    (Symbol.covers n).list.field (Nat.lt_succ_of_lt hn) (areFields_of_hasHead h)
  obtain ⟨argument, _, rfl, hn, h⟩ := (Ty.covers n).field hn h
  obtain ⟨result, _, rfl, hn, h⟩ := (Ty.covers n).field hn h
  obtain ⟨characteristics, _, rfl, -, h⟩ := (Characteristic.covers_list n).field hn h
  obtain rfl := eq_nil_of_areFields h
  exact ⟨⟨typeParameters, argument, result, characteristics⟩, rfl⟩

theorem Implementation.covers (n : Nat) : Covers toValue (.named .implementation) n := by
  intro v hn h
  refine Value.of_choice ?_ (Nat.lt_succ_of_lt hn) h
  simp only [List.forall_mem_cons]
  refine ⟨?provided, Covers.bare .intrinsic rfl, Covers.bare .external rfl,
    Covers.tag .generated (fun _ => rfl) (covers_text n), nofun⟩
  case provided =>
    intro v hn h
    obtain ⟨params, _, rfl, hn, h⟩ :=
      (Params.covers n).field (Nat.lt_succ_of_lt hn) (areFields_of_hasHead h)
    obtain ⟨scope, _, rfl, -, h⟩ := (Statement.covered n).scope.field hn h
    obtain rfl := eq_nil_of_areFields h
    exact ⟨.provided params scope, rfl⟩

theorem SpecializationKind.covers (n : Nat) : Covers toValue (.named .specializationKind) n := by
  intro v hn h
  refine Value.of_choice ?_ (Nat.lt_succ_of_lt hn) h
  simp only [List.map_cons, List.map_nil, List.forall_mem_cons]
  exact ⟨Covers.bare .body rfl, Covers.bare .adjoint rfl, Covers.bare .controlled rfl,
    Covers.bare .controlledAdjoint rfl, nofun⟩

theorem Specialization.covers (n : Nat) : Covers toValue (.named .specialization) n := by
  intro v hn h
  obtain ⟨kind, _, rfl, hn, h⟩ :=
    (SpecializationKind.covers n).field (Nat.lt_succ_of_lt hn) (areFields_of_hasHead h)
  obtain ⟨parent, _, rfl, hn, h⟩ := (QualifiedName.covers n).field hn h
  obtain ⟨sourceFile, _, rfl, hn, h⟩ := (covers_text n).field hn h
  obtain ⟨location, _, rfl, hn, h⟩ := (covers_optionalLocation n).field hn h
  obtain ⟨typeArguments, _, rfl, hn, h⟩ := (covers_typeArguments n).field hn h
  obtain ⟨signature, _, rfl, hn, h⟩ := (Signature.covers n).field hn h
  obtain ⟨implementation, _, rfl, hn, h⟩ := (Implementation.covers n).field hn h
  obtain ⟨documentation, _, rfl, hn, h⟩ := (covers_texts n).field hn h
  obtain ⟨comments, _, rfl, -, h⟩ := (Comments.covers n).field hn h
  obtain rfl := eq_nil_of_areFields h
  exact ⟨⟨kind, parent, sourceFile, location, typeArguments, signature, implementation, documentation,
    comments⟩, rfl⟩

theorem CallableKind.covers (n : Nat) : Covers toValue (.named .callableKind) n := by
  intro v hn h
  refine Value.of_choice ?_ (Nat.lt_succ_of_lt hn) h
  simp only [List.map_cons, List.map_nil, List.forall_mem_cons]
  exact ⟨Covers.bare .operation rfl, Covers.bare .function rfl, Covers.bare .constructor rfl, nofun⟩

theorem Callable.covers (n : Nat) : Covers toValue (.named .callable) n := by
  intro v hn h
  obtain ⟨kind, _, rfl, hn, h⟩ :=
    (CallableKind.covers n).field (Nat.lt_succ_of_lt hn) (areFields_of_hasHead h)
  obtain ⟨name, _, rfl, hn, h⟩ := (QualifiedName.covers n).field hn h
  obtain ⟨sourceFile, _, rfl, hn, h⟩ := (covers_text n).field hn h
  obtain ⟨location, _, rfl, hn, h⟩ := (covers_optionalLocation n).field hn h
  obtain ⟨signature, _, rfl, hn, h⟩ := (Signature.covers n).field hn h
  obtain ⟨params, _, rfl, hn, h⟩ := (Params.covers n).field hn h
  obtain ⟨specializations, _, rfl, hn, h⟩ := (Specialization.covers n).list.field hn h
  obtain ⟨documentation, _, rfl, hn, h⟩ := (covers_texts n).field hn h
  obtain ⟨comments, _, rfl, -, h⟩ := (Comments.covers n).field hn h
  obtain rfl := eq_nil_of_areFields h
  exact ⟨⟨kind, name, sourceFile, location, signature, params, specializations, documentation,
    comments⟩, rfl⟩

theorem CustomType.covers (n : Nat) : Covers toValue (.named .customType) n := by
  intro v hn h
  obtain ⟨name, _, rfl, hn, h⟩ :=
    (QualifiedName.covers n).field (Nat.lt_succ_of_lt hn) (areFields_of_hasHead h)
  obtain ⟨underlying, _, rfl, hn, h⟩ := (Ty.covers n).field hn h
  obtain ⟨sourceFile, _, rfl, hn, h⟩ := (covers_text n).field hn h
  obtain ⟨location, _, rfl, hn, h⟩ := (covers_optionalLocation n).field hn h
  obtain ⟨documentation, _, rfl, hn, h⟩ := (covers_texts n).field hn h
  obtain ⟨comments, _, rfl, -, h⟩ := (Comments.covers n).field hn h
  obtain rfl := eq_nil_of_areFields h
  exact ⟨⟨name, underlying, sourceFile, location, documentation, comments⟩, rfl⟩

theorem Element.covers (n : Nat) : Covers toValue (.named .element) n := by
  intro v hn h
  refine Value.of_choice ?_ (Nat.lt_succ_of_lt hn) h
  simp only [List.forall_mem_cons]
  exact ⟨Covers.tag .callable (fun _ => rfl) (Callable.covers n),
    Covers.tag .customType (fun _ => rfl) (CustomType.covers n), nofun⟩

theorem Namespace.covers (n : Nat) : Covers toValue (.named .space) n := by
  intro v hn h
  obtain ⟨name, _, rfl, hn, h⟩ :=
    (covers_text n).field (Nat.lt_succ_of_lt hn) (areFields_of_hasHead h)
  obtain ⟨elements, _, rfl, -, h⟩ := (Element.covers n).list.field hn h
  obtain rfl := eq_nil_of_areFields h
  exact ⟨⟨name, elements⟩, rfl⟩

theorem Compilation.covers (n : Nat) : Covers toValue (.named .compilation) n := by
  intro v hn h
  obtain ⟨namespaces, _, rfl, hn, h⟩ :=
    (Namespace.covers n).list.field (Nat.lt_succ_of_lt hn) (areFields_of_hasHead h)
  obtain ⟨entryPoints, _, rfl, -, h⟩ := (QualifiedName.covers n).list.field hn h
  obtain rfl := eq_nil_of_areFields h
  exact ⟨⟨namespaces, entryPoints⟩, rfl⟩

/-- **A program that is decoded is spelled by the value that was read**, and its doubles are finite. -/
theorem Compilation.conforms_of_decode {j : Json} {c : Compilation} (h : Formatted.decode j = .ok c) :
    j.readAs (.named .compilation) = .ok c.toValue ∧ c.toValue.IsFinite := by
  obtain ⟨v, hv, hc⟩ := Except.of_bind_ok h
  have hconforms := Json.readAs_conforms hv
  obtain ⟨c', rfl⟩ := Compilation.covers (v.size + 1) v (Nat.lt_succ_self _) hconforms.hasHead
  have hback : Formatted.ofValue c'.toValue = some c' := c'.ofValue_toValue
  simp only [hback] at hc
  cases hc
  exact ⟨hv, hconforms.finite⟩

end OutcomeControl
