import Mathlib.Logic.Basic
import OutcomeControl.Proofs.Parameters

/-! Programs that differ in names alone.

A `Renaming` gives new names to callables and to variables. In a tree it reaches every place that
names one: declarations and bindings, identifiers, the resolutions beside them, the owners of type
parameters and the parents of specializations. The names of user-defined types and of type parameters
are not its concern.

A tree that mentions nothing that gets another name stays as it is (`Element.rename_of_spared`). What
the pass decides about a tree and what it builds from it does not depend on the names: decisions are
the same after a renaming (`Statement.outcomeTest?_rename`), and constructions can be renamed part by
part (`Primitive.controlCall_rename`, `Frame.reroute_operation_rename`). -/

namespace OutcomeControl

structure Renaming where
  ofCallable : QualifiedName → QualifiedName
  ofVariable : String → String

section
variable (σ : Renaming)

def TypeParameter.rename (p : TypeParameter) : TypeParameter :=
  { p with origin := σ.ofCallable p.origin }

def Ty.rename : Ty → Ty := Ty.mapParameters (TypeParameter.rename σ)

def Resolution.rename (r : Resolution) : Resolution :=
  ⟨σ.ofCallable r.callable, r.parameter, r.ty.rename σ⟩

def ExprInfo.rename (i : ExprInfo) : ExprInfo :=
  { i with resolutions := i.resolutions.map (Resolution.rename σ), ty := i.ty.rename σ }

def Identifier.rename : Identifier → Identifier
  | .ofVariable name => .ofVariable (σ.ofVariable name)
  | .ofCallable name => .ofCallable (σ.ofCallable name)
  | .invalid => .invalid

mutual
def Expr.rename : Expr → Expr
  | ⟨kind, info⟩ => ⟨kind.rename, info.rename σ⟩
def ExprKind.rename : ExprKind → ExprKind
  | .unit => .unit
  | .name id arguments => .name (id.rename σ) (arguments.map (List.map (Ty.rename σ)))
  | .tuple items => .tuple (Expr.renameList items)
  | .array items => .array (Expr.renameList items)
  | .int n => .int n
  | .double d => .double d
  | .bool b => .bool b
  | .string s => .string s
  | .outcome o => .outcome o
  | .binary op lhs rhs => .binary op lhs.rename rhs.rename
  | .unary op operand => .unary op operand.rename
  | .item array index => .item array.rename index.rename
  | .choice condition yes no => .choice condition.rename yes.rename no.rename
  | .call callee argument => .call callee.rename argument.rename
  | .missing => .missing
  | .invalid => .invalid
def Expr.renameList : List Expr → List Expr
  | [] => []
  | e :: es => e.rename :: Expr.renameList es
end

def Variable.rename (v : Variable) : Variable :=
  { v with name := σ.ofVariable v.name, ty := v.ty.rename σ }

mutual
def SymbolTuple.rename : SymbolTuple → SymbolTuple
  | .name n => .name (σ.ofVariable n)
  | .tuple items => .tuple (SymbolTuple.renameList items)
  | .discard => .discard
  | .invalid => .invalid
def SymbolTuple.renameList : List SymbolTuple → List SymbolTuple
  | [] => []
  | s :: ss => s.rename :: SymbolTuple.renameList ss
end

mutual
def QubitInit.rename : QubitInit → QubitInit
  | .single => .single
  | .register size => .register (size.rename σ)
  | .tuple items => .tuple (QubitInit.renameList items)
def QubitInit.renameList : List QubitInit → List QubitInit
  | [] => []
  | q :: qs => q.rename :: QubitInit.renameList qs
end

def StatementInfo.rename (i : StatementInfo) : StatementInfo :=
  { i with declarations := i.declarations.map (Variable.rename σ) }

mutual
def Statement.rename : Statement → Statement
  | ⟨kind, info⟩ => ⟨kind.rename, info.rename σ⟩
def StatementKind.rename : StatementKind → StatementKind
  | .expression e => .expression (e.rename σ)
  | .returns e => .returns (e.rename σ)
  | .fails e => .fails (e.rename σ)
  | .binding ⟨kind, lhs, rhs⟩ => .binding ⟨kind, lhs.rename σ, rhs.rename σ⟩
  | .update lhs rhs => .update (lhs.rename σ) (rhs.rename σ)
  | .conditional branches => .conditional branches.rename
  | .forEach symbols itemTy iterable body =>
    .forEach (symbols.rename σ) (itemTy.rename σ) (iterable.rename σ) body.rename
  | .whileLoop condition body => .whileLoop (condition.rename σ) body.rename
  | .repeatUntil block success fixup =>
    .repeatUntil block.rename (success.rename σ) fixup.rename
  | .qubits kind ⟨kind', lhs, rhs⟩ body =>
    .qubits kind ⟨kind', lhs.rename σ, rhs.rename σ⟩ body.rename
def Branches.rename : Branches → Branches
  | .done => .done
  | .otherwise block => .otherwise block.rename
  | .arm condition block rest => .arm (condition.rename σ) block.rename rest.rename
def Block.rename : Block → Block
  | ⟨body, location, comments⟩ => ⟨body.rename, location, comments⟩
def Scope.rename : Scope → Scope
  | ⟨statements, known⟩ => ⟨Statement.renameList statements, known.map (Variable.rename σ)⟩
def Statement.renameList : List Statement → List Statement
  | [] => []
  | s :: ss => s.rename :: Statement.renameList ss
end

def Symbol.rename : Symbol → Symbol
  | .valid name => .valid (σ.ofVariable name)
  | .invalid => .invalid

mutual
def Params.rename : Params → Params
  | .item d => .item { d with name := d.name.rename σ, ty := d.ty.rename σ }
  | .tuple items => .tuple (Params.renameList items)
def Params.renameList : List Params → List Params
  | [] => []
  | p :: ps => p.rename :: Params.renameList ps
end

def Signature.rename (s : Signature) : Signature :=
  { s with argument := s.argument.rename σ, result := s.result.rename σ }

def Implementation.rename : Implementation → Implementation
  | .provided params scope => .provided (params.rename σ) (scope.rename σ)
  | .intrinsic => .intrinsic
  | .external => .external
  | .generated directive => .generated directive

def Specialization.rename (s : Specialization) : Specialization :=
  { s with
    parent := σ.ofCallable s.parent
    typeArguments := s.typeArguments.map (List.map (Ty.rename σ))
    signature := s.signature.rename σ
    implementation := s.implementation.rename σ }

def Callable.rename (c : Callable) : Callable :=
  { c with
    name := σ.ofCallable c.name
    signature := c.signature.rename σ
    params := c.params.rename σ
    specializations := c.specializations.map (Specialization.rename σ) }

def Element.rename : Element → Element
  | .callable c => .callable (c.rename σ)
  | .customType t => .customType { t with underlying := t.underlying.rename σ }

def Namespace.rename (ns : Namespace) : Namespace :=
  { ns with elements := ns.elements.map (Element.rename σ) }

def Event.rename : Event → Event
  | .untested callable => .untested (σ.ofCallable callable)
  | .kept callable condition => .kept (σ.ofCallable callable) (condition.rename σ)
  | .bound ty name => .bound (ty.rename σ) (σ.ofVariable name)
  | .hoisted statements source target captured =>
    .hoisted statements (σ.ofCallable source) (σ.ofCallable target) captured
  | .extended space count => .extended space count

@[simp] theorem Expr.renameList_eq (es : List Expr) :
    Expr.renameList σ es = es.map (Expr.rename σ) := by
  induction es with
  | nil => rfl
  | cons e es ih => rw [Expr.renameList, ih, List.map_cons]

@[simp] theorem Statement.renameList_eq (ss : List Statement) :
    Statement.renameList σ ss = ss.map (Statement.rename σ) := by
  induction ss with
  | nil => rfl
  | cons s ss ih => rw [Statement.renameList, ih, List.map_cons]

@[simp] theorem Params.renameList_eq (ps : List Params) :
    Params.renameList σ ps = ps.map (Params.rename σ) := by
  induction ps with
  | nil => rfl
  | cons p ps ih => rw [Params.renameList, ih, List.map_cons]

end

/-! ### Trees that are left alone -/

/-- What the node mentions by itself keeps its name. -/
def Visit.Spared (σ : Renaming) : Visit → Prop
  | .expression e =>
    (∀ id arguments, e.kind = .name id arguments → id.rename σ = id) ∧
      ∀ r ∈ e.info.resolutions, σ.ofCallable r.callable = r.callable
  | .type (.parameter p) => σ.ofCallable p.origin = p.origin
  | .localName n => σ.ofVariable n = n
  | _ => True

/-- Nothing that is met gets another name. -/
def Spared (σ : Renaming) (vs : List Visit) : Prop := ∀ v ∈ vs, v.Spared σ

section
variable {σ : Renaming}

@[simp] theorem spared_nil : Spared σ [] := fun _ hv => by cases hv

@[simp] theorem spared_cons {v : Visit} {vs : List Visit} :
    Spared σ (v :: vs) ↔ v.Spared σ ∧ Spared σ vs := List.forall_mem_cons

@[simp] theorem spared_append {vs ws : List Visit} :
    Spared σ (vs ++ ws) ↔ Spared σ vs ∧ Spared σ ws := List.forall_mem_append

@[simp] theorem spared_flatMap {α : Type} {f : α → List Visit} {as : List α} :
    Spared σ (as.flatMap f) ↔ ∀ a ∈ as, Spared σ (f a) := List.forall_mem_flatMap

theorem map_eq_self {α : Type} {f : α → α} {as : List α} (h : ∀ a ∈ as, f a = a) :
    as.map f = as := (List.map_congr_left h).trans as.map_id

mutual
theorem Ty.rename_of_spared : (t : Ty) → Spared σ t.visits → t.rename σ = t
  | .unit, _ | .int, _ | .double, _ | .bool, _ | .string, _ | .outcome, _ | .qubit, _ => rfl
  | .range, _ | .custom _, _ | .missing, _ | .invalid, _ => rfl
  | .parameter p, h =>
    congrArg (fun origin => Ty.parameter { p with origin }) (spared_cons.mp h).1
  | .array item, h => congrArg Ty.array (item.rename_of_spared (spared_cons.mp h).2)
  | .tuple items, h => congrArg Ty.tuple (Ty.renameList_of_spared items (spared_cons.mp h).2)
  | .operation input output cs, h => by
    simp only [Ty.visits, spared_cons, spared_append] at h
    exact congrArg₂ (Ty.operation · · cs) (input.rename_of_spared h.2.1) (output.rename_of_spared h.2.2)
  | .function input output, h => by
    simp only [Ty.visits, spared_cons, spared_append] at h
    exact congrArg₂ Ty.function (input.rename_of_spared h.2.1) (output.rename_of_spared h.2.2)
theorem Ty.renameList_of_spared : (ts : List Ty) → Spared σ (Ty.visitsList ts) →
    Ty.mapParametersList (TypeParameter.rename σ) ts = ts
  | [], _ => rfl
  | t :: ts, h => by
    rw [Ty.visitsList, spared_append] at h
    exact congrArg₂ List.cons (t.rename_of_spared h.1) (Ty.renameList_of_spared ts h.2)
end

@[simp] theorem Ty.renameList_eq (ts : List Ty) :
    Ty.mapParametersList (TypeParameter.rename σ) ts = ts.map (Ty.rename σ) := by
  induction ts with
  | nil => rfl
  | cons t ts ih => rw [Ty.mapParametersList, ih, List.map_cons, Ty.rename]

theorem Ty.arguments_of_spared {arguments : Option (List Ty)}
    (h : Spared σ (Ty.visitsList (arguments.getD []))) :
    arguments.map (List.map (Ty.rename σ)) = arguments := by
  cases arguments with
  | none => rfl
  | some ts => exact congrArg some ((Ty.renameList_eq ts).symm.trans (Ty.renameList_of_spared ts h))

mutual
theorem Expr.rename_of_spared : (e : Expr) → Spared σ e.visits → e.rename σ = e
  | ⟨kind, ⟨resolutions, ty, inferred, range⟩⟩, h => by
    simp only [Expr.visits, ExprInfo.visits, spared_cons, spared_append, spared_flatMap] at h
    obtain ⟨⟨hid, hcallables⟩, hkind, hresolutions, hty⟩ := h
    have hmap : resolutions.map (Resolution.rename σ) = resolutions := by
      refine map_eq_self fun r hr => ?_
      rw [Resolution.rename, hcallables r hr, r.ty.rename_of_spared (hresolutions r hr)]
    rw [Expr.rename, kind.rename_of_spared hid hkind, ExprInfo.rename, hmap, ty.rename_of_spared hty]
theorem ExprKind.rename_of_spared : (k : ExprKind) →
    (∀ id arguments, k = .name id arguments → id.rename σ = id) → Spared σ k.visits →
    k.rename σ = k
  | .unit, _, _ | .int _, _, _ | .double _, _, _ | .bool _, _, _ | .string _, _, _ => rfl
  | .outcome _, _, _ | .missing, _, _ | .invalid, _, _ => rfl
  | .name id arguments, hid, h =>
    congrArg₂ ExprKind.name (hid id arguments rfl) (Ty.arguments_of_spared h)
  | .tuple items, _, h => congrArg ExprKind.tuple (Expr.renameList_of_spared items h)
  | .array items, _, h => congrArg ExprKind.array (Expr.renameList_of_spared items h)
  | .unary op operand, _, h => congrArg (ExprKind.unary op) (operand.rename_of_spared h)
  | .binary op lhs rhs, _, h => by
    rw [ExprKind.visits, spared_append] at h
    exact congrArg₂ (ExprKind.binary op) (lhs.rename_of_spared h.1) (rhs.rename_of_spared h.2)
  | .item array index, _, h => by
    rw [ExprKind.visits, spared_append] at h
    exact congrArg₂ ExprKind.item (array.rename_of_spared h.1) (index.rename_of_spared h.2)
  | .choice condition yes no, _, h => by
    rw [ExprKind.visits, spared_append, spared_append] at h
    rw [ExprKind.rename, condition.rename_of_spared h.1, yes.rename_of_spared h.2.1,
      no.rename_of_spared h.2.2]
  | .call callee argument, _, h => by
    rw [ExprKind.visits, spared_append] at h
    exact congrArg₂ ExprKind.call (callee.rename_of_spared h.1) (argument.rename_of_spared h.2)
theorem Expr.renameList_of_spared : (es : List Expr) → Spared σ (Expr.visitsList es) →
    Expr.renameList σ es = es
  | [], _ => rfl
  | e :: es, h => by
    rw [Expr.visitsList, spared_append] at h
    exact congrArg₂ List.cons (e.rename_of_spared h.1) (Expr.renameList_of_spared es h.2)
end

theorem Variable.renameList_of_spared {vs : List Variable}
    (h : Spared σ (vs.flatMap Variable.visits)) : vs.map (Variable.rename σ) = vs := by
  refine map_eq_self fun v hv => ?_
  obtain ⟨hname, hty⟩ := spared_cons.mp (spared_flatMap.mp h v hv)
  rw [Variable.rename, hname, v.ty.rename_of_spared hty]

mutual
theorem SymbolTuple.rename_of_spared : (s : SymbolTuple) → Spared σ s.visits → s.rename σ = s
  | .name _, h => congrArg SymbolTuple.name (spared_cons.mp h).1
  | .tuple items, h => congrArg SymbolTuple.tuple (SymbolTuple.renameList_of_spared items h)
  | .discard, _ | .invalid, _ => rfl
theorem SymbolTuple.renameList_of_spared : (ss : List SymbolTuple) →
    Spared σ (SymbolTuple.visitsList ss) → SymbolTuple.renameList σ ss = ss
  | [], _ => rfl
  | s :: ss, h => by
    rw [SymbolTuple.visitsList, spared_append] at h
    exact congrArg₂ List.cons (s.rename_of_spared h.1) (SymbolTuple.renameList_of_spared ss h.2)
end

mutual
theorem QubitInit.rename_of_spared : (q : QubitInit) → Spared σ q.visits → q.rename σ = q
  | .single, _ => rfl
  | .register size, h => congrArg QubitInit.register (size.rename_of_spared h)
  | .tuple items, h => congrArg QubitInit.tuple (QubitInit.renameList_of_spared items h)
theorem QubitInit.renameList_of_spared : (qs : List QubitInit) →
    Spared σ (QubitInit.visitsList qs) → QubitInit.renameList σ qs = qs
  | [], _ => rfl
  | q :: qs, h => by
    rw [QubitInit.visitsList, spared_append] at h
    exact congrArg₂ List.cons (q.rename_of_spared h.1) (QubitInit.renameList_of_spared qs h.2)
end

mutual
theorem Statement.rename_of_spared : (s : Statement) → Spared σ s.visits → s.rename σ = s
  | ⟨kind, ⟨declarations, location, comments⟩⟩, h => by
    rw [Statement.visits, spared_cons, spared_append] at h
    rw [Statement.rename, StatementInfo.rename, Variable.renameList_of_spared h.2.1,
      kind.rename_of_spared h.2.2]
theorem StatementKind.rename_of_spared : (k : StatementKind) → Spared σ k.visits → k.rename σ = k
  | .expression e, h => congrArg StatementKind.expression (e.rename_of_spared h)
  | .returns e, h => congrArg StatementKind.returns (e.rename_of_spared h)
  | .fails e, h => congrArg StatementKind.fails (e.rename_of_spared h)
  | .binding ⟨kind, lhs, rhs⟩, h => by
    rw [StatementKind.visits, spared_append] at h
    rw [StatementKind.rename, lhs.rename_of_spared h.1, rhs.rename_of_spared h.2]
  | .update lhs rhs, h => by
    rw [StatementKind.visits, spared_append] at h
    rw [StatementKind.rename, lhs.rename_of_spared h.1, rhs.rename_of_spared h.2]
  | .conditional branches, h => congrArg StatementKind.conditional (branches.rename_of_spared h)
  | .forEach symbols itemTy iterable body, h => by
    simp only [StatementKind.visits, spared_append] at h
    rw [StatementKind.rename, symbols.rename_of_spared h.1, itemTy.rename_of_spared h.2.1,
      iterable.rename_of_spared h.2.2.1, body.rename_of_spared h.2.2.2]
  | .whileLoop condition body, h => by
    rw [StatementKind.visits, spared_append] at h
    rw [StatementKind.rename, condition.rename_of_spared h.1, body.rename_of_spared h.2]
  | .repeatUntil block success fixup, h => by
    simp only [StatementKind.visits, spared_append] at h
    rw [StatementKind.rename, block.rename_of_spared h.1, success.rename_of_spared h.2.1,
      fixup.rename_of_spared h.2.2]
  | .qubits kind ⟨kind', lhs, rhs⟩ body, h => by
    simp only [StatementKind.visits, spared_append] at h
    rw [StatementKind.rename, lhs.rename_of_spared h.1, rhs.rename_of_spared h.2.1,
      body.rename_of_spared h.2.2]
theorem Branches.rename_of_spared : (b : Branches) → Spared σ b.visits → b.rename σ = b
  | .done, _ => rfl
  | .otherwise block, h => congrArg Branches.otherwise (block.rename_of_spared h)
  | .arm condition block rest, h => by
    simp only [Branches.visits, spared_append] at h
    rw [Branches.rename, condition.rename_of_spared h.1, block.rename_of_spared h.2.1,
      rest.rename_of_spared h.2.2]
theorem Block.rename_of_spared : (b : Block) → Spared σ b.visits → b.rename σ = b
  | ⟨body, location, comments⟩, h =>
    congrArg (Block.mk · location comments) (body.rename_of_spared h)
theorem Scope.rename_of_spared : (s : Scope) → Spared σ s.visits → s.rename σ = s
  | ⟨statements, known⟩, h => by
    rw [Scope.visits, spared_cons, spared_append] at h
    rw [Scope.rename, Statement.renameList_of_spared statements h.2.2,
      Variable.renameList_of_spared h.2.1]
theorem Statement.renameList_of_spared : (ss : List Statement) →
    Spared σ (Statement.visitsList ss) → Statement.renameList σ ss = ss
  | [], _ => rfl
  | s :: ss, h => by
    rw [Statement.visitsList, spared_append] at h
    exact congrArg₂ List.cons (s.rename_of_spared h.1) (Statement.renameList_of_spared ss h.2)
end

mutual
theorem Params.rename_of_spared : (ps : Params) → Spared σ ps.visits → ps.rename σ = ps
  | .item ⟨name, ty, _, _, _⟩, h => by
    rw [Params.visits, spared_append] at h
    have hname : name.rename σ = name := by
      cases name with
      | valid n => exact congrArg Symbol.valid (spared_cons.mp h.1).1
      | invalid => rfl
    rw [Params.rename, hname, ty.rename_of_spared h.2]
  | .tuple items, h => congrArg Params.tuple (Params.renameList_of_spared items h)
theorem Params.renameList_of_spared : (ps : List Params) → Spared σ (Params.visitsList ps) →
    Params.renameList σ ps = ps
  | [], _ => rfl
  | p :: ps, h => by
    rw [Params.visitsList, spared_append] at h
    exact congrArg₂ List.cons (p.rename_of_spared h.1) (Params.renameList_of_spared ps h.2)
end

theorem Signature.rename_of_spared {s : Signature} (h : Spared σ s.visits) : s.rename σ = s := by
  rw [Signature.visits, spared_append] at h
  rw [Signature.rename, s.argument.rename_of_spared h.1, s.result.rename_of_spared h.2]

theorem Implementation.rename_of_spared {i : Implementation} (h : Spared σ i.visits) :
    i.rename σ = i := by
  cases i with
  | provided params scope =>
    rw [Implementation.visits, spared_append] at h
    rw [Implementation.rename, params.rename_of_spared h.1, scope.rename_of_spared h.2]
  | intrinsic | external | generated directive => rfl

theorem Specialization.rename_of_spared {s : Specialization}
    (hparent : σ.ofCallable s.parent = s.parent) (h : Spared σ s.visits) : s.rename σ = s := by
  simp only [Specialization.visits, spared_append] at h
  rw [Specialization.rename, hparent, Ty.arguments_of_spared h.1.1,
    Signature.rename_of_spared h.1.2, Implementation.rename_of_spared h.2]

/-- The parents that the specializations of a callable name. -/
def Element.parents : Element → List QualifiedName
  | .callable c => c.specializations.map (·.parent)
  | .customType _ => []

theorem Callable.rename_of_spared {c : Callable} (hname : σ.ofCallable c.name = c.name)
    (hparents : ∀ q ∈ (Element.callable c).parents, σ.ofCallable q = q) (h : Spared σ c.visits) :
    c.rename σ = c := by
  simp only [Callable.visits, spared_cons, spared_append, spared_flatMap] at h
  have hspecializations : c.specializations.map (Specialization.rename σ) = c.specializations :=
    map_eq_self fun s hs =>
      Specialization.rename_of_spared (hparents _ (List.mem_map_of_mem hs)) (h.2.2 s hs)
  rw [Callable.rename, hname, Signature.rename_of_spared h.2.1.1, c.params.rename_of_spared h.2.1.2,
    hspecializations]

end

/-! ### Changes of type parameters -/

/-- The change `f` before the renaming is the change `g` after it. -/
def Renaming.Carries (σ : Renaming) (f g : TypeParameter → TypeParameter) : Prop :=
  ∀ x, (f x).rename σ = g (x.rename σ)

section
variable {σ : Renaming} {f g : TypeParameter → TypeParameter}

mutual
theorem Ty.rename_mapParameters (h : σ.Carries f g) : (t : Ty) →
    (t.mapParameters f).rename σ = (t.rename σ).mapParameters g
  | .unit | .int | .double | .bool | .string | .outcome | .qubit | .range => rfl
  | .custom _ | .missing | .invalid => rfl
  | .parameter x => congrArg Ty.parameter (h x)
  | .array item => congrArg Ty.array (item.rename_mapParameters h)
  | .tuple items => congrArg Ty.tuple (Ty.renameList_mapParameters h items)
  | .operation input output cs =>
    congrArg₂ (Ty.operation · · cs) (input.rename_mapParameters h) (output.rename_mapParameters h)
  | .function input output =>
    congrArg₂ Ty.function (input.rename_mapParameters h) (output.rename_mapParameters h)
theorem Ty.renameList_mapParameters (h : σ.Carries f g) : (ts : List Ty) →
    Ty.mapParametersList (TypeParameter.rename σ) (Ty.mapParametersList f ts) =
      Ty.mapParametersList g (Ty.mapParametersList (TypeParameter.rename σ) ts)
  | [] => rfl
  | t :: ts => congrArg₂ List.cons (t.rename_mapParameters h) (Ty.renameList_mapParameters h ts)
end

theorem Ty.arguments_mapParameters (h : σ.Carries f g) (arguments : Option (List Ty)) :
    (arguments.map (Ty.mapParametersList f)).map (List.map (Ty.rename σ)) =
      (arguments.map (List.map (Ty.rename σ))).map (Ty.mapParametersList g) := by
  cases arguments with
  | none => rfl
  | some ts =>
    simp only [Option.map_some, ← Ty.renameList_eq, Ty.renameList_mapParameters h]

theorem ExprInfo.rename_mapParameters (h : σ.Carries f g) (i : ExprInfo) :
    (i.mapParameters f).rename σ = (i.rename σ).mapParameters g := by
  simp only [ExprInfo.rename, ExprInfo.mapParameters, List.map_map, Ty.rename_mapParameters h]
  congr 1
  refine List.map_congr_left fun r _ => ?_
  exact congrArg (Resolution.mk _ _) (r.ty.rename_mapParameters h)

mutual
theorem Expr.rename_mapParameters (h : σ.Carries f g) : (e : Expr) →
    (e.mapParameters f).rename σ = (e.rename σ).mapParameters g
  | ⟨kind, info⟩ => congrArg₂ Expr.mk (kind.rename_mapParameters h) (info.rename_mapParameters h)
theorem ExprKind.rename_mapParameters (h : σ.Carries f g) : (k : ExprKind) →
    (k.mapParameters f).rename σ = (k.rename σ).mapParameters g
  | .unit | .int _ | .double _ | .bool _ | .string _ | .outcome _ | .missing | .invalid => rfl
  | .name id arguments => congrArg (ExprKind.name _) (Ty.arguments_mapParameters h arguments)
  | .tuple items => congrArg ExprKind.tuple (Expr.renameList_mapParameters h items)
  | .array items => congrArg ExprKind.array (Expr.renameList_mapParameters h items)
  | .unary op operand => congrArg (ExprKind.unary op) (operand.rename_mapParameters h)
  | .binary op lhs rhs =>
    congrArg₂ (ExprKind.binary op) (lhs.rename_mapParameters h) (rhs.rename_mapParameters h)
  | .item array index =>
    congrArg₂ ExprKind.item (array.rename_mapParameters h) (index.rename_mapParameters h)
  | .choice condition yes no => by
    simp only [ExprKind.mapParameters, ExprKind.rename, condition.rename_mapParameters h,
      yes.rename_mapParameters h, no.rename_mapParameters h]
  | .call callee argument =>
    congrArg₂ ExprKind.call (callee.rename_mapParameters h) (argument.rename_mapParameters h)
theorem Expr.renameList_mapParameters (h : σ.Carries f g) : (es : List Expr) →
    Expr.renameList σ (Expr.mapParametersList f es) =
      Expr.mapParametersList g (Expr.renameList σ es)
  | [] => rfl
  | e :: es => congrArg₂ List.cons (e.rename_mapParameters h) (Expr.renameList_mapParameters h es)
end

theorem Variable.renameList_mapParameters (h : σ.Carries f g) (vs : List Variable) :
    (vs.map (Declaration.mapParameters f)).map (Variable.rename σ) =
      (vs.map (Variable.rename σ)).map (Declaration.mapParameters g) := by
  rw [List.map_map, List.map_map]
  refine List.map_congr_left fun v _ => ?_
  exact congrArg (fun ty => { v with name := σ.ofVariable v.name, ty })
    (v.ty.rename_mapParameters h)

mutual
theorem QubitInit.rename_mapParameters (h : σ.Carries f g) : (q : QubitInit) →
    (q.mapParameters f).rename σ = (q.rename σ).mapParameters g
  | .single => rfl
  | .register size => congrArg QubitInit.register (size.rename_mapParameters h)
  | .tuple items => congrArg QubitInit.tuple (QubitInit.renameList_mapParameters h items)
theorem QubitInit.renameList_mapParameters (h : σ.Carries f g) : (qs : List QubitInit) →
    QubitInit.renameList σ (QubitInit.mapParametersList f qs) =
      QubitInit.mapParametersList g (QubitInit.renameList σ qs)
  | [] => rfl
  | q :: qs => congrArg₂ List.cons (q.rename_mapParameters h) (QubitInit.renameList_mapParameters h qs)
end

mutual
theorem Statement.rename_mapParameters (h : σ.Carries f g) : (s : Statement) →
    (s.mapParameters f).rename σ = (s.rename σ).mapParameters g
  | ⟨kind, info⟩ => by
    simp only [Statement.mapParameters, Statement.rename, StatementInfo.mapParameters,
      StatementInfo.rename, kind.rename_mapParameters h, Variable.renameList_mapParameters h]
theorem StatementKind.rename_mapParameters (h : σ.Carries f g) : (k : StatementKind) →
    (k.mapParameters f).rename σ = (k.rename σ).mapParameters g
  | .expression e => congrArg StatementKind.expression (e.rename_mapParameters h)
  | .returns e => congrArg StatementKind.returns (e.rename_mapParameters h)
  | .fails e => congrArg StatementKind.fails (e.rename_mapParameters h)
  | .binding ⟨kind, lhs, rhs⟩ =>
    congrArg (StatementKind.binding ⟨kind, lhs.rename σ, ·⟩) (rhs.rename_mapParameters h)
  | .update lhs rhs =>
    congrArg₂ StatementKind.update (lhs.rename_mapParameters h) (rhs.rename_mapParameters h)
  | .conditional branches => congrArg StatementKind.conditional (branches.rename_mapParameters h)
  | .forEach symbols itemTy iterable body => by
    simp only [StatementKind.mapParameters, StatementKind.rename, itemTy.rename_mapParameters h,
      iterable.rename_mapParameters h, body.rename_mapParameters h]
  | .whileLoop condition body =>
    congrArg₂ StatementKind.whileLoop (condition.rename_mapParameters h) (body.rename_mapParameters h)
  | .repeatUntil block success fixup => by
    simp only [StatementKind.mapParameters, StatementKind.rename, block.rename_mapParameters h,
      success.rename_mapParameters h, fixup.rename_mapParameters h]
  | .qubits kind ⟨kind', lhs, rhs⟩ body => by
    simp only [StatementKind.mapParameters, StatementKind.rename, rhs.rename_mapParameters h,
      body.rename_mapParameters h]
theorem Branches.rename_mapParameters (h : σ.Carries f g) : (b : Branches) →
    (b.mapParameters f).rename σ = (b.rename σ).mapParameters g
  | .done => rfl
  | .otherwise block => congrArg Branches.otherwise (block.rename_mapParameters h)
  | .arm condition block rest => by
    simp only [Branches.mapParameters, Branches.rename, condition.rename_mapParameters h,
      block.rename_mapParameters h, rest.rename_mapParameters h]
theorem Block.rename_mapParameters (h : σ.Carries f g) : (b : Block) →
    (b.mapParameters f).rename σ = (b.rename σ).mapParameters g
  | ⟨body, location, comments⟩ =>
    congrArg (Block.mk · location comments) (body.rename_mapParameters h)
theorem Scope.rename_mapParameters (h : σ.Carries f g) : (s : Scope) →
    (s.mapParameters f).rename σ = (s.rename σ).mapParameters g
  | ⟨statements, known⟩ =>
    congrArg₂ Scope.mk (Statement.renameList_mapParameters h statements)
      (Variable.renameList_mapParameters h known)
theorem Statement.renameList_mapParameters (h : σ.Carries f g) : (ss : List Statement) →
    Statement.renameList σ (Statement.mapParametersList f ss) =
      Statement.mapParametersList g (Statement.renameList σ ss)
  | [] => rfl
  | s :: ss =>
    congrArg₂ List.cons (s.rename_mapParameters h) (Statement.renameList_mapParameters h ss)
end

mutual
theorem Params.rename_mapParameters (h : σ.Carries f g) : (ps : Params) →
    (ps.mapParameters f).rename σ = (ps.rename σ).mapParameters g
  | .item d => congrArg (fun ty => Params.item { d with name := d.name.rename σ, ty })
    (d.ty.rename_mapParameters h)
  | .tuple items => congrArg Params.tuple (Params.renameList_mapParameters h items)
theorem Params.renameList_mapParameters (h : σ.Carries f g) : (ps : List Params) →
    Params.renameList σ (Params.mapParametersList f ps) =
      Params.mapParametersList g (Params.renameList σ ps)
  | [] => rfl
  | p :: ps => congrArg₂ List.cons (p.rename_mapParameters h) (Params.renameList_mapParameters h ps)
end

theorem Signature.rename_mapParameters (h : σ.Carries f g) (s : Signature) :
    (s.mapParameters f).rename σ = (s.rename σ).mapParameters g := by
  simp only [Signature.mapParameters, Signature.rename, Ty.rename_mapParameters h]

theorem Implementation.rename_mapParameters (h : σ.Carries f g) (i : Implementation) :
    (i.mapParameters f).rename σ = (i.rename σ).mapParameters g := by
  cases i with
  | provided params scope =>
    exact congrArg₂ Implementation.provided (params.rename_mapParameters h)
      (scope.rename_mapParameters h)
  | intrinsic | external | generated directive => rfl

theorem Specialization.rename_mapParameters (h : σ.Carries f g) (s : Specialization) :
    (s.mapParameters f).rename σ = (s.rename σ).mapParameters g := by
  simp only [Specialization.mapParameters, Specialization.rename, Ty.arguments_mapParameters h,
    Signature.rename_mapParameters h, Implementation.rename_mapParameters h]

theorem Callable.rename_mapParameters (h : σ.Carries f g) (c : Callable) :
    (c.mapParameters f).rename σ = (c.rename σ).mapParameters g := by
  simp only [Callable.mapParameters, Callable.rename, Signature.rename_mapParameters h,
    Params.rename_mapParameters h, List.map_map]
  congr 1
  exact List.map_congr_left fun s _ => (s.rename_mapParameters h)

end

/-- Changing the owner of type parameters, where the old owner and nothing else has its name. -/
theorem Callable.rename_reroute {σ : Renaming} {source : QualifiedName}
    (hsource : ∀ q, σ.ofCallable q = source ↔ q = source) (target : QualifiedName) (c : Callable) :
    (c.reroute source target).rename σ = (c.rename σ).reroute source (σ.ofCallable target) := by
  refine c.rename_mapParameters fun x => ?_
  by_cases hx : x.origin = source
  · simp [TypeParameter.reroute, TypeParameter.rename, hx, (hsource source).mpr rfl]
  · have hx' := (hsource x.origin).not.mpr hx
    simp [TypeParameter.reroute, TypeParameter.rename, hx, hx']

/-! ### Decisions -/

section
variable (σ : Renaming)

@[simp] theorem Expr.ty_rename (e : Expr) : (e.rename σ).ty = e.ty.rename σ := by
  obtain ⟨kind, info⟩ := e
  rfl

@[simp] theorem Ty.isUnit_rename (t : Ty) : (t.rename σ).isUnit = t.isUnit := by cases t <;> rfl

@[simp] theorem Expr.isName_rename (e : Expr) : (e.rename σ).isName = e.isName := by
  obtain ⟨kind, info⟩ := e
  cases kind <;> rfl

@[simp] theorem Statement.isUnitCall_rename (s : Statement) :
    (s.rename σ).isUnitCall = s.isUnitCall := by
  obtain ⟨kind, info⟩ := s
  cases kind with
  | expression e =>
    simp only [Statement.rename, StatementKind.rename, Statement.isUnitCall, Expr.ty_rename,
      Ty.isUnit_rename]
    obtain ⟨ekind, einfo⟩ := e
    cases ekind <;> rfl
  | _ => rfl

@[simp] theorem Scope.isCallSequence_rename (s : Scope) :
    (s.rename σ).isCallSequence = s.isCallSequence := by
  obtain ⟨statements, known⟩ := s
  simp [Scope.rename, Scope.isCallSequence, List.all_map, Function.comp_def]

/-- The outcome that is written here. -/
def Expr.literal? (e : Expr) : Option Outcome := match e.kind with
  | .outcome o => some o
  | _ => none

theorem Expr.literal?_eq_some {e : Expr} {o : Outcome} : e.literal? = some o ↔ e.kind = .outcome o := by
  obtain ⟨kind, info⟩ := e
  cases kind <;> simp [Expr.literal?]

@[simp] theorem Expr.literal?_rename (e : Expr) : (e.rename σ).literal? = e.literal? := by
  obtain ⟨kind, info⟩ := e
  cases kind <;> rfl

theorem Expr.outcomeComparison?_binary (lhs rhs : Expr) (info : ExprInfo) :
    (⟨.binary .eq lhs rhs, info⟩ : Expr).outcomeComparison? =
      (lhs.literal?.map (·, rhs)).or (rhs.literal?.map (·, lhs)) := by
  have hnone : ∀ e : Expr, (∀ o, e.kind = .outcome o → False) → e.literal? = none :=
    fun e h => Option.eq_none_iff_forall_ne_some.mpr fun o ho => h o (Expr.literal?_eq_some.mp ho)
  simp only [Expr.outcomeComparison?]
  split
  case h_1 o hl => rw [Expr.literal?_eq_some.mpr hl]; rfl
  case h_2 o hl hr => rw [hnone lhs hr, Expr.literal?_eq_some.mpr hl]; rfl
  case h_3 hl hr => rw [hnone lhs hl, hnone rhs hr]; rfl

theorem Expr.outcomeComparison?_rename (e : Expr) :
    (e.rename σ).outcomeComparison? =
      e.outcomeComparison?.map fun (outcome, condition) => (outcome, condition.rename σ) := by
  obtain ⟨kind, info⟩ := e
  cases kind with
  | binary op lhs rhs =>
    cases op with
    | eq =>
      rw [Expr.rename, ExprKind.rename, Expr.outcomeComparison?_binary, Expr.outcomeComparison?_binary,
        Expr.literal?_rename, Expr.literal?_rename]
      cases lhs.literal? <;> cases rhs.literal? <;> rfl
    | _ => rfl
  | _ => rfl

theorem Branches.arms_rename (b : Branches) :
    (b.rename σ).arms = b.arms.map fun (guard, block) => (guard.rename σ, block.rename σ) := by
  induction b using Branches.arms.induct with
  | case1 => rfl
  | case2 block => rfl
  | case3 guard block rest ih => simp [Branches.rename, Branches.arms, ih]

theorem Branches.default?_rename (b : Branches) :
    (b.rename σ).default? = b.default?.map (Block.rename σ) := by
  induction b using Branches.arms.induct with
  | case1 => rfl
  | case2 block => rfl
  | case3 guard block rest ih => simp [Branches.rename, Branches.default?, ih]

def OutcomeTest.rename (t : OutcomeTest) : OutcomeTest :=
  ⟨t.outcome, t.condition.rename σ, t.body.rename σ, t.default.map (Scope.rename σ)⟩

theorem Statement.outcomeTest?_rename (s : Statement) :
    (s.rename σ).outcomeTest? = s.outcomeTest?.map (OutcomeTest.rename σ) := by
  obtain ⟨kind, info⟩ := s
  cases kind with
  | conditional branches =>
    simp only [Statement.rename, StatementKind.rename, Statement.outcomeTest?,
      Branches.arms_rename, Branches.default?_rename]
    rcases branches.arms with _ | ⟨⟨guard, block⟩, _ | ⟨arm, arms⟩⟩
    · rfl
    · simp only [List.map_cons, List.map_nil, Expr.outcomeComparison?_rename, Option.map_map]
      obtain ⟨body, location, comments⟩ := block
      cases guard.outcomeComparison? with
      | none => rfl
      | some test =>
        cases branches.default? with
        | none => rfl
        | some other => cases other; rfl
    · rfl
  | _ => rfl

@[simp] theorem OutcomeTest.isSeparable_rename (t : OutcomeTest) :
    (t.rename σ).isSeparable = t.isSeparable := by
  obtain ⟨outcome, condition, body, default⟩ := t
  cases default <;> simp [OutcomeTest.rename, OutcomeTest.isSeparable]

end

/-! ### Constructions -/

def Target.rename (σ : Renaming) (t : Target) : Target := ⟨σ.ofCallable t.name, t.paramTy.rename σ⟩

section
variable (σ : Renaming)

theorem Ty.tupleOf_rename (ts : List Ty) :
    (Ty.tupleOf ts).rename σ = .tupleOf (ts.map (Ty.rename σ)) := by
  cases ts with
  | nil => rfl
  | cons t ts => exact congrArg Ty.tuple (Ty.renameList_eq (t :: ts))

@[simp] theorem Variable.map_ty_rename (vs : List Variable) :
    (vs.map (Variable.rename σ)).map (·.ty) = (vs.map (·.ty)).map (Ty.rename σ) := by
  rw [List.map_map, List.map_map]
  rfl

@[simp] theorem Scope.known_rename (s : Scope) :
    (s.rename σ).known = s.known.map (Variable.rename σ) := by
  obtain ⟨statements, known⟩ := s
  rfl

@[simp] theorem Scope.length_statements_rename (s : Scope) :
    (s.rename σ).statements.length = s.statements.length := by
  obtain ⟨statements, known⟩ := s
  simp [Scope.rename]

@[simp] theorem Statement.comments_rename (s : Statement) :
    (s.rename σ).info.comments = s.info.comments := by
  obtain ⟨kind, info⟩ := s
  rfl

theorem Expr.localName_rename (name : String) (ty : Ty) :
    (Expr.localName name ty).rename σ = .localName (σ.ofVariable name) (ty.rename σ) := rfl

theorem Expr.tuple_rename (es : List Expr) :
    (Expr.tuple es).rename σ = .tuple (es.map (Expr.rename σ)) := by
  have htys : (es.map Expr.ty).map (Ty.rename σ) = (es.map (Expr.rename σ)).map Expr.ty := by
    rw [List.map_map, List.map_map]
    exact List.map_congr_left fun e _ => (e.ty_rename σ).symm
  change Expr.mk (.tuple (Expr.renameList σ es)) { ty := (Ty.tupleOf (es.map Expr.ty)).rename σ } = _
  rw [Expr.renameList_eq, Ty.tupleOf_rename, htys]
  rfl

theorem capturedValues_rename (vs : List Variable) :
    (capturedValues vs).rename σ = capturedValues (vs.map (Variable.rename σ)) := by
  cases vs with
  | nil => rfl
  | cons v vs =>
    simp only [capturedValues, List.map_cons, Expr.tuple_rename, List.map_map]
    rfl

theorem Statement.bindingOf_rename (s : Statement) (name : String) (value : Expr) :
    (s.bindingOf name value).rename σ =
      (s.rename σ).bindingOf (σ.ofVariable name) (value.rename σ) := by
  obtain ⟨kind, declarations, location, comments⟩ := s
  simp only [Statement.bindingOf, Statement.rename, StatementKind.rename, StatementInfo.rename,
    SymbolTuple.rename, List.map_append, List.map_cons, List.map_nil, Expr.ty_rename]
  rfl

theorem Statement.replacedBy_rename (s : Statement) (call : Expr) :
    (s.replacedBy call).rename σ = (s.rename σ).replacedBy (call.rename σ) := by
  obtain ⟨kind, info⟩ := s
  rfl

theorem Branches.enclose_rename (ss : List Statement) (b : Branches) :
    (b.enclose ss).rename σ = (b.rename σ).enclose (ss.map (Statement.rename σ)) := by
  cases b with
  | done => rfl
  | otherwise block => rfl
  | arm condition block rest =>
    obtain ⟨⟨statements, known⟩, location, comments⟩ := block
    simp only [Branches.enclose, Branches.rename, Block.rename, Scope.rename, Statement.renameList_eq]

variable {σ} {frame : Frame} (hframe : ∀ q, σ.ofCallable q = frame.name ↔ q = frame.name)
include hframe

theorem Target.reference_rename (t : Target) :
    (t.reference frame).rename σ = (t.rename σ).reference frame := by
  have hname := (hframe frame.name).mpr rfl
  have harguments : frame.typeArguments.map (Ty.rename σ) = frame.typeArguments := by
    refine map_eq_self fun ty hty => ?_
    obtain ⟨n, -, rfl⟩ := List.mem_map.mp hty
    exact congrArg (fun origin => Ty.parameter { origin, name := n }) hname
  have hresolutions : (frame.parameterNames.map fun p =>
      (⟨t.name, p, .parameterOf frame.name p⟩ : Resolution)).map (Resolution.rename σ) =
        frame.parameterNames.map fun p => ⟨σ.ofCallable t.name, p, .parameterOf frame.name p⟩ := by
    rw [List.map_map]
    refine List.map_congr_left fun n _ => ?_
    exact congrArg (fun origin => Resolution.mk _ n (Ty.parameter { origin, name := n })) hname
  simp only [Target.reference, Target.rename, Expr.globalName, Expr.plain, Expr.withResolutions,
    Expr.rename, ExprKind.rename, Identifier.rename, Option.map_some, harguments, ExprInfo.rename,
    hresolutions]
  rfl

theorem Primitive.controlCall_rename {p : Primitive} (hp : σ.ofCallable p.name = p.name)
    (condition : Expr) (target : Target) (captured : List Variable) :
    (p.controlCall condition target captured frame).rename σ =
      p.controlCall (condition.rename σ) (target.rename σ) (captured.map (Variable.rename σ)) frame := by
  have hcontrol : p.controlTy.rename σ = p.controlTy := by
    obtain ⟨name, _ | ⟨n, ns⟩⟩ := p
    · rfl
    · simp only [Primitive.controlTy, Primitive.argumentTy, Primitive.firstTypeParameter?,
        List.head?_cons, Ty.operationOf, Ty.rename, Ty.mapParameters, Ty.tupleOf, Ty.parameterOf,
        Ty.mapParametersList, TypeParameter.rename, hp]
  simp only [Primitive.controlCall, Expr.call, Expr.withResolutions, Expr.rename, ExprKind.rename,
    ExprInfo.rename, Expr.tuple_rename, List.map_cons, List.map_nil, Target.reference_rename hframe,
    capturedValues_rename, Expr.globalName, Expr.plain, Identifier.rename, hp, hcontrol]
  cases p.firstTypeParameter? with
  | none => rfl
  | some n => simp only [Option.map_some, Option.toList_some, List.map_cons, List.map_nil,
      Resolution.rename, hp, ← Expr.ty_rename, capturedValues_rename]; rfl

end

/-- The operation made of a renamed block is the renamed operation. -/
theorem Frame.reroute_operation_rename {σ : Renaming} {frame : Frame}
    (hframe : ∀ q, σ.ofCallable q = frame.name ↔ q = frame.name) (name : QualifiedName) (body : Scope)
    (comments : Comments) :
    ((frame.operation name body comments).reroute frame.name name).rename σ =
      (frame.operation (σ.ofCallable name) (body.rename σ) comments).reroute frame.name
        (σ.ofCallable name) := by
  have hparams : (Params.tuple (body.known.map Variable.toParams)).rename σ =
      .tuple ((body.rename σ).known.map Variable.toParams) := by
    obtain ⟨statements, known⟩ := body
    simp only [Params.rename, Params.renameList_eq, Scope.rename, List.map_map]
    rfl
  have hargument : (Ty.tupleOf (body.known.map (·.ty))).rename σ =
      .tupleOf ((body.rename σ).known.map (·.ty)) := by
    obtain ⟨statements, known⟩ := body
    rw [Ty.tupleOf_rename, ← Variable.map_ty_rename]
    rfl
  rw [Callable.rename_reroute hframe]
  simp only [Frame.operation, Callable.rename, Signature.rename, Specialization.rename,
    Implementation.rename, List.map_cons, List.map_nil, hparams, hargument]
  rfl

end OutcomeControl
