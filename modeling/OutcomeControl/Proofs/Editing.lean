import OutcomeControl.Program.Edit
import OutcomeControl.Proofs.Rerouting

/-! Edits of type parameters by a pure function.

An editor whose one hook is a function on type parameters (`Editor.onParameters`) has no effect in any
monad: what it returns is the tree with the type parameters changed (`Callable.edit_onParameters`). So
two such edits in a row are one, by the composed hook, and the editor without hooks gives the tree
back. `Editor.onParameters_functorial` says this of every kind of tree that can be edited. -/

namespace OutcomeControl

section
variable {m : Type → Type} [Monad m]

/-- The editor that changes type parameters by `f` and does nothing else. -/
def Editor.onParameters (f : TypeParameter → TypeParameter) : Editor m :=
  { Editor.none with parameter := fun p => pure (f p) }

/-! ### The hooks -/

section
variable (f : TypeParameter → TypeParameter)

@[simp] theorem Editor.enterScope_onParameters (s : Scope) :
    (Editor.onParameters f : Editor m).enterScope s = pure () := rfl

@[simp] theorem Editor.enterStatement_onParameters (s : Statement) :
    (Editor.onParameters f : Editor m).enterStatement s = pure () := rfl

@[simp] theorem Editor.enterExpr_onParameters (e : Expr) :
    (Editor.onParameters f : Editor m).enterExpr e = pure () := rfl

@[simp] theorem Editor.leaveExpr_onParameters (e : Expr) :
    (Editor.onParameters f : Editor m).leaveExpr e = pure e := rfl

@[simp] theorem Editor.replaceTy_onParameters (t : Ty) :
    (Editor.onParameters f : Editor m).replaceTy t = pure Option.none := rfl

@[simp] theorem Editor.parameter_onParameters (p : TypeParameter) :
    (Editor.onParameters f : Editor m).parameter p = pure (f p) := rfl

theorem Editor.onParameters_id : (Editor.onParameters id : Editor m) = Editor.none := rfl

end

/-! ### One edit -/

section
variable [LawfulMonad m] (f : TypeParameter → TypeParameter)

mutual
theorem Ty.edit_onParameters :
    (t : Ty) → t.edit (.onParameters f : Editor m) = pure (t.mapParameters f)
  -- No type is replaced as a whole, so the edit goes on to its parts.
  | .unit | .int | .double | .bool | .string | .outcome | .qubit | .range => by
    simp only [Ty.edit, Ty.mapParameters, Editor.replaceTy_onParameters, pure_bind]
  | .custom _ | .parameter _ | .missing | .invalid => by
    simp only [Ty.edit, Ty.mapParameters, Editor.replaceTy_onParameters,
      Editor.parameter_onParameters, pure_bind]
  | .array item => by
    simp only [Ty.edit, Ty.mapParameters, Editor.replaceTy_onParameters, pure_bind,
      item.edit_onParameters]
  | .tuple items => by
    simp only [Ty.edit, Ty.mapParameters, Editor.replaceTy_onParameters, pure_bind,
      Ty.editList_onParameters items]
  | .operation input output cs => by
    simp only [Ty.edit, Ty.mapParameters, Editor.replaceTy_onParameters, pure_bind,
      input.edit_onParameters, output.edit_onParameters]
  | .function input output => by
    simp only [Ty.edit, Ty.mapParameters, Editor.replaceTy_onParameters, pure_bind,
      input.edit_onParameters, output.edit_onParameters]
theorem Ty.editList_onParameters :
    (ts : List Ty) →
      Ty.editList (.onParameters f : Editor m) ts = pure (Ty.mapParametersList f ts)
  | [] => rfl
  | t :: ts => by
    simp only [Ty.editList, Ty.mapParametersList, t.edit_onParameters,
      Ty.editList_onParameters ts, pure_bind]
end

theorem editArguments_onParameters (arguments : Option (List Ty)) :
    editArguments (.onParameters f : Editor m) arguments =
      pure (arguments.map (Ty.mapParametersList f)) := by
  cases arguments with
  | none => rfl
  | some ts =>
    simp only [editArguments, Ty.editList_onParameters, pure_bind, Option.map_some]

theorem Resolution.edit_onParameters (r : Resolution) :
    r.edit (.onParameters f : Editor m) = pure (r.mapParameters f) := by
  simp only [Resolution.edit, Resolution.mapParameters, Ty.edit_onParameters, pure_bind]

theorem ExprInfo.edit_onParameters (i : ExprInfo) :
    i.edit (.onParameters f : Editor m) = pure (i.mapParameters f) := by
  simp only [ExprInfo.edit, ExprInfo.mapParameters, funext (Resolution.edit_onParameters f),
    List.mapM_pure, Ty.edit_onParameters, pure_bind]

mutual
theorem Expr.edit_onParameters :
    (e : Expr) → e.edit (.onParameters f : Editor m) = pure (e.mapParameters f)
  | ⟨kind, info⟩ => by
    simp only [Expr.edit, Expr.mapParameters, Editor.enterExpr_onParameters,
      Editor.leaveExpr_onParameters, kind.edit_onParameters, info.edit_onParameters f, pure_bind]
theorem ExprKind.edit_onParameters :
    (k : ExprKind) → k.edit (.onParameters f : Editor m) = pure (k.mapParameters f)
  | .unit | .int _ | .double _ | .bool _ | .string _ | .outcome _ | .missing | .invalid => rfl
  | .name id arguments => by
    simp only [ExprKind.edit, ExprKind.mapParameters, editArguments_onParameters, pure_bind]
  | .tuple items | .array items => by
    simp only [ExprKind.edit, ExprKind.mapParameters, Expr.editList_onParameters items, pure_bind]
  | .unary op operand => by
    simp only [ExprKind.edit, ExprKind.mapParameters, operand.edit_onParameters, pure_bind]
  | .binary op lhs rhs => by
    simp only [ExprKind.edit, ExprKind.mapParameters, lhs.edit_onParameters,
      rhs.edit_onParameters, pure_bind]
  | .item array index => by
    simp only [ExprKind.edit, ExprKind.mapParameters, array.edit_onParameters,
      index.edit_onParameters, pure_bind]
  | .choice condition yes no => by
    simp only [ExprKind.edit, ExprKind.mapParameters, condition.edit_onParameters,
      yes.edit_onParameters, no.edit_onParameters, pure_bind]
  | .call callee argument => by
    simp only [ExprKind.edit, ExprKind.mapParameters, callee.edit_onParameters,
      argument.edit_onParameters, pure_bind]
theorem Expr.editList_onParameters :
    (es : List Expr) →
      Expr.editList (.onParameters f : Editor m) es = pure (Expr.mapParametersList f es)
  | [] => rfl
  | e :: es => by
    simp only [Expr.editList, Expr.mapParametersList, e.edit_onParameters,
      Expr.editList_onParameters es, pure_bind]
end

theorem Declaration.edit_onParameters {ν : Type} (d : Declaration ν) :
    d.edit (.onParameters f : Editor m) = pure (d.mapParameters f) := by
  simp only [Declaration.edit, Declaration.mapParameters, Ty.edit_onParameters, pure_bind]

theorem Declaration.mapM_edit_onParameters {ν : Type} (ds : List (Declaration ν)) :
    ds.mapM (Declaration.edit (.onParameters f : Editor m)) =
      pure (ds.map (Declaration.mapParameters f)) := by
  rw [funext (Declaration.edit_onParameters f)]
  exact List.mapM_pure

mutual
theorem QubitInit.edit_onParameters :
    (q : QubitInit) → q.edit (.onParameters f : Editor m) = pure (q.mapParameters f)
  | .single => rfl
  | .register size => by
    simp only [QubitInit.edit, QubitInit.mapParameters, size.edit_onParameters f, pure_bind]
  | .tuple items => by
    simp only [QubitInit.edit, QubitInit.mapParameters, QubitInit.editList_onParameters items,
      pure_bind]
theorem QubitInit.editList_onParameters :
    (qs : List QubitInit) →
      QubitInit.editList (.onParameters f : Editor m) qs = pure (QubitInit.mapParametersList f qs)
  | [] => rfl
  | q :: qs => by
    simp only [QubitInit.editList, QubitInit.mapParametersList, q.edit_onParameters,
      QubitInit.editList_onParameters qs, pure_bind]
end

mutual
theorem Statement.edit_onParameters :
    (s : Statement) → s.edit (.onParameters f : Editor m) = pure (s.mapParameters f)
  | ⟨kind, info⟩ => by
    simp only [Statement.edit, Statement.mapParameters, StatementInfo.mapParameters,
      Editor.enterStatement_onParameters, kind.edit_onParameters,
      Declaration.mapM_edit_onParameters, pure_bind]
theorem StatementKind.edit_onParameters :
    (k : StatementKind) → k.edit (.onParameters f : Editor m) = pure (k.mapParameters f)
  | .expression e | .returns e | .fails e => by
    simp only [StatementKind.edit, StatementKind.mapParameters, e.edit_onParameters f, pure_bind]
  | .binding b => by
    simp only [StatementKind.edit, StatementKind.mapParameters, b.rhs.edit_onParameters f,
      pure_bind]
  | .update lhs rhs => by
    simp only [StatementKind.edit, StatementKind.mapParameters, lhs.edit_onParameters f,
      rhs.edit_onParameters f, pure_bind]
  | .conditional branches => by
    simp only [StatementKind.edit, StatementKind.mapParameters, branches.edit_onParameters,
      pure_bind]
  | .forEach symbols itemTy iterable body => by
    simp only [StatementKind.edit, StatementKind.mapParameters, itemTy.edit_onParameters f,
      iterable.edit_onParameters f, body.edit_onParameters, pure_bind]
  | .whileLoop condition body => by
    simp only [StatementKind.edit, StatementKind.mapParameters, condition.edit_onParameters f,
      body.edit_onParameters, pure_bind]
  | .repeatUntil block success fixup => by
    simp only [StatementKind.edit, StatementKind.mapParameters, block.edit_onParameters,
      success.edit_onParameters f, fixup.edit_onParameters, pure_bind]
  | .qubits kind binding body => by
    simp only [StatementKind.edit, StatementKind.mapParameters, binding.rhs.edit_onParameters f,
      body.edit_onParameters, pure_bind]
theorem Branches.edit_onParameters :
    (b : Branches) → b.edit (.onParameters f : Editor m) = pure (b.mapParameters f)
  | .done => rfl
  | .otherwise block => by
    simp only [Branches.edit, Branches.mapParameters, block.edit_onParameters, pure_bind]
  | .arm condition block rest => by
    simp only [Branches.edit, Branches.mapParameters, condition.edit_onParameters f,
      block.edit_onParameters, rest.edit_onParameters, pure_bind]
theorem Block.edit_onParameters :
    (b : Block) → b.edit (.onParameters f : Editor m) = pure (b.mapParameters f)
  | ⟨body, location, comments⟩ => by
    simp only [Block.edit, Block.mapParameters, body.edit_onParameters, pure_bind]
theorem Scope.edit_onParameters :
    (s : Scope) → s.edit (.onParameters f : Editor m) = pure (s.mapParameters f)
  | ⟨statements, known⟩ => by
    simp only [Scope.edit, Scope.mapParameters, Editor.enterScope_onParameters,
      Statement.editList_onParameters statements, Declaration.mapM_edit_onParameters, pure_bind]
theorem Statement.editList_onParameters :
    (ss : List Statement) →
      Statement.editList (.onParameters f : Editor m) ss = pure (Statement.mapParametersList f ss)
  | [] => rfl
  | s :: ss => by
    simp only [Statement.editList, Statement.mapParametersList, s.edit_onParameters,
      Statement.editList_onParameters ss, pure_bind]
end

mutual
theorem Params.edit_onParameters :
    (ps : Params) → ps.edit (.onParameters f : Editor m) = pure (ps.mapParameters f)
  | .item d => by
    simp only [Params.edit, Params.mapParameters, d.edit_onParameters f, pure_bind]
  | .tuple items => by
    simp only [Params.edit, Params.mapParameters, Params.editList_onParameters items, pure_bind]
theorem Params.editList_onParameters :
    (ps : List Params) →
      Params.editList (.onParameters f : Editor m) ps = pure (Params.mapParametersList f ps)
  | [] => rfl
  | p :: ps => by
    simp only [Params.editList, Params.mapParametersList, p.edit_onParameters,
      Params.editList_onParameters ps, pure_bind]
end

theorem Signature.edit_onParameters (s : Signature) :
    s.edit (.onParameters f : Editor m) = pure (s.mapParameters f) := by
  simp only [Signature.edit, Signature.mapParameters, Ty.edit_onParameters, pure_bind]

theorem Implementation.edit_onParameters (i : Implementation) :
    i.edit (.onParameters f : Editor m) = pure (i.mapParameters f) := by
  cases i with
  | provided params scope =>
    simp only [Implementation.edit, Implementation.mapParameters, params.edit_onParameters,
      scope.edit_onParameters, pure_bind]
  | intrinsic | external | generated directive => rfl

theorem Specialization.edit_onParameters (s : Specialization) :
    s.edit (.onParameters f : Editor m) = pure (s.mapParameters f) := by
  simp only [Specialization.edit, Specialization.mapParameters, editArguments_onParameters,
    Signature.edit_onParameters, Implementation.edit_onParameters, pure_bind]

/-- **An edit of type parameters by a pure function returns the changed callable**, and has no effect. -/
theorem Callable.edit_onParameters (c : Callable) :
    c.edit (.onParameters f : Editor m) = pure (c.mapParameters f) := by
  simp only [Callable.edit, Callable.mapParameters, Signature.edit_onParameters,
    Params.edit_onParameters, funext (Specialization.edit_onParameters f), List.mapM_pure, pure_bind]

end

/-! ### The laws of a functor -/

/-- The edits of one kind of tree are a functor in the hook for type parameters. `Alike R` relates two
trees that differ in type parameters at most, where `R` relates those in the same place. The laws alone
would hold of an edit that never asks its hook; `image` rules that out. -/
structure Functorial {α : Type} (edit : Editor m → α → m α)
    (Alike : (TypeParameter → TypeParameter → Prop) → α → α → Prop) : Prop where
  /-- The hook is put to every type parameter, and nothing else is changed or done. -/
  image (f : TypeParameter → TypeParameter) (a : α) :
    ∃ a', Alike (fun p q => q = f p) a a' ∧ edit (.onParameters f) a = pure a'
  /-- Two edits in a row are one, by the hooks in a row. -/
  comp (f g : TypeParameter → TypeParameter) (a : α) :
    edit (.onParameters g) a >>= edit (.onParameters f) = edit (.onParameters (f ∘ g)) a
  /-- A hook that keeps type parameters keeps the tree. -/
  identity (a : α) : edit (.onParameters id) a = pure a
  /-- The editor without hooks keeps the tree. -/
  empty (a : α) : edit .none a = pure a

/-- The laws of edits follow from those of the change of type parameters that they return. -/
theorem Functorial.of_map [LawfulMonad m] {α : Type} {edit : Editor m → α → m α}
    {Alike : (TypeParameter → TypeParameter → Prop) → α → α → Prop}
    {map : (TypeParameter → TypeParameter) → α → α}
    (hedit : ∀ f a, edit (.onParameters f) a = pure (map f a))
    (halike : ∀ {f} a a', Alike (fun p q => q = f p) a a' ↔ a' = map f a)
    (hcomp : ∀ f g a, map g (map f a) = map (g ∘ f) a) (hid : ∀ a, map id a = a) :
    Functorial edit Alike where
  image f a := ⟨map f a, (halike a _).mpr rfl, hedit f a⟩
  comp f g a := by
    rw [hedit g, hedit (f ∘ g), pure_bind, hedit f, hcomp]
  identity a := by rw [hedit, hid]
  empty a := by rw [← Editor.onParameters_id, hedit, hid]

/-- **Edits of type parameters compose as their hooks do.** In every lawful monad, for callables,
scopes, statements, expressions and types. -/
theorem Editor.onParameters_functorial [LawfulMonad m] :
    Functorial (m := m) Callable.edit Callable.Alike ∧
      Functorial (m := m) Scope.edit Scope.Alike ∧
      Functorial (m := m) Statement.edit Statement.Alike ∧
      Functorial (m := m) Expr.edit Expr.Alike ∧
      Functorial (m := m) Ty.edit Ty.Alike := by
  refine ⟨?callable, ?scope, ?statement, ?expression, ?type⟩
  case callable =>
    exact .of_map Callable.edit_onParameters Callable.alike_iff
      Callable.mapParameters_mapParameters fun c => c.mapParameters_eq_self fun _ _ => rfl
  case scope =>
    exact .of_map Scope.edit_onParameters Scope.alike_iff
      Scope.mapParameters_mapParameters fun s => s.mapParameters_eq_self fun _ _ => rfl
  case statement =>
    exact .of_map Statement.edit_onParameters Statement.alike_iff
      Statement.mapParameters_mapParameters fun s => s.mapParameters_eq_self fun _ _ => rfl
  case expression =>
    exact .of_map Expr.edit_onParameters Expr.alike_iff
      Expr.mapParameters_mapParameters fun e => e.mapParameters_eq_self fun _ _ => rfl
  case type =>
    exact .of_map Ty.edit_onParameters Ty.alike_iff
      Ty.mapParameters_mapParameters fun t => t.mapParameters_eq_self fun _ _ => rfl

end

/-- Type parameters handed on twice: all are the last owner's, where the other order leaves some with
the owner between. The record that the edits carry along is not written to. -/
theorem Sample.shared_edited :
    let main : QualifiedName := ⟨"Sample", "Main"⟩
    let made : QualifiedName := ⟨"Sample", "_ctrl1_Main"⟩
    let other : QualifiedName := ⟨"Sample", "Other"⟩
    let first : Editor (StateM (List String)) := .onParameters (.reroute main made)
    let second : Editor (StateM (List String)) := .onParameters (.reroute made other)
    let both : Editor (StateM (List String)) :=
      .onParameters (TypeParameter.reroute made other ∘ TypeParameter.reroute main made)
    (Sample.shared.edit first >>= Callable.edit second) = Sample.shared.edit both ∧
      ((Sample.shared.edit both).run ["scope 1"]).1.origins.all (· == other) ∧
      ((Sample.shared.edit both).run ["scope 1"]).2 = ["scope 1"] ∧
      made ∈ ((Sample.shared.edit second >>= Callable.edit first).run []).1.origins ∧
      Sample.shared.edit (.none : Editor (StateM (List String))) = pure Sample.shared := by
  intro main made other first second both
  obtain ⟨hcallable, -⟩ := Editor.onParameters_functorial (m := StateM (List String))
  exact ⟨hcallable.comp _ _ Sample.shared, by decide +kernel, by decide +kernel,
    by decide +kernel, hcallable.empty Sample.shared⟩

end OutcomeControl
