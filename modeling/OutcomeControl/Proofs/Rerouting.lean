import OutcomeControl.Proofs.Forest
import OutcomeControl.Proofs.Ownership

/-! A change of owner and nothing else.

Two trees are alike (`Callable.Alike`) when they differ in type parameters at most, and those that
stand in the same place are related. The relation is said node by node, without the function that
makes the change. `Callable.reroute_exact` says that rerouting gives the one callable that is alike
with every type parameter of the old owner handed to the new one, and that it can be taken back. -/

namespace OutcomeControl

/-! ### Trees that are alike -/

section
variable (R : TypeParameter → TypeParameter → Prop)

mutual
/-- The same type but for type parameters, where `R` relates those in the same place. -/
def Ty.Alike : Ty → Ty → Prop
  | .array item, t' => ∃ item', t' = .array item' ∧ item.Alike item'
  | .tuple items, t' => ∃ items', t' = .tuple items' ∧ Ty.AlikeList items items'
  | .parameter p, t' => ∃ p', t' = .parameter p' ∧ R p p'
  | .operation input output cs, t' => ∃ input' output', t' = .operation input' output' cs ∧
    input.Alike input' ∧ output.Alike output'
  | .function input output, t' => ∃ input' output', t' = .function input' output' ∧
    input.Alike input' ∧ output.Alike output'
  | t, t' => t' = t
def Ty.AlikeList : List Ty → List Ty → Prop
  | [], ts' => ts' = []
  | t :: ts, ts' => ∃ u us, ts' = u :: us ∧ t.Alike u ∧ Ty.AlikeList ts us
end

def Resolution.Alike (r r' : Resolution) : Prop :=
  r.ty.Alike R r'.ty ∧ r' = { r with ty := r'.ty }

def ExprInfo.Alike (i i' : ExprInfo) : Prop :=
  List.Forall₂ (Resolution.Alike R) i.resolutions i'.resolutions ∧ i.ty.Alike R i'.ty ∧
    i' = { i with resolutions := i'.resolutions, ty := i'.ty }

mutual
def Expr.Alike : Expr → Expr → Prop
  | ⟨kind, info⟩, e' => kind.Alike e'.kind ∧ info.Alike R e'.info
def ExprKind.Alike : ExprKind → ExprKind → Prop
  | .name id arguments, k' => ∃ arguments', k' = .name id arguments' ∧
    Option.Rel (Ty.AlikeList R) arguments arguments'
  | .tuple items, k' => ∃ items', k' = .tuple items' ∧ Expr.AlikeList items items'
  | .array items, k' => ∃ items', k' = .array items' ∧ Expr.AlikeList items items'
  | .binary op lhs rhs, k' => ∃ lhs' rhs', k' = .binary op lhs' rhs' ∧
    lhs.Alike lhs' ∧ rhs.Alike rhs'
  | .unary op operand, k' => ∃ operand', k' = .unary op operand' ∧ operand.Alike operand'
  | .item array index, k' => ∃ array' index', k' = .item array' index' ∧
    array.Alike array' ∧ index.Alike index'
  | .choice condition yes no, k' => ∃ condition' yes' no', k' = .choice condition' yes' no' ∧
    condition.Alike condition' ∧ yes.Alike yes' ∧ no.Alike no'
  | .call callee argument, k' => ∃ callee' argument', k' = .call callee' argument' ∧
    callee.Alike callee' ∧ argument.Alike argument'
  | k, k' => k' = k
def Expr.AlikeList : List Expr → List Expr → Prop
  | [], es' => es' = []
  | e :: es, es' => ∃ u us, es' = u :: us ∧ e.Alike u ∧ Expr.AlikeList es us
end

def Declaration.Alike {ν : Type} (d d' : Declaration ν) : Prop :=
  d.ty.Alike R d'.ty ∧ d' = { d with ty := d'.ty }

mutual
def QubitInit.Alike : QubitInit → QubitInit → Prop
  | .single, q' => q' = .single
  | .register size, q' => ∃ size', q' = .register size' ∧ size.Alike R size'
  | .tuple items, q' => ∃ items', q' = .tuple items' ∧ QubitInit.AlikeList items items'
def QubitInit.AlikeList : List QubitInit → List QubitInit → Prop
  | [], qs' => qs' = []
  | q :: qs, qs' => ∃ u us, qs' = u :: us ∧ q.Alike u ∧ QubitInit.AlikeList qs us
end

def StatementInfo.Alike (i i' : StatementInfo) : Prop :=
  List.Forall₂ (Declaration.Alike R) i.declarations i'.declarations ∧
    i' = { i with declarations := i'.declarations }

mutual
def Statement.Alike : Statement → Statement → Prop
  | ⟨kind, info⟩, s' => kind.Alike s'.kind ∧ info.Alike R s'.info
def StatementKind.Alike : StatementKind → StatementKind → Prop
  | .expression e, k' => ∃ e', k' = .expression e' ∧ e.Alike R e'
  | .returns e, k' => ∃ e', k' = .returns e' ∧ e.Alike R e'
  | .fails e, k' => ∃ e', k' = .fails e' ∧ e.Alike R e'
  | .binding b, k' => ∃ rhs, k' = .binding { b with rhs } ∧ b.rhs.Alike R rhs
  | .update lhs rhs, k' => ∃ lhs' rhs', k' = .update lhs' rhs' ∧ lhs.Alike R lhs' ∧ rhs.Alike R rhs'
  | .conditional branches, k' => ∃ branches', k' = .conditional branches' ∧ branches.Alike branches'
  | .forEach symbols itemTy iterable body, k' => ∃ itemTy' iterable' body',
    k' = .forEach symbols itemTy' iterable' body' ∧ itemTy.Alike R itemTy' ∧
      iterable.Alike R iterable' ∧ body.Alike body'
  | .whileLoop condition body, k' => ∃ condition' body', k' = .whileLoop condition' body' ∧
    condition.Alike R condition' ∧ body.Alike body'
  | .repeatUntil block success fixup, k' => ∃ block' success' fixup',
    k' = .repeatUntil block' success' fixup' ∧ block.Alike block' ∧ success.Alike R success' ∧
      fixup.Alike fixup'
  | .qubits kind binding body, k' => ∃ rhs body', k' = .qubits kind { binding with rhs } body' ∧
    binding.rhs.Alike R rhs ∧ body.Alike body'
def Branches.Alike : Branches → Branches → Prop
  | .done, b' => b' = .done
  | .otherwise block, b' => ∃ block', b' = .otherwise block' ∧ block.Alike block'
  | .arm condition block rest, b' => ∃ condition' block' rest', b' = .arm condition' block' rest' ∧
    condition.Alike R condition' ∧ block.Alike block' ∧ rest.Alike rest'
def Block.Alike : Block → Block → Prop
  | ⟨body, location, comments⟩, b' =>
    body.Alike b'.body ∧ b'.location = location ∧ b'.comments = comments
def Scope.Alike : Scope → Scope → Prop
  | ⟨statements, known⟩, s' => Statement.AlikeList statements s'.statements ∧
    List.Forall₂ (Declaration.Alike R) known s'.known
def Statement.AlikeList : List Statement → List Statement → Prop
  | [], ss' => ss' = []
  | s :: ss, ss' => ∃ u us, ss' = u :: us ∧ s.Alike u ∧ Statement.AlikeList ss us
end

mutual
def Params.Alike : Params → Params → Prop
  | .item d, ps' => ∃ d', ps' = .item d' ∧ d.Alike R d'
  | .tuple items, ps' => ∃ items', ps' = .tuple items' ∧ Params.AlikeList items items'
def Params.AlikeList : List Params → List Params → Prop
  | [], ps' => ps' = []
  | p :: ps, ps' => ∃ u us, ps' = u :: us ∧ p.Alike u ∧ Params.AlikeList ps us
end

def Signature.Alike (s s' : Signature) : Prop :=
  s.argument.Alike R s'.argument ∧ s.result.Alike R s'.result ∧
    s' = { s with argument := s'.argument, result := s'.result }

def Implementation.Alike : Implementation → Implementation → Prop
  | .provided params scope, i' => ∃ params' scope', i' = .provided params' scope' ∧
    params.Alike R params' ∧ scope.Alike R scope'
  | i, i' => i' = i

def Specialization.Alike (s s' : Specialization) : Prop :=
  Option.Rel (Ty.AlikeList R) s.typeArguments s'.typeArguments ∧ s.signature.Alike R s'.signature ∧
    s.implementation.Alike R s'.implementation ∧
    s' = { s with
      typeArguments := s'.typeArguments
      signature := s'.signature
      implementation := s'.implementation }

/-- The same callable but for type parameters, where `R` relates those in the same place. -/
def Callable.Alike (c c' : Callable) : Prop :=
  c.signature.Alike R c'.signature ∧ c.params.Alike R c'.params ∧
    List.Forall₂ (Specialization.Alike R) c.specializations c'.specializations ∧
    c' = { c with
      signature := c'.signature
      params := c'.params
      specializations := c'.specializations }

end

/-! ### What is alike is determined -/

theorem exists_eq_iff₂ {α β γ : Type} {F : α → β → γ} {c : γ} {x : α} {y : β} :
    (∃ a b, c = F a b ∧ a = x ∧ b = y) ↔ c = F x y := by
  simp only [exists_eq_right_right, exists_eq_right]

theorem exists_eq_iff₃ {α β γ δ : Type} {F : α → β → γ → δ} {d : δ} {x : α} {y : β} {z : γ} :
    (∃ a b c, d = F a b c ∧ a = x ∧ b = y ∧ c = z) ↔ d = F x y z := by
  constructor
  · rintro ⟨_, _, _, h, rfl, rfl, rfl⟩
    exact h
  · exact fun h => ⟨x, y, z, h, rfl, rfl, rfl⟩

theorem forall₂_iff_eq_map {α β : Type} {S : α → β → Prop} {g : α → β}
    (h : ∀ a b, S a b ↔ b = g a)
    (as : List α) (bs : List β) : List.Forall₂ S as bs ↔ bs = as.map g := by
  induction as generalizing bs with
  | nil => exact List.forall₂_nil_left_iff
  | cons a as ih =>
    simp only [List.forall₂_cons_left_iff, h, ih, exists_and_left, exists_eq_left, List.map_cons]

section
variable {f : TypeParameter → TypeParameter}

mutual
theorem Ty.alike_iff : (t t' : Ty) → (t.Alike (fun p q => q = f p) t' ↔ t' = t.mapParameters f)
  | .unit, t' | .int, t' | .double, t' | .bool, t' | .string, t' | .outcome, t' => by
    simp only [Ty.Alike, Ty.mapParameters]
  | .qubit, t' | .range, t' | .custom _, t' | .missing, t' | .invalid, t' => by
    simp only [Ty.Alike, Ty.mapParameters]
  | .parameter p, t' => by simp only [Ty.Alike, Ty.mapParameters, exists_eq_right]
  | .array item, t' => by simp only [Ty.Alike, Ty.mapParameters, item.alike_iff, exists_eq_right]
  | .tuple items, t' => by
    simp only [Ty.Alike, Ty.mapParameters, Ty.alikeList_iff items, exists_eq_right]
  | .operation input output cs, t' => by
    simp only [Ty.Alike, input.alike_iff, output.alike_iff]
    exact exists_eq_iff₂
  | .function input output, t' => by
    simp only [Ty.Alike, input.alike_iff, output.alike_iff]
    exact exists_eq_iff₂
theorem Ty.alikeList_iff : (ts ts' : List Ty) →
    (Ty.AlikeList (fun p q => q = f p) ts ts' ↔ ts' = Ty.mapParametersList f ts)
  | [], ts' => by simp only [Ty.AlikeList, Ty.mapParametersList]
  | t :: ts, ts' => by
    simp only [Ty.AlikeList, t.alike_iff, Ty.alikeList_iff ts]
    exact exists_eq_iff₂
end

theorem Ty.optionRel_alikeList_iff (arguments arguments' : Option (List Ty)) :
    Option.Rel (Ty.AlikeList (fun p q => q = f p)) arguments arguments' ↔
      arguments' = arguments.map (Ty.mapParametersList f) := by
  cases arguments <;> cases arguments' <;> simp [Ty.alikeList_iff]

theorem Resolution.alike_iff (r r' : Resolution) :
    r.Alike (fun p q => q = f p) r' ↔ r' = r.mapParameters f := by
  obtain ⟨callable, parameter, ty⟩ := r'
  simp only [Resolution.Alike, Ty.alike_iff, Resolution.mapParameters, Resolution.mk.injEq]
  grind

theorem ExprInfo.alike_iff (i i' : ExprInfo) :
    i.Alike (fun p q => q = f p) i' ↔ i' = i.mapParameters f := by
  obtain ⟨resolutions, ty, inferred, range⟩ := i'
  simp only [ExprInfo.Alike, Ty.alike_iff, forall₂_iff_eq_map Resolution.alike_iff,
    ExprInfo.mapParameters, ExprInfo.mk.injEq]
  grind

mutual
theorem Expr.alike_iff : (e e' : Expr) → (e.Alike (fun p q => q = f p) e' ↔ e' = e.mapParameters f)
  | ⟨kind, info⟩, ⟨kind', info'⟩ => by
    simp only [Expr.Alike, Expr.mapParameters, kind.alike_iff, info.alike_iff, Expr.mk.injEq]
theorem ExprKind.alike_iff : (k k' : ExprKind) →
    (k.Alike (fun p q => q = f p) k' ↔ k' = k.mapParameters f)
  | .unit, k' | .int _, k' | .double _, k' | .bool _, k' => by
    simp only [ExprKind.Alike, ExprKind.mapParameters]
  | .string _, k' | .outcome _, k' | .missing, k' | .invalid, k' => by
    simp only [ExprKind.Alike, ExprKind.mapParameters]
  | .name id arguments, k' => by
    simp only [ExprKind.Alike, ExprKind.mapParameters, Ty.optionRel_alikeList_iff, exists_eq_right]
  | .tuple items, k' | .array items, k' => by
    simp only [ExprKind.Alike, ExprKind.mapParameters, Expr.alikeList_iff items, exists_eq_right]
  | .unary op operand, k' => by
    simp only [ExprKind.Alike, ExprKind.mapParameters, operand.alike_iff, exists_eq_right]
  | .binary op lhs rhs, k' => by
    simp only [ExprKind.Alike, lhs.alike_iff, rhs.alike_iff]
    exact exists_eq_iff₂
  | .item array index, k' => by
    simp only [ExprKind.Alike, array.alike_iff, index.alike_iff]
    exact exists_eq_iff₂
  | .choice condition yes no, k' => by
    simp only [ExprKind.Alike, condition.alike_iff, yes.alike_iff, no.alike_iff]
    exact exists_eq_iff₃
  | .call callee argument, k' => by
    simp only [ExprKind.Alike, callee.alike_iff, argument.alike_iff]
    exact exists_eq_iff₂
theorem Expr.alikeList_iff : (es es' : List Expr) →
    (Expr.AlikeList (fun p q => q = f p) es es' ↔ es' = Expr.mapParametersList f es)
  | [], es' => by simp only [Expr.AlikeList, Expr.mapParametersList]
  | e :: es, es' => by
    simp only [Expr.AlikeList, e.alike_iff, Expr.alikeList_iff es]
    exact exists_eq_iff₂
end

theorem Declaration.alike_iff {ν : Type} (d d' : Declaration ν) :
    d.Alike (fun p q => q = f p) d' ↔ d' = d.mapParameters f := by
  obtain ⟨name, ty, inferred, position, range⟩ := d'
  simp only [Declaration.Alike, Ty.alike_iff, Declaration.mapParameters, Declaration.mk.injEq]
  grind

mutual
theorem QubitInit.alike_iff : (q q' : QubitInit) →
    (q.Alike (fun p q => q = f p) q' ↔ q' = q.mapParameters f)
  | .single, q' => by simp only [QubitInit.Alike, QubitInit.mapParameters]
  | .register size, q' => by
    simp only [QubitInit.Alike, QubitInit.mapParameters, size.alike_iff, exists_eq_right]
  | .tuple items, q' => by
    simp only [QubitInit.Alike, QubitInit.mapParameters, QubitInit.alikeList_iff items,
      exists_eq_right]
theorem QubitInit.alikeList_iff : (qs qs' : List QubitInit) →
    (QubitInit.AlikeList (fun p q => q = f p) qs qs' ↔ qs' = QubitInit.mapParametersList f qs)
  | [], qs' => by simp only [QubitInit.AlikeList, QubitInit.mapParametersList]
  | q :: qs, qs' => by
    simp only [QubitInit.AlikeList, q.alike_iff, QubitInit.alikeList_iff qs]
    exact exists_eq_iff₂
end

theorem StatementInfo.alike_iff (i i' : StatementInfo) :
    i.Alike (fun p q => q = f p) i' ↔ i' = i.mapParameters f := by
  obtain ⟨declarations, location, comments⟩ := i'
  simp only [StatementInfo.Alike, forall₂_iff_eq_map Declaration.alike_iff,
    StatementInfo.mapParameters, StatementInfo.mk.injEq]
  grind

mutual
theorem Statement.alike_iff : (s s' : Statement) →
    (s.Alike (fun p q => q = f p) s' ↔ s' = s.mapParameters f)
  | ⟨kind, info⟩, ⟨kind', info'⟩ => by
    simp only [Statement.Alike, Statement.mapParameters, kind.alike_iff, info.alike_iff,
      Statement.mk.injEq]
theorem StatementKind.alike_iff :
    (k k' : StatementKind) → (k.Alike (fun p q => q = f p) k' ↔ k' = k.mapParameters f)
  | .expression e, k' | .returns e, k' | .fails e, k' => by
    simp only [StatementKind.Alike, StatementKind.mapParameters, e.alike_iff, exists_eq_right]
  | .binding b, k' => by
    simp only [StatementKind.Alike, StatementKind.mapParameters, b.rhs.alike_iff,
      exists_eq_right]
  | .update lhs rhs, k' => by
    simp only [StatementKind.Alike, lhs.alike_iff, rhs.alike_iff]
    exact exists_eq_iff₂
  | .conditional branches, k' => by
    simp only [StatementKind.Alike, StatementKind.mapParameters, branches.alike_iff,
      exists_eq_right]
  | .forEach symbols itemTy iterable body, k' => by
    simp only [StatementKind.Alike, itemTy.alike_iff, iterable.alike_iff, body.alike_iff]
    exact exists_eq_iff₃
  | .whileLoop condition body, k' => by
    simp only [StatementKind.Alike, condition.alike_iff, body.alike_iff]
    exact exists_eq_iff₂
  | .repeatUntil block success fixup, k' => by
    simp only [StatementKind.Alike, block.alike_iff, success.alike_iff, fixup.alike_iff]
    exact exists_eq_iff₃
  | .qubits kind binding body, k' => by
    simp only [StatementKind.Alike, binding.rhs.alike_iff, body.alike_iff]
    exact exists_eq_iff₂
theorem Branches.alike_iff : (b b' : Branches) →
    (b.Alike (fun p q => q = f p) b' ↔ b' = b.mapParameters f)
  | .done, b' => by simp only [Branches.Alike, Branches.mapParameters]
  | .otherwise block, b' => by
    simp only [Branches.Alike, Branches.mapParameters, block.alike_iff, exists_eq_right]
  | .arm condition block rest, b' => by
    simp only [Branches.Alike, condition.alike_iff, block.alike_iff, rest.alike_iff]
    exact exists_eq_iff₃
theorem Block.alike_iff : (b b' : Block) →
    (b.Alike (fun p q => q = f p) b' ↔ b' = b.mapParameters f)
  | ⟨body, location, comments⟩, ⟨body', location', comments'⟩ => by
    simp only [Block.Alike, Block.mapParameters, body.alike_iff, Block.mk.injEq]
theorem Scope.alike_iff : (s s' : Scope) →
    (s.Alike (fun p q => q = f p) s' ↔ s' = s.mapParameters f)
  | ⟨statements, known⟩, ⟨statements', known'⟩ => by
    simp only [Scope.Alike, Scope.mapParameters, Statement.alikeList_iff statements,
      forall₂_iff_eq_map Declaration.alike_iff, Scope.mk.injEq]
theorem Statement.alikeList_iff : (ss ss' : List Statement) →
    (Statement.AlikeList (fun p q => q = f p) ss ss' ↔ ss' = Statement.mapParametersList f ss)
  | [], ss' => by simp only [Statement.AlikeList, Statement.mapParametersList]
  | s :: ss, ss' => by
    simp only [Statement.AlikeList, s.alike_iff, Statement.alikeList_iff ss]
    exact exists_eq_iff₂
end

mutual
theorem Params.alike_iff : (ps ps' : Params) →
    (ps.Alike (fun p q => q = f p) ps' ↔ ps' = ps.mapParameters f)
  | .item d, ps' => by
    simp only [Params.Alike, Params.mapParameters, d.alike_iff, exists_eq_right]
  | .tuple items, ps' => by
    simp only [Params.Alike, Params.mapParameters, Params.alikeList_iff items, exists_eq_right]
theorem Params.alikeList_iff : (ps ps' : List Params) →
    (Params.AlikeList (fun p q => q = f p) ps ps' ↔ ps' = Params.mapParametersList f ps)
  | [], ps' => by simp only [Params.AlikeList, Params.mapParametersList]
  | p :: ps, ps' => by
    simp only [Params.AlikeList, p.alike_iff, Params.alikeList_iff ps]
    exact exists_eq_iff₂
end

theorem Signature.alike_iff (s s' : Signature) :
    s.Alike (fun p q => q = f p) s' ↔ s' = s.mapParameters f := by
  obtain ⟨typeParameters, argument, result, characteristics⟩ := s'
  simp only [Signature.Alike, Ty.alike_iff, Signature.mapParameters, Signature.mk.injEq]
  grind

theorem Implementation.alike_iff (i i' : Implementation) :
    i.Alike (fun p q => q = f p) i' ↔ i' = i.mapParameters f := by
  cases i with
  | provided params scope =>
    simp only [Implementation.Alike, params.alike_iff, scope.alike_iff]
    exact exists_eq_iff₂
  | intrinsic | external | generated directive =>
    simp only [Implementation.Alike, Implementation.mapParameters]

theorem Specialization.alike_iff (s s' : Specialization) :
    s.Alike (fun p q => q = f p) s' ↔ s' = s.mapParameters f := by
  obtain ⟨kind, parent, sourceFile, location, typeArguments, signature, implementation,
    documentation, comments⟩ := s'
  simp only [Specialization.Alike, Ty.optionRel_alikeList_iff, Signature.alike_iff,
    Implementation.alike_iff, Specialization.mapParameters, Specialization.mk.injEq]
  grind

/-- Where each type parameter has one counterpart, one callable is alike. -/
theorem Callable.alike_iff (c c' : Callable) :
    c.Alike (fun p q => q = f p) c' ↔ c' = c.mapParameters f := by
  obtain ⟨kind, name, sourceFile, location, signature, params, specializations, documentation,
    comments⟩ := c'
  simp only [Callable.Alike, Signature.alike_iff, Params.alike_iff,
    forall₂_iff_eq_map Specialization.alike_iff, Callable.mapParameters, Callable.mk.injEq]
  grind

end

/-! ### Rerouting -/

/-- `q` is `p`, handed over to `target` if it was one of `source`. -/
structure TypeParameter.Rerouted (source target : QualifiedName) (p q : TypeParameter) : Prop where
  name : q.name = p.name
  range : q.range = p.range
  moved : p.origin = source → q.origin = target
  kept : p.origin ≠ source → q.origin = p.origin

theorem TypeParameter.rerouted_iff {source target : QualifiedName} {p q : TypeParameter} :
    p.Rerouted source target q ↔ q = p.reroute source target := by
  obtain ⟨origin, name, range⟩ := p
  obtain ⟨origin', name', range'⟩ := q
  by_cases hp : origin = source
  · simp only [TypeParameter.reroute, if_pos hp, TypeParameter.mk.injEq]
    refine ⟨fun h => ⟨h.moved hp, h.name, h.range⟩, ?_⟩
    rintro ⟨ho, hn, hr⟩
    exact ⟨hn, hr, fun _ => ho, fun hne => absurd hp hne⟩
  · simp only [TypeParameter.reroute, if_neg hp, TypeParameter.mk.injEq]
    refine ⟨fun h => ⟨h.kept hp, h.name, h.range⟩, ?_⟩
    rintro ⟨ho, hn, hr⟩
    exact ⟨hn, hr, fun heq => absurd heq hp, fun _ => ho⟩

/-- The callables whose type parameters are resolved at a node. -/
def Visit.resolved : Visit → List QualifiedName
  | .expression e => e.info.resolutions.map (·.callable)
  | _ => []

def Callable.resolved (c : Callable) : List QualifiedName := c.visits.flatMap Visit.resolved

theorem Visit.resolved_mapParameters (f : TypeParameter → TypeParameter) (v : Visit) :
    (v.mapParameters f).resolved = v.resolved := by
  cases v with
  | expression e =>
    obtain ⟨kind, info⟩ := e
    simp only [Visit.mapParameters, Expr.mapParameters, Visit.resolved, ExprInfo.mapParameters,
      List.map_map]
    rfl
  | callable c | scope s | statement s | type t | localName n => rfl

theorem Callable.resolved_mapParameters (f : TypeParameter → TypeParameter) (c : Callable) :
    (c.mapParameters f).resolved = c.resolved := by
  simp only [Callable.resolved, Callable.visits_mapParameters, List.flatMap_map,
    Visit.resolved_mapParameters]

theorem Callable.references_mapParameters (f : TypeParameter → TypeParameter) (c : Callable) :
    (c.mapParameters f).references = c.references := by
  rw [Callable.references, Callable.visits_mapParameters, List.filterMap_map]
  exact congrArg (List.filterMap · _) (funext (Visit.reference?_mapParameters f))

theorem Callable.mem_origins {c : Callable} {p : TypeParameter}
    (h : .type (.parameter p) ∈ c.visits) : p.origin ∈ c.origins :=
  List.mem_filterMap.mpr ⟨_, h, rfl⟩

theorem Callable.notMem_origins_reroute {source target : QualifiedName} (hne : source ≠ target)
    (c : Callable) : source ∉ (c.reroute source target).origins := by
  intro hmem
  rw [Callable.origins_reroute] at hmem
  obtain ⟨n, -, hn⟩ := List.mem_map.mp hmem
  split at hn
  · exact hne hn.symm
  · contradiction

theorem Callable.reroute_reroute {source target : QualifiedName} {c : Callable}
    (h : target ∉ c.origins) : (c.reroute source target).reroute target source = c := by
  refine (c.mapParameters_mapParameters ..).trans (c.mapParameters_eq_self fun p hp => ?_)
  refine TypeParameter.reroute_reroute fun horigin => h ?_
  exact horigin ▸ Callable.mem_origins hp

/-- **Rerouting hands type parameters over and does nothing else.** The result is the one callable of
the same shape where each type parameter has kept its name and its range, and its owner unless that
was the old one. So none of the old owner's is left, and what is called or resolved is the same.
Where the new owner had none before, the way back gives the callable again. -/
theorem Callable.reroute_exact {source target : QualifiedName} (hne : source ≠ target)
    (c : Callable) :
    (∀ c', c.Alike (TypeParameter.Rerouted source target) c' ↔ c' = c.reroute source target) ∧
      source ∉ (c.reroute source target).origins ∧
      (c.reroute source target).references = c.references ∧
      (c.reroute source target).resolved = c.resolved ∧
      (target ∉ c.origins → (c.reroute source target).reroute target source = c) := by
  have hrerouted : TypeParameter.Rerouted source target = fun p q => q = p.reroute source target :=
    funext fun _ => funext fun _ => propext TypeParameter.rerouted_iff
  refine ⟨fun c' => ?_, c.notMem_origins_reroute hne, c.references_mapParameters _,
    c.resolved_mapParameters _, Callable.reroute_reroute⟩
  rw [hrerouted]
  exact c.alike_iff c'

namespace Sample

/-- A type parameter of another callable, with the same name. -/
def foreign : Ty := .parameterOf ⟨"Sample", "Other"⟩ "T"

/-- The call `Other<T>(v, w)`, where the type parameter of `Other` is resolved. -/
def useBoth : Expr :=
  let both : Ty := .tupleOf [given, foreign]
  let resolution : Resolution := ⟨⟨"Sample", "Other"⟩, "T", given⟩
  let callee : Expr :=
    ⟨.name (.ofCallable ⟨"Sample", "Other"⟩) (some [given]),
      { resolutions := [resolution], ty := .operationOf both .unit }⟩
  .call callee (.tuple [.localName "v" given, .localName "w" foreign]) .unit

/-- `for v in vs { use qs = Qubit[Size(v)] { Other<T>(v, w); } }`. -/
def sharedBody : Scope :=
  let size : Expr := .call (.globalName ⟨"Sample", "Size"⟩ none (.function given .int))
    (.localName "v" given) .int
  let known : List Variable := [carried, { name := "w", ty := foreign }]
  let allocation : Statement := .plain
    (.qubits .allocate ⟨.immutable, .name "qs", .register size⟩ ⟨[.expression useBoth], known⟩)
  ⟨[.plain (.forEach (.name "v") given (.localName "vs" (.array given)) ⟨[allocation], known⟩)], []⟩

/-- `generic` with a second body. -/
def shared : Callable :=
  { generic with
    specializations := generic.specializations ++
      [{ kind := .controlled
         parent := ⟨"Sample", "Main"⟩
         typeArguments := some [given, foreign]
         signature := generic.signature
         implementation := .provided generic.params sharedBody }] }

end Sample

/-- The type parameter of `Other` stays where that of `Main` is handed over, and the way back is
exact. -/
theorem Sample.shared_rerouted :
    let main : QualifiedName := ⟨"Sample", "Main"⟩
    let made : QualifiedName := ⟨"Sample", "_ctrl1_Main"⟩
    let other : QualifiedName := ⟨"Sample", "Other"⟩
    main ∈ Sample.shared.origins ∧ other ∈ Sample.shared.origins ∧ made ∉ Sample.shared.origins ∧
      main ∉ (Sample.shared.reroute main made).origins ∧
      other ∈ (Sample.shared.reroute main made).origins ∧
      (Sample.shared.reroute main made).resolved = [other] ∧
      Sample.shared.Alike (TypeParameter.Rerouted main made) (Sample.shared.reroute main made) ∧
      (Sample.shared.reroute main made).reroute made main = Sample.shared := by
  intro main made other
  obtain ⟨halike, hnone, -, hresolved, hback⟩ :=
    Callable.reroute_exact (show main ≠ made by decide) Sample.shared
  have hmade : made ∉ Sample.shared.origins := by decide +kernel
  exact ⟨by decide +kernel, by decide +kernel, hmade, hnone, by decide +kernel,
    hresolved.trans (by decide +kernel), (halike _).mpr rfl, hback hmade⟩

end OutcomeControl
