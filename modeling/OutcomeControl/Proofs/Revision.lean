import OutcomeControl.Command.Run
import OutcomeControl.Proofs.Settled
import OutcomeControl.Proofs.Yield

/-! What the pass leaves alone.

It changes the statements of bodies and nothing else: a callable keeps all its parts but these, and
so does every body without a conditional (`Specialization.Revised`, `Element.Revised`). What is new
stands behind the old elements of a namespace: one operation for each block that was moved out, in
the namespace of the callable that the block comes from. `Compilation.lower_frame` says this of whole
programs, and that the number of operations in the log is the true one. -/

namespace OutcomeControl

/-! ### Bodies without conditionals -/

/-- No conditional is met. -/
def Unconditional (vs : List Visit) : Prop :=
  ∀ branches info, .statement ⟨.conditional branches, info⟩ ∉ vs

theorem Unconditional.of_subset {vs ws : List Visit} (h : Unconditional ws) (hsub : vs ⊆ ws) :
    Unconditional vs := fun branches info hmem => h branches info (hsub hmem)

mutual
theorem Statement.settled_of_unconditional :
    (s : Statement) → Unconditional s.visits → s.Settled
  | ⟨.conditional branches, info⟩, h => absurd (List.mem_cons_self ..) (h branches info)
  | ⟨.forEach symbols itemTy iterable body, info⟩, h =>
    body.settled_of_unconditional (h.of_subset fun v hv => by
      simp [Statement.visits, StatementKind.visits, hv])
  | ⟨.whileLoop condition body, info⟩, h =>
    body.settled_of_unconditional (h.of_subset fun v hv => by
      simp [Statement.visits, StatementKind.visits, hv])
  | ⟨.repeatUntil block success fixup, info⟩, h =>
    ⟨block.settled_of_unconditional (h.of_subset fun v hv => by
        simp [Statement.visits, StatementKind.visits, hv]),
      fixup.settled_of_unconditional (h.of_subset fun v hv => by
        simp [Statement.visits, StatementKind.visits, hv])⟩
  | ⟨.qubits kind binding body, info⟩, h =>
    body.settled_of_unconditional (h.of_subset fun v hv => by
      simp [Statement.visits, StatementKind.visits, hv])
  | ⟨.expression _, _⟩, _ | ⟨.returns _, _⟩, _ | ⟨.fails _, _⟩, _ | ⟨.binding _, _⟩, _
  | ⟨.update _ _, _⟩, _ => trivial
theorem Block.settled_of_unconditional : (b : Block) → Unconditional b.visits → b.Settled
  | ⟨body, _, _⟩, h => body.settled_of_unconditional h
theorem Scope.settled_of_unconditional : (s : Scope) → Unconditional s.visits → s.Settled
  | ⟨statements, known⟩, h =>
    Statement.settledList_of_unconditional statements
      (h.of_subset fun v hv => by simp [Scope.visits, hv])
theorem Statement.settledList_of_unconditional :
    (ss : List Statement) → Unconditional (Statement.visitsList ss) → Statement.SettledList ss
  | [], _ => trivial
  | s :: ss, h =>
    ⟨s.settled_of_unconditional (h.of_subset fun _ hv => List.mem_append_left _ hv),
      Statement.settledList_of_unconditional ss
        (h.of_subset fun _ hv => List.mem_append_right _ hv)⟩
end

/-! ### Callables -/

/-- `t` takes the place of `s`. Only the statements of a body may differ, and only if a conditional is
among them. -/
inductive Specialization.Revised : Specialization → Specialization → Prop where
  | kept {s : Specialization} : s.bodyScope? = none → s.Revised s
  | body {s : Specialization} {params : Params} {before after : Scope} :
    s.kind = .body → s.implementation = .provided params before → after.known = before.known →
    (Unconditional before.visits → after = before) →
    s.Revised { s with implementation := .provided params after }

/-- `f` takes the place of `e`. Only the specializations of a callable may differ, one by one. -/
inductive Element.Revised : Element → Element → Prop where
  | customType (t : CustomType) : Element.Revised (.customType t) (.customType t)
  | callable {c : Callable} {specializations : List Specialization} :
    List.Forall₂ Specialization.Revised c.specializations specializations →
    Element.Revised (.callable c) (.callable { c with specializations })

/-- An operation whose one specialization is a body with statements. -/
def Callable.IsSingleBody (op : Callable) : Prop :=
  op.kind = .operation ∧ ∃ s params scope, op.specializations = [s] ∧ s.kind = .body ∧
    s.implementation = .provided params scope

theorem Frame.Makes.isSingleBody {frame : Frame} {op : Callable} (h : frame.Makes op) :
    op.IsSingleBody := by
  obtain ⟨name, body, comments, -, rfl⟩ := h
  exact ⟨rfl, _, _, _, rfl, rfl, rfl⟩

theorem Chain.forall₂ {α β : Type} {R : α → Progress → β → Progress → Prop} {S : α → β → Prop}
    {as : List α} {bs : List β} {p q : Progress} (h : Chain R as p bs q)
    (hR : ∀ a p b q, R a p b q → S a b) : List.Forall₂ S as bs := by
  induction h with
  | nil p => exact .nil
  | cons hab _ ih => exact .cons (hR _ _ _ _ hab) ih

section
variable (primitives : Primitives)

theorem Specialization.lower_revised (frame : Frame) (s : Specialization) (p : Progress) :
    s.Revised ((s.lower primitives frame).run p).1 := by
  obtain ⟨params, scope, hkind, himpl, heq⟩ | ⟨hnone, heq⟩ := s.lower_cases primitives frame p
  · rw [heq]
    refine .body hkind himpl ?_ fun hplain => ?_
    · rw [Scope.lower_run]
    · exact (scope.lower_of_settled primitives frame (scope.settled_of_unconditional hplain) p).1
  · rw [heq]
    refine .kept (Option.eq_none_iff_forall_ne_some.mpr fun scope hscope => ?_)
    obtain ⟨params, hkind, himpl⟩ := Specialization.bodyScope?_eq_some.mp hscope
    exact hnone params scope hkind himpl

theorem Element.lower_revised (e : Element) (p : Progress) :
    e.Revised ((e.lower primitives).run p).1 := by
  cases e with
  | customType t => exact .customType t
  | callable c =>
    rw [Element.lower_callable_run]
    refine .callable ((Chain.mapM (Specialization.lower primitives (.ofCallable c))
      c.specializations p).forall₂ fun s p t q hrun => ?_)
    have hrevised := s.lower_revised primitives (.ofCallable c) p
    rw [hrun] at hrevised
    exact hrevised

/-! ### Operations stand beside their callable -/

theorem applyTest_beside (frame : Frame) (s : Statement) (t : OutcomeTest) (p : Progress) :
    p.Adds (·.name.space = frame.name.space) ((applyTest primitives frame s t).run p).2 := by
  obtain ⟨outcome, condition, body, default⟩ := t
  have hbody : p.Adds (·.name.space = frame.name.space)
      ((hoist frame body s.info.comments).run p).2 := .of_hoisted_eq rfl rfl
  cases default with
  | none => exact hbody
  | some block => exact hbody.trans (.of_hoisted_eq rfl rfl)

theorem conclude_beside (frame : Frame) (s : Statement) (p : Progress) :
    p.Adds (·.name.space = frame.name.space) ((conclude primitives frame s).run p).2 := by
  obtain ⟨event, -, heq, -⟩ | ⟨t, -, -, -, heq⟩ | ⟨t, -, -, -, heq⟩ :=
    conclude_cases primitives frame s p
  · rw [heq]
    exact .refl p
  · rw [heq]
    exact applyTest_beside primitives frame s t p
  · rw [heq]
    exact applyTest_beside primitives frame s
      { t with condition := ((bindCondition s t.condition).run p).1.2 } _

end

/-- What became of an element, and where its operations stand. -/
structure Yield.Revised (y : Yield) : Prop where
  element : y.before.Revised y.after
  operation : ∀ op ∈ y.operations, op.IsSingleBody
  beside : ∀ op ∈ y.operations, ∃ c, y.before = .callable c ∧ op.name.space = c.name.space

theorem Yield.Arises.revised {primitives : Primitives} {p q : Progress} {y : Yield}
    (h : y.Arises primitives p q) : y.Revised := by
  have helement := y.before.lower_revised primitives p
  have hbeside := y.before.lower_preorder primitives .refl (fun _ _ _ => .trans)
    (R := Progress.Adds fun op => ∃ c, y.before = .callable c ∧ op.name.space = c.name.space)
    (fun c hc s p => (conclude_beside primitives (.ofCallable c) s p).imp fun _ hop => ⟨c, hc, hop⟩) p
  rw [h.run] at helement hbeside
  refine ⟨helement, fun op hop => ?_, hbeside.forall_mem h.hoisted⟩
  obtain ⟨c, -, hmakes⟩ := h.makes op hop
  exact hmakes.isSingleBody

/-! ### Whole programs -/

theorem Namespace.lowerAll_map_name (primitives : Primitives) (names : NameSupply)
    (nss : List Namespace) :
    (Namespace.lowerAll primitives names nss).result.map Namespace.name = nss.map Namespace.name := by
  induction nss generalizing names with
  | nil => rfl
  | cons ns nss ih => exact congrArg (ns.name :: ·) (ih _)

theorem Compilation.callableCount_eq (c : Compilation) : c.callableCount = c.callableNames.length := by
  have hnames : c.callableNames = (c.namespaces.flatMap Namespace.callables).map (·.name) := by
    rw [List.map_flatMap]
    exact congrArg (List.flatMap · _) (funext fun ns => ns.map_name_callables.symm)
  rw [hnames, List.length_map, Compilation.callableCount]

/-- The operations that were made are counted besides the callables that were there. -/
theorem Compilation.callableCount_lower (c : Compilation) (options : Options) :
    (c.lower options).result.callableCount = c.callableCount + (c.lower options).targets.length := by
  have haccounts := Namespace.lowerAll_accounts options.primitives
    (.forCompilation c options.settings) c.namespaces
  rw [Compilation.callableCount_eq, Compilation.callableCount_eq]
  exact haccounts.callables.length_eq.trans List.length_append

/-- **Only the statements of bodies change.** Entry points and namespaces stay. The elements of a
namespace stay in their places: user-defined types as they are, and callables but for the statements of
bodies that have a conditional. Behind them stand the operations that were made, one for each block that
was moved out and in the namespace of its callable. So the callables are as many more as the log says. -/
theorem Compilation.lower_frame (c : Compilation) (options : Options) (input : String) :
    let out := c.lower options
    let yields := c.yields options
    (out.result.entryPoints = c.entryPoints ∧
      out.result.namespaces.map Namespace.name = c.namespaces.map Namespace.name) ∧
    (yields.map (·.map Yield.before) = c.namespaces.map Namespace.elements ∧
      out.result.namespaces.map Namespace.elements = yields.map Yield.elements ∧
      out.targets = (yields.flatten.flatMap Yield.operations).map (·.name)) ∧
    (∀ ys ∈ yields, ∀ y ∈ ys, y.Revised) ∧
    c.callableCount ≤ out.result.callableCount ∧
      out.result.callableCount - c.callableCount = out.targets.length ∧
      (Command.lowerLog input c out).getLast? =
        some ⟨.info, "qliftc", input ++ ": " ++ toString out.targets.length ++ " callable(s) hoisted"⟩ := by
  intro out yields
  have hcount : out.result.callableCount - c.callableCount = out.targets.length := by
    rw [c.callableCount_lower options, Nat.add_sub_cancel_left]
  refine ⟨⟨rfl, Namespace.lowerAll_map_name ..⟩, c.lower_yields options, fun ys hys y hy => ?_, ?_,
    hcount, ?_⟩
  · obtain ⟨ns, -, -, p, q, harises⟩ := Compilation.of_mem_yields hys hy
    exact harises.revised
  · rw [c.callableCount_lower options]
    exact Nat.le_add_right ..
  · rw [Command.lowerLog, hcount, List.getLast?_append]
    rfl

end OutcomeControl
