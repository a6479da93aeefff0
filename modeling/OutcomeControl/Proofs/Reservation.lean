import OutcomeControl.Proofs.Independence

/-! The order in which names are reserved does not matter.

A name is free or taken whatever the order of the taken names, so a supply gives out the same names if the
same ones were reserved in another order (`NameSupply.Agrees`). The pass reads the supply only by
drawing from it. It makes the same of a program from supplies that agree
(`Namespace.lowerAll_steady`), and reserving the same names in any order gives such supplies
(`NameSupply.forCompilation_agrees`). -/

namespace OutcomeControl

/-! ### Supplies -/

/-- The same supply, but for the order in which names were reserved. -/
structure NameSupply.Agrees (s t : NameSupply) : Prop where
  issued : t.issued = s.issued
  reserved : t.reserved.Perm s.reserved
  callablePrefix : t.callablePrefix = s.callablePrefix
  variablePrefix : t.variablePrefix = s.variablePrefix

namespace NameSupply

theorem search_congr (wanted : UInt32 → String) {xs ys : List String} (h : ∀ n, n ∈ xs ↔ n ∈ ys)
    (tries k : Nat) : search wanted xs tries k = search wanted ys tries k := by
  induction tries generalizing k with
  | zero => rfl
  | succ tries ih => simp only [search, h, ih]

/-- Drawing from either supply gives the same, and what is left of them agrees. -/
def DrawsAlike {α : Type} (draw : NameSupply → α × NameSupply) : Prop :=
  ∀ s t, s.Agrees t → (draw t).1 = (draw s).1 ∧ (draw s).2.Agrees (draw t).2

namespace Agrees
variable {s t : NameSupply} (h : s.Agrees t)
include h

theorem draw (wanted : UInt32 → String) :
    (t.draw wanted).1 = (s.draw wanted).1 ∧ (s.draw wanted).2.Agrees (t.draw wanted).2 := by
  have htoken : search wanted t.reserved t.reserved.length t.issued =
      search wanted s.reserved s.reserved.length s.issued := by
    rw [h.issued, h.reserved.length_eq]
    exact search_congr wanted (fun _ => h.reserved.mem_iff) _ _
  exact ⟨congrArg (fun token => wanted (.ofNat token)) htoken, htoken, h.reserved, h.callablePrefix,
    h.variablePrefix⟩

theorem callableName : t.callableName = s.callableName := by
  funext enclosing token
  rw [NameSupply.callableName, h.callablePrefix]
  rfl

theorem variableName : t.variableName = s.variableName := by
  funext token
  rw [NameSupply.variableName, h.variablePrefix]
  rfl

end Agrees

theorem drawsAlike_freshCallable (q : QualifiedName) : DrawsAlike (·.freshCallable q) := by
  intro s t h
  obtain ⟨hname, hagrees⟩ := h.draw (s.callableName q.name)
  simp only [freshCallable, h.callableName]
  exact ⟨congrArg q.sibling hname, hagrees⟩

theorem drawsAlike_freshVariable : DrawsAlike freshVariable := by
  intro s t h
  have hdraw := h.draw s.variableName
  unfold freshVariable
  rwa [h.variableName]

theorem foldl_reserve (names : List String) (s : NameSupply) :
    names.foldl reserve s = { s with reserved := (names.foldl reserve s).reserved } := by
  induction names generalizing s with
  | nil => rfl
  | cons n names ih => exact ih _

theorem nodup_reserved_foldl (names : List String) {s : NameSupply} (h : s.reserved.Nodup) :
    (names.foldl reserve s).reserved.Nodup := by
  induction names generalizing s with
  | nil => exact h
  | cons n names ih => exact ih h.insert

/-- What a supply reserves depends on the names alone, not on how often or in which order they are
met. -/
theorem forCompilation_agrees {c d : Compilation} (h : ∀ n, n ∈ d.names ↔ n ∈ c.names)
    (settings : Settings) : (forCompilation c settings).Agrees (forCompilation d settings) := by
  have hc := foldl_reserve c.names (ofSettings settings)
  have hd := foldl_reserve d.names (ofSettings settings)
  have hnone : (ofSettings settings).reserved.Nodup := List.nodup_nil
  refine ⟨?_, ?_, ?_, ?_⟩
  · exact (congrArg issued hd).trans (congrArg issued hc).symm
  · refine (List.perm_ext_iff_of_nodup (nodup_reserved_foldl _ hnone)
      (nodup_reserved_foldl _ hnone)).mpr fun n => ?_
    rw [mem_reserved_foldl, mem_reserved_foldl, h]
  · exact (congrArg callablePrefix hd).trans (congrArg callablePrefix hc).symm
  · exact (congrArg variablePrefix hd).trans (congrArg variablePrefix hc).symm

end NameSupply

/-! ### Steps of the pass -/

/-- The same progress, on supplies that agree. -/
structure Progress.Agrees (p q : Progress) : Prop where
  names : p.names.Agrees q.names
  hoisted : q.hoisted = p.hoisted
  report : q.report = p.report

/-- The order in which names were reserved does not matter. -/
def Pass.Steady {α : Type} (m : Pass α) : Prop :=
  ∀ p q, p.Agrees q → (m.run q).1 = (m.run p).1 ∧ (m.run p).2.Agrees (m.run q).2

namespace Pass.Steady
variable {α β : Type}

theorem pure (a : α) : (pure a : Pass α).Steady := fun _ _ h => ⟨rfl, h⟩

theorem bind {m : Pass α} {k : α → Pass β} (hm : m.Steady) (hk : ∀ a, (k a).Steady) :
    (m >>= k).Steady := by
  intro p q h
  obtain ⟨hresult, hagrees⟩ := hm p q h
  have hrest := hk (m.run p).1 _ _ hagrees
  rw [StateT.run_bind, StateT.run_bind]
  change ((k (m.run q).1).run (m.run q).2).1 = _ ∧ Progress.Agrees _ ((k (m.run q).1).run (m.run q).2).2
  rw [hresult]
  exact hrest

theorem mapM {k : α → Pass β} (hk : ∀ a, (k a).Steady) (as : List α) : (as.mapM k).Steady := by
  induction as with
  | nil => exact .pure []
  | cons a as ih =>
    rw [List.mapM_cons]
    exact .bind (hk a) fun b => .bind ih fun bs => .pure (b :: bs)

theorem note (e : Event) : (Pass.note e).Steady :=
  fun _ _ h => ⟨rfl, h.names, h.hoisted, congrArg (· ++ [e]) h.report⟩

theorem keep (c : Callable) : (Pass.keep c).Steady :=
  fun _ _ h => ⟨rfl, h.names, congrArg (· ++ [c]) h.hoisted, h.report⟩

theorem fresh {draw : NameSupply → α × NameSupply} (hdraw : NameSupply.DrawsAlike draw) :
    (Pass.fresh draw).Steady :=
  fun _ _ h => ⟨(hdraw _ _ h.names).1, (hdraw _ _ h.names).2, h.hoisted, h.report⟩

end Pass.Steady

section
variable (primitives : Primitives) (frame : Frame)

theorem hoist_steady (body : Scope) (comments : Comments) : (hoist frame body comments).Steady :=
  .bind (.fresh (NameSupply.drawsAlike_freshCallable frame.name)) fun _ =>
    .bind (.note _) fun _ => .bind (.keep _) fun _ => .pure _

theorem bindCondition_steady (s : Statement) (value : Expr) : (bindCondition s value).Steady :=
  .bind (.fresh NameSupply.drawsAlike_freshVariable) fun _ => .bind (.note _) fun _ => .pure _

theorem applyBlock_steady (s : Statement) (outcome : Outcome) (condition : Expr) (body : Scope) :
    (applyBlock primitives frame s outcome condition body).Steady :=
  .bind (hoist_steady frame body s.info.comments) fun _ => .pure _

theorem applyTest_steady (s : Statement) (t : OutcomeTest) :
    (applyTest primitives frame s t).Steady := by
  obtain ⟨outcome, condition, body, default⟩ := t
  refine .bind (applyBlock_steady primitives frame s outcome condition body) fun yes => ?_
  cases default with
  | none => exact .pure _
  | some other => exact .bind (applyBlock_steady primitives frame s _ condition other) fun no => .pure _

theorem conclude_steady (s : Statement) : (conclude primitives frame s).Steady := by
  unfold conclude
  split
  · exact .bind (.note _) fun _ => .pure _
  · split
    · exact .bind (.note _) fun _ => .pure _
    · split
      · exact applyTest_steady primitives frame s _
      · exact .bind (bindCondition_steady s _) fun _ =>
          .bind (applyTest_steady primitives frame s _) fun _ => .pure _

theorem Branches.guard_steady (info : StatementInfo) (condition : Expr) (block : Block)
    (below : Branches) : (below.guard primitives frame info condition block).Steady := by
  cases below with
  | arm c b r => exact .bind (conclude_steady primitives frame _) fun _ => .pure _
  | otherwise b => exact .pure _
  | done => exact .pure _

mutual
theorem Statement.lower_steady : (s : Statement) → (s.lower primitives frame).Steady
  | ⟨.conditional branches, info⟩ =>
    .bind (branches.lower_steady info) fun _ => conclude_steady primitives frame _
  | ⟨.forEach _ _ _ body, _⟩ => .bind body.lower_steady fun _ => .pure _
  | ⟨.whileLoop _ body, _⟩ => .bind body.lower_steady fun _ => .pure _
  | ⟨.repeatUntil block _ fixup, _⟩ =>
    .bind block.lower_steady fun _ => .bind fixup.lower_steady fun _ => .pure _
  | ⟨.qubits _ _ body, _⟩ => .bind body.lower_steady fun _ => .pure _
  | ⟨.expression _, _⟩ | ⟨.returns _, _⟩ | ⟨.fails _, _⟩ | ⟨.binding _, _⟩ | ⟨.update _ _, _⟩ => .pure _
theorem Branches.lower_steady (info : StatementInfo) :
    (b : Branches) → (b.lower primitives frame info).Steady
  | .arm condition block rest => by
    rw [Branches.lower_arm]
    exact .bind block.lower_steady fun out =>
      .bind (rest.lower_steady info) (Branches.guard_steady primitives frame info condition out)
  | .otherwise block => .bind block.lower_steady fun _ => .pure _
  | .done => .pure _
theorem Block.lower_steady : (b : Block) → (b.lower primitives frame).Steady
  | ⟨body, _, _⟩ => .bind body.lower_steady fun _ => .pure _
theorem Scope.lower_steady : (s : Scope) → (s.lower primitives frame).Steady
  | ⟨statements, _⟩ => .bind (Statement.lowerList_steady statements) fun _ => .pure _
theorem Statement.lowerList_steady :
    (ss : List Statement) → (Statement.lowerList primitives frame ss).Steady
  | [] => .pure _
  | s :: ss => .bind s.lower_steady fun _ => .bind (Statement.lowerList_steady ss) fun _ => .pure _
end

theorem Specialization.lower_steady (s : Specialization) : (s.lower primitives frame).Steady := by
  unfold Specialization.lower
  split
  · exact .bind (Scope.lower_steady primitives frame _) fun _ => .pure _
  · exact .pure _

theorem Element.lower_steady (e : Element) : (e.lower primitives).Steady := by
  cases e with
  | customType t => exact .pure _
  | callable c =>
    exact .bind (.bind (.mapM (Specialization.lower_steady primitives _) _) fun _ => .pure _)
      fun _ => .pure _

/-- The same result and the same report, from supplies that agree. -/
structure Lowered.Agrees {α : Type} (x y : Lowered α) : Prop where
  result : y.result = x.result
  names : x.names.Agrees y.names
  report : y.report = x.report

theorem Namespace.lower_steady {s t : NameSupply} (h : s.Agrees t) (ns : Namespace) :
    (ns.lower primitives s).Agrees (ns.lower primitives t) := by
  obtain ⟨helements, hprogress⟩ :=
    Pass.Steady.mapM (Element.lower_steady primitives) ns.elements { names := s } { names := t }
      ⟨h, rfl, rfl⟩
  constructor
  · exact congrArg₂ (fun elements (made : List Callable) =>
      { ns with elements := elements ++ made.map Element.callable }) helements hprogress.hoisted
  · exact hprogress.names
  · exact congrArg₂ (fun (made : List Callable) report =>
      if made.isEmpty then report else report ++ [.extended ns.name made.length])
      hprogress.hoisted hprogress.report

theorem Namespace.lowerAll_steady {s t : NameSupply} (h : s.Agrees t) (nss : List Namespace) :
    (Namespace.lowerAll primitives s nss).Agrees (Namespace.lowerAll primitives t nss) := by
  induction nss generalizing s t with
  | nil => exact ⟨rfl, h, rfl⟩
  | cons ns nss ih =>
    have hfirst := Namespace.lower_steady primitives h ns
    have hothers := ih hfirst.names
    constructor
    · exact congrArg₂ List.cons hfirst.result hothers.result
    · exact hothers.names
    · exact congrArg₂ (· ++ ·) hfirst.report hothers.report

end

end OutcomeControl
