import OutcomeControl.Proofs.Ownership
import OutcomeControl.Proofs.Renaming

/-! What the pass makes of a program does not depend on the supply of names.

Two runs on one program go in step: where one makes an operation or binds a variable, so does the
other, and all that differs is the name. `Pass.Alike` says this of two passes, for a renaming that
takes each name drawn in the first run to the one drawn at the same place in the second. It is kept by
sequencing, so it is proved along the definition of the pass. `Namespace.lower_renamed` says it of whole
namespaces, for the renaming that the two reports give (`Renaming.between`). -/

namespace OutcomeControl

/-! ### Items at the same place -/

/-- The function takes each item to the one at the same place. -/
def Matches {α : Type} (f : α → α) (xs ys : List α) : Prop :=
  ∀ (i : Nat) (x y : α), xs[i]? = some x → ys[i]? = some y → f x = y

namespace Matches
variable {α : Type} {f : α → α} {xs ys : List α}

theorem of_prefix {xs' ys' : List α} (h : Matches f xs' ys') (hxs : xs <+: xs') (hys : ys <+: ys') :
    Matches f xs ys := by
  obtain ⟨more, rfl⟩ := hxs
  obtain ⟨others, rfl⟩ := hys
  intro i x y hx hy
  have hlt := (List.getElem?_eq_some_iff.mp hx).1
  have hlt' := (List.getElem?_eq_some_iff.mp hy).1
  exact h i x y ((List.getElem?_append_left hlt).trans hx) ((List.getElem?_append_left hlt').trans hy)

theorem last {x y : α} (h : Matches f (xs ++ [x]) (ys ++ [y])) (hlength : xs.length = ys.length) :
    f x = y :=
  h xs.length x y List.getElem?_concat_length (hlength ▸ List.getElem?_concat_length)

end Matches

section
variable {α : Type} [DecidableEq α]

/-- From an item of the first list to the one at the same place in the second, and from anything else
to itself. -/
def follow : List α → List α → α → α
  | x :: xs, y :: ys, a => if a = x then y else follow xs ys a
  | _, _, a => a

theorem follow_of_notMem {xs ys : List α} {a : α} (h : a ∉ xs) : follow xs ys a = a := by
  induction xs, ys, a using follow.induct with
  | case1 x xs y ys => exact absurd (List.mem_cons_self ..) h
  | case2 x xs y ys a hne ih =>
    rw [follow, if_neg hne]
    exact ih (List.not_mem_of_not_mem_cons h)
  | case3 => simp [follow]

theorem follow_eq_or_mem (xs ys : List α) (a : α) : follow xs ys a = a ∨ follow xs ys a ∈ ys := by
  induction xs, ys, a using follow.induct with
  | case1 x xs y ys =>
    rw [follow, if_pos rfl]
    exact .inr (List.mem_cons_self ..)
  | case2 x xs y ys a hne ih =>
    rw [follow, if_neg hne]
    exact ih.imp id (List.mem_cons_of_mem y)
  | case3 => simp [follow]

theorem matches_follow {xs : List α} (h : xs.Nodup) (ys : List α) : Matches (follow xs ys) xs ys := by
  intro i a b ha hb
  induction xs generalizing ys i with
  | nil => cases ha
  | cons x xs ih =>
    obtain ⟨hnot, hnodup⟩ := List.nodup_cons.mp h
    cases ys with
    | nil => cases hb
    | cons y ys =>
      cases i with
      | zero =>
        obtain rfl : x = a := Option.some.inj ha
        obtain rfl : y = b := Option.some.inj hb
        rw [follow, if_pos rfl]
      | succ i =>
        have hne : a ≠ x := fun heq => hnot (heq ▸ List.mem_of_getElem? ha)
        rw [follow, if_neg hne]
        exact ih hnodup ys i ha hb

end

/-! ### Passes that go in step -/

section
variable (σ : Renaming)

/-- Each name drawn in the first run gets the name drawn at the same place in the second. -/
structure Progress.Pairs (p q : Progress) : Prop where
  callables : Matches σ.ofCallable (p.report.filterMap Event.target?)
    (q.report.filterMap Event.target?)
  bound : Matches σ.ofVariable (Event.variableNames p.report) (Event.variableNames q.report)

/-- The second run has made the operations of the first and reported its events, under the new
names. -/
structure Progress.Twins (p q : Progress) : Prop where
  hoisted : q.hoisted = p.hoisted.map (Callable.rename σ)
  report : q.report = p.report.map (Event.rename σ)

/-- From twins to twins, with `f` from the first result to the second, as long as the names that are
drawn get each other's names. -/
def Pass.Alike {α : Type} (f : α → α) (m n : Pass α) : Prop :=
  ∀ p q, p.Twins σ q → (m.run p).2.Pairs σ (n.run q).2 →
    (n.run q).1 = f (m.run p).1 ∧ (m.run p).2.Twins σ (n.run q).2

/-- The report only gets longer. -/
def Pass.Grows {α : Type} (m : Pass α) : Prop := ∀ p, p.report <+: (m.run p).2.report

@[simp] theorem Event.filterMap_target?_rename (es : List Event) :
    (es.map (Event.rename σ)).filterMap Event.target? =
      (es.filterMap Event.target?).map σ.ofCallable := by
  rw [List.filterMap_map, List.map_filterMap]
  congr 1
  funext e
  cases e <;> rfl

@[simp] theorem Event.variableNames_rename (es : List Event) :
    Event.variableNames (es.map (Event.rename σ)) = (Event.variableNames es).map σ.ofVariable := by
  rw [Event.variableNames, Event.variableNames, List.filterMap_map, List.map_filterMap]
  congr 1
  funext e
  cases e <;> rfl

end

theorem Progress.Pairs.of_prefix {σ : Renaming} {p p' q q' : Progress} (h : p'.Pairs σ q')
    (hp : p.report <+: p'.report) (hq : q.report <+: q'.report) : p.Pairs σ q :=
  ⟨h.callables.of_prefix (hp.filterMap _) (hq.filterMap _),
    h.bound.of_prefix (hp.filterMap _) (hq.filterMap _)⟩

namespace Pass
variable {α β : Type}

theorem Grows.pure (a : α) : (pure a : Pass α).Grows := fun _ => List.prefix_rfl

theorem Grows.bind {m : Pass α} {k : α → Pass β} (hm : m.Grows) (hk : ∀ a, (k a).Grows) :
    (m >>= k).Grows := fun p => (hm p).trans (hk _ _)

theorem Grows.mapM {k : α → Pass β} (hk : ∀ a, (k a).Grows) (as : List α) : (as.mapM k).Grows := by
  induction as with
  | nil => exact .pure []
  | cons a as ih =>
    rw [List.mapM_cons]
    exact .bind (hk a) fun b => .bind ih fun bs => .pure (b :: bs)

namespace Alike
variable {σ : Renaming} {f : α → α} {g : β → β} {m n : Pass α}

theorem pure {a b : α} (h : b = f a) : Alike σ f (pure a) (pure b) := fun _ _ htwins _ => ⟨h, htwins⟩

theorem note {e e' : Event} (h : e' = e.rename σ) : Alike σ id (Pass.note e) (Pass.note e') := by
  intro p q htwins _
  refine ⟨rfl, htwins.hoisted, ?_⟩
  change q.report ++ [e'] = (p.report ++ [e]).map (Event.rename σ)
  rw [htwins.report, h, List.map_append, List.map_singleton]

theorem bind {k l : α → Pass β} (hm : Alike σ f m n) (hk : ∀ a, Alike σ g (k a) (l (f a)))
    (hgrows : ∀ a, (k a).Grows) (hgrows' : ∀ a, (l a).Grows) : Alike σ g (m >>= k) (n >>= l) := by
  intro p q htwins hpairs
  rw [StateT.run_bind, StateT.run_bind] at hpairs ⊢
  change ((k (m.run p).1).run (m.run p).2).2.Pairs σ ((l (n.run q).1).run (n.run q).2).2 at hpairs
  obtain ⟨hresult, htwins'⟩ := hm p q htwins (hpairs.of_prefix (hgrows _ _) (hgrows' _ _))
  rw [hresult] at hpairs
  have hsecond := hk _ _ _ htwins' hpairs
  rw [← hresult] at hsecond
  exact hsecond

/-- A last step that only computes. -/
theorem map {k l : α → β} (hm : Alike σ f m n) (hk : ∀ a, l (f a) = g (k a)) :
    Alike σ g (m >>= fun a => Pure.pure (k a)) (n >>= fun a => Pure.pure (l a)) :=
  hm.bind (fun a => .pure (hk a)) (fun a => .pure (k a)) (fun a => .pure (l a))

theorem mapM {r : β → β} {k l : α → Pass β} {as : List α} (h : ∀ a ∈ as, Alike σ r (k a) (l a))
    (hgrows : ∀ a, (k a).Grows) (hgrows' : ∀ a, (l a).Grows) :
    Alike σ (List.map r) (as.mapM k) (as.mapM l) := by
  induction as with
  | nil => exact .pure rfl
  | cons a as ih =>
    obtain ⟨ha, has⟩ := List.forall_mem_cons.mp h
    rw [List.mapM_cons, List.mapM_cons]
    exact ha.bind (fun b => (ih has).map fun bs => rfl)
      (fun b => .bind (.mapM hgrows as) fun _ => .pure _)
      (fun b => .bind (.mapM hgrows' as) fun _ => .pure _)

end Alike

end Pass

/-! ### The report grows -/

section
variable (primitives : Primitives) (frame : Frame)

theorem applyBlock_grows (s : Statement) (outcome : Outcome) (condition : Expr) (body : Scope) :
    (applyBlock primitives frame s outcome condition body).Grows := fun _ => List.prefix_append ..

theorem applyTest_grows (s : Statement) (t : OutcomeTest) :
    (applyTest primitives frame s t).Grows := by
  intro p
  obtain ⟨events, htells, -⟩ := applyTest_tells primitives frame s t p
  exact htells.report ▸ List.prefix_append ..

theorem conclude_grows (s : Statement) : (conclude primitives frame s).Grows := by
  intro p
  obtain ⟨events, htells⟩ := conclude_tells primitives frame s p
  exact htells.report ▸ List.prefix_append ..

/-- A lowered chain under one more guard. -/
def Branches.guard (info : StatementInfo) (condition : Expr) (block : Block) : Branches → Pass Branches
  | .arm c b r => do
    let inner := Branches.arm c b r
    return .arm condition block
      (inner.enclose (← conclude primitives frame ⟨.conditional inner, info⟩))
  | below => return .arm condition block below

theorem Branches.lower_arm (info : StatementInfo) (condition : Expr) (block : Block) (rest : Branches) :
    (Branches.arm condition block rest).lower primitives frame info =
      block.lower primitives frame >>= fun out => rest.lower primitives frame info >>=
        Branches.guard primitives frame info condition out := by
  rw [Branches.lower]
  rfl

theorem Branches.guard_grows (info : StatementInfo) (condition : Expr) (block : Block)
    (below : Branches) : (below.guard primitives frame info condition block).Grows := by
  cases below with
  | arm c b r => exact .bind (conclude_grows primitives frame _) fun _ => .pure _
  | otherwise b => exact .pure _
  | done => exact .pure _

theorem lower_grows :
    (∀ s : Statement, (s.lower primitives frame).Grows) ∧
    (∀ ss, (Statement.lowerList primitives frame ss).Grows) ∧
    ∀ info (b : Branches), (b.lower primitives frame info).Grows :=
  lower_preorder primitives frame (R := fun p q => p.report <+: q.report)
    (fun _ => List.prefix_rfl) (fun _ _ _ => List.IsPrefix.trans) (conclude_grows primitives frame)

theorem Scope.lower_grows (s : Scope) : (s.lower primitives frame).Grows := by
  intro p
  rw [Scope.lower_run]
  exact (OutcomeControl.lower_grows primitives frame).2.1 s.statements p

theorem Block.lower_grows (b : Block) : (b.lower primitives frame).Grows := by
  obtain ⟨body, location, comments⟩ := b
  exact body.lower_grows primitives frame

theorem Element.lower_grows (e : Element) : (e.lower primitives).Grows := by
  intro p
  obtain ⟨events, htells⟩ := e.lower_tells primitives p
  exact htells.report ▸ List.prefix_append ..

end

/-! ### In step -/

/-- The names of the primitives stay, and so does that of the callable, which nothing else gets. -/
structure Renaming.Respects (σ : Renaming) (primitives : Primitives) (frame : Frame) : Prop where
  primitive : ∀ o, σ.ofCallable (primitives.forOutcome o).name = (primitives.forOutcome o).name
  callable : ∀ q, σ.ofCallable q = frame.name ↔ q = frame.name

section
variable {σ : Renaming} {primitives : Primitives} {frame : Frame}

theorem bindCondition_alike (s : Statement) (value : Expr) :
    Pass.Alike σ (Prod.map (Statement.rename σ) (Expr.rename σ)) (bindCondition s value)
      (bindCondition (s.rename σ) (value.rename σ)) := by
  intro p q htwins hpairs
  rw [bindCondition_run, bindCondition_run] at hpairs ⊢
  have hname : σ.ofVariable p.names.freshVariable.1 = q.names.freshVariable.1 := by
    have hbound := hpairs.bound
    simp only [Event.variableNames_append] at hbound
    refine hbound.last ?_
    rw [htwins.report, Event.variableNames_rename, List.length_map]
  refine ⟨?_, htwins.hoisted, ?_⟩
  · simp only [Prod.map, Statement.bindingOf_rename, Expr.localName_rename, hname, Expr.ty_rename]
  · simp only [htwins.report, List.map_append, List.map_singleton, Event.rename, hname, Expr.ty_rename]

theorem applyBlock_alike (h : σ.Respects primitives frame) (s : Statement) (outcome : Outcome)
    (condition : Expr) (body : Scope) :
    Pass.Alike σ (Statement.rename σ) (applyBlock primitives frame s outcome condition body)
      (applyBlock primitives frame (s.rename σ) outcome (condition.rename σ) (body.rename σ)) := by
  intro p q htwins hpairs
  rw [applyBlock_run, applyBlock_run] at hpairs ⊢
  have hname : σ.ofCallable (p.names.freshCallable frame.name).1 =
      (q.names.freshCallable frame.name).1 := by
    have hcallables := hpairs.callables
    simp only [List.filterMap_append] at hcallables
    refine hcallables.last ?_
    rw [htwins.report, Event.filterMap_target?_rename, List.length_map]
  have hsource := (h.callable frame.name).mpr rfl
  refine ⟨?_, ?_, ?_⟩
  · simp only [Statement.replacedBy_rename, Primitive.controlCall_rename h.callable (h.primitive outcome),
      Target.rename, hname, Scope.known_rename, Ty.tupleOf_rename, Variable.map_ty_rename]
  · simp only [htwins.hoisted, List.map_append, List.map_singleton,
      Frame.reroute_operation_rename h.callable, hname, Statement.comments_rename]
  · simp only [htwins.report, List.map_append, List.map_singleton, Event.rename, hname, hsource,
      Scope.length_statements_rename, Scope.known_rename, List.length_map]

theorem applyTest_alike (h : σ.Respects primitives frame) (s : Statement) (t : OutcomeTest) :
    Pass.Alike σ (List.map (Statement.rename σ)) (applyTest primitives frame s t)
      (applyTest primitives frame (s.rename σ) (t.rename σ)) := by
  obtain ⟨outcome, condition, body, default⟩ := t
  have hyes := applyBlock_alike h s outcome condition body
  cases default with
  | none => exact hyes.map fun yes => rfl
  | some block =>
    have hno := applyBlock_alike h s outcome.opposite condition block
    exact hyes.bind (fun yes => hno.map fun no => rfl)
      (fun yes => .bind (applyBlock_grows primitives frame _ _ _ _) fun no => .pure _)
      (fun yes => .bind (applyBlock_grows primitives frame _ _ _ _) fun no => .pure _)

theorem conclude_alike (h : σ.Respects primitives frame) (s : Statement) :
    Pass.Alike σ (List.map (Statement.rename σ)) (conclude primitives frame s)
      (conclude primitives frame (s.rename σ)) := by
  have hsource := (h.callable frame.name).mpr rfl
  unfold conclude
  rw [Statement.outcomeTest?_rename]
  cases s.outcomeTest? with
  | none =>
    refine (Pass.Alike.note ?_).map fun _ => rfl
    rw [Event.rename, hsource]
  | some t =>
    simp only [Option.map_some, OutcomeTest.isSeparable_rename]
    cases t.isSeparable with
    | false =>
      refine (Pass.Alike.note ?_).map fun _ => rfl
      rw [Event.rename, hsource]
      rfl
    | true =>
      have hcondition : (t.rename σ).condition.isName = t.condition.isName := t.condition.isName_rename σ
      simp only [Bool.not_true, Bool.false_eq_true, if_false, hcondition]
      cases t.condition.isName with
      | true => exact applyTest_alike h s t
      | false =>
        refine (bindCondition_alike s t.condition).bind (fun bound => ?_) (fun bound => ?_) fun bound => ?_
        · exact (applyTest_alike h s { t with condition := bound.2 }).map fun _ => rfl
        · exact .bind (applyTest_grows primitives frame _ _) fun _ => .pure _
        · exact .bind (applyTest_grows primitives frame _ _) fun _ => .pure _

theorem Branches.guard_alike (h : σ.Respects primitives frame) (info : StatementInfo) (condition : Expr)
    (block : Block) (below : Branches) :
    Pass.Alike σ (Branches.rename σ) (below.guard primitives frame info condition block)
      ((below.rename σ).guard primitives frame (info.rename σ) (condition.rename σ) (block.rename σ)) := by
  cases below with
  | arm c b r =>
    refine (conclude_alike h ⟨.conditional (.arm c b r), info⟩).map fun statements => ?_
    rw [Branches.rename, Branches.enclose_rename]
    rfl
  | otherwise b => exact .pure rfl
  | done => exact .pure rfl

mutual
theorem Statement.lower_alike (h : σ.Respects primitives frame) : (s : Statement) →
    Pass.Alike σ (List.map (Statement.rename σ)) (s.lower primitives frame)
      ((s.rename σ).lower primitives frame)
  | ⟨.conditional branches, info⟩ =>
    (branches.lower_alike h info).bind (fun below => conclude_alike h ⟨.conditional below, info⟩)
      (fun _ => conclude_grows primitives frame _) (fun _ => conclude_grows primitives frame _)
  | ⟨.forEach _ _ _ body, _⟩ => (body.lower_alike h).map fun _ => rfl
  | ⟨.whileLoop _ body, _⟩ => (body.lower_alike h).map fun _ => rfl
  | ⟨.repeatUntil block _ fixup, _⟩ =>
    (block.lower_alike h).bind (fun _ => (fixup.lower_alike h).map fun _ => rfl)
      (fun _ => .bind (fixup.lower_grows primitives frame) fun _ => .pure _)
      (fun _ => .bind ((fixup.rename σ).lower_grows primitives frame) fun _ => .pure _)
  | ⟨.qubits _ ⟨_, _, _⟩ body, _⟩ => (body.lower_alike h).map fun _ => rfl
  | ⟨.expression _, _⟩ | ⟨.returns _, _⟩ | ⟨.fails _, _⟩ | ⟨.update _ _, _⟩ => .pure rfl
  | ⟨.binding ⟨_, _, _⟩, _⟩ => .pure rfl
theorem Branches.lower_alike (h : σ.Respects primitives frame) (info : StatementInfo) :
    (b : Branches) →
    Pass.Alike σ (Branches.rename σ) (b.lower primitives frame info)
      ((b.rename σ).lower primitives frame (info.rename σ))
  | .arm condition block rest => by
    rw [Branches.rename, Branches.lower_arm, Branches.lower_arm]
    exact (block.lower_alike h).bind
      (fun out => (rest.lower_alike h info).bind (Branches.guard_alike h info condition out)
        (Branches.guard_grows primitives frame _ _ _) (Branches.guard_grows primitives frame _ _ _))
      (fun _ => .bind ((lower_grows primitives frame).2.2 info rest)
        (Branches.guard_grows primitives frame _ _ _))
      (fun _ => .bind ((lower_grows primitives frame).2.2 _ (rest.rename σ))
        (Branches.guard_grows primitives frame _ _ _))
  | .otherwise block => (block.lower_alike h).map fun _ => rfl
  | .done => .pure rfl
theorem Block.lower_alike (h : σ.Respects primitives frame) : (b : Block) →
    Pass.Alike σ (Block.rename σ) (b.lower primitives frame) ((b.rename σ).lower primitives frame)
  | ⟨body, _, _⟩ => (body.lower_alike h).map fun _ => rfl
theorem Scope.lower_alike (h : σ.Respects primitives frame) : (s : Scope) →
    Pass.Alike σ (Scope.rename σ) (s.lower primitives frame) ((s.rename σ).lower primitives frame)
  | ⟨statements, known⟩ =>
    (Statement.lowerList_alike h statements).map fun out => by rw [Scope.rename, Statement.renameList_eq]
theorem Statement.lowerList_alike (h : σ.Respects primitives frame) : (ss : List Statement) →
    Pass.Alike σ (List.map (Statement.rename σ)) (Statement.lowerList primitives frame ss)
      (Statement.lowerList primitives frame (Statement.renameList σ ss))
  | [] => .pure rfl
  | s :: ss =>
    (s.lower_alike h).bind
      (fun _ => (Statement.lowerList_alike h ss).map fun _ => List.map_append.symm)
      (fun _ => .bind ((lower_grows primitives frame).2.1 ss) fun _ => .pure _)
      (fun _ => .bind ((lower_grows primitives frame).2.1 _) fun _ => .pure _)
end

theorem Specialization.lower_alike (h : σ.Respects primitives frame) (s : Specialization) :
    Pass.Alike σ (Specialization.rename σ) (s.lower primitives frame)
      ((s.rename σ).lower primitives frame) := by
  obtain ⟨kind, parent, sourceFile, location, typeArguments, signature, implementation,
    documentation, comments⟩ := s
  cases kind with
  | body =>
    cases implementation with
    | provided params scope => exact (scope.lower_alike h).map fun _ => rfl
    | intrinsic | external | generated directive => exact .pure rfl
  | adjoint | controlled | controlledAdjoint => cases implementation <;> exact .pure rfl

theorem Specialization.lower_grows (frame : Frame) (s : Specialization) :
    (s.lower primitives frame).Grows :=
  s.lower_preorder primitives frame (R := fun p q => p.report <+: q.report) (fun _ => List.prefix_rfl)
    (fun _ _ _ => List.IsPrefix.trans) (conclude_grows primitives frame)

/-- An element in which nothing gets another name is lowered to the same element in both runs, but for
the names that are drawn. -/
theorem Element.lower_alike {e : Element}
    (hrespects : ∀ c, e = .callable c → σ.Respects primitives (.ofCallable c))
    (hparents : ∀ q ∈ e.parents, σ.ofCallable q = q) (hspared : Spared σ e.visits) :
    Pass.Alike σ (Element.rename σ) (e.lower primitives) (e.lower primitives) := by
  cases e with
  | customType t =>
    refine .pure ?_
    rw [Element.rename, t.underlying.rename_of_spared hspared]
  | callable c =>
    have hc := hrespects c rfl
    have hname : σ.ofCallable c.name = c.name := (hc.callable c.name).mpr rfl
    have hsame := Callable.rename_of_spared hname hparents hspared
    have hspecializations : ∀ s ∈ c.specializations, Pass.Alike σ (Specialization.rename σ)
        (s.lower primitives (.ofCallable c)) (s.lower primitives (.ofCallable c)) := by
      intro s hs
      have hs' : s.rename σ = s := Specialization.rename_of_spared
        (hparents _ (List.mem_map_of_mem hs)) fun v hv => hspared v (List.mem_cons_of_mem _
          (List.mem_append_right _ (List.mem_flatMap.mpr ⟨s, hs, hv⟩)))
      have halike := s.lower_alike hc
      rwa [hs'] at halike
    have hall := Pass.Alike.mapM hspecializations (Specialization.lower_grows _)
      (Specialization.lower_grows _)
    refine (hall.map (g := Callable.rename σ) fun ss => ?_).map fun d => rfl
    change _ = { c.rename σ with specializations := ss.map (Specialization.rename σ) }
    rw [hsame]

end

/-! ### Two supplies -/

/-- From the names drawn in one run to those drawn in another, each to the one at the same place. -/
def Renaming.between (first second : List Event) : Renaming where
  ofCallable := follow (first.filterMap Event.target?) (second.filterMap Event.target?)
  ofVariable := follow (Event.variableNames first) (Event.variableNames second)

section
variable {first second : List Event} {names names' : NameSupply}

/-- What is reserved in the first run keeps its name. -/
theorem Renaming.between_spares {e : Element} (hnames : e.names ⊆ names.reserved)
    (hcallables : ∀ q ∈ first.filterMap Event.target?, q.name ∉ names.reserved)
    (hbound : ∀ n ∈ Event.variableNames first, n ∉ names.reserved)
    (horigins : ∀ q ∈ e.origins, q ∉ first.filterMap Event.target?) :
    Spared (.between first second) e.visits := by
  intro v hv
  have hmem : ∀ n ∈ v.names, n ∈ names.reserved := fun n hn => hnames (Element.mem_names hv hn)
  have hcallable : ∀ q : QualifiedName, q.name ∈ v.names →
      (Renaming.between first second).ofCallable q = q :=
    fun q hq => follow_of_notMem fun hdrawn => hcallables q hdrawn (hmem _ hq)
  have hvariable : ∀ n ∈ v.names, (Renaming.between first second).ofVariable n = n :=
    fun n hn => follow_of_notMem fun hdrawn => hbound n hdrawn (hmem n hn)
  cases v with
  | callable c | scope s | statement s => trivial
  | localName n => exact hvariable n (List.mem_singleton_self n)
  | type t =>
    cases t with
    | parameter p =>
      exact follow_of_notMem (horigins p.origin (List.mem_filterMap.mpr ⟨_, hv, rfl⟩))
    | _ => trivial
  | expression e =>
    refine ⟨fun id arguments hkind => ?_, fun r hr => ?_⟩
    · cases id with
      | ofVariable n =>
        refine congrArg Identifier.ofVariable (hvariable n ?_)
        simp [Visit.names, hkind]
      | ofCallable q =>
        refine congrArg Identifier.ofCallable (hcallable q ?_)
        simp [Visit.names, hkind]
      | invalid => rfl
    · exact hcallable r.callable (List.mem_append_right _ (List.mem_map_of_mem hr))

end

/-- The names that a run draws are new to the supply, as long as counting does not come back to where
it began. -/
theorem Namespace.lower_draws {primitives : Primitives} {names : NameSupply} {ns : Namespace}
    (hdrawn : (ns.lower primitives names).names.issued < names.issued + 2 ^ 32) :
    ((ns.lower primitives names).targets.Nodup ∧
      ∀ q ∈ (ns.lower primitives names).targets, q.name ∉ names.reserved) ∧
    (Event.variableNames (ns.lower primitives names).report).Nodup ∧
      ∀ n ∈ Event.variableNames (ns.lower primitives names).report, n ∉ names.reserved := by
  have haccounts := ns.lower_accounts primitives names
  have hcallables := haccounts.drawsCallables hdrawn
  have hbound := haccounts.drawsVariables hdrawn
  exact ⟨⟨(hcallables.nodup hdrawn).of_map _, fun q hq => hcallables.free _ (List.mem_map_of_mem hq)⟩,
    hbound.nodup hdrawn, hbound.free⟩

/-- Two runs whose elements go in step end with the same report and the same namespace, under the new
names. -/
theorem Namespace.lower_alike {primitives : Primitives} {ns : Namespace} {first second : NameSupply}
    {σ : Renaming}
    (halike : Pass.Alike σ (List.map (Element.rename σ)) (ns.elements.mapM (Element.lower primitives))
      (ns.elements.mapM (Element.lower primitives)))
    (hcallables : Matches σ.ofCallable (ns.lower primitives first).targets
      (ns.lower primitives second).targets)
    (hbound : Matches σ.ofVariable (Event.variableNames (ns.lower primitives first).report)
      (Event.variableNames (ns.lower primitives second).report)) :
    (ns.lower primitives second).report = (ns.lower primitives first).report.map (Event.rename σ) ∧
      (ns.lower primitives second).result = (ns.lower primitives first).result.rename σ := by
  let run := fun names => (ns.elements.mapM (Element.lower primitives)).run { names }
  -- The last event of a namespace names nothing.
  have hnames := fun names => Event.names_extended (run names).2.report ns.name
    (run names).2.hoisted.length (run names).2.hoisted.isEmpty
  have hpairs : (run first).2.Pairs σ (run second).2 := by
    refine ⟨?_, ?_⟩
    · rw [← (hnames first).1, ← (hnames second).1]
      exact hcallables
    · rw [← (hnames first).2, ← (hnames second).2]
      exact hbound
  obtain ⟨helements, hhoisted, hreport⟩ :=
    halike { names := first } { names := second } ⟨rfl, rfl⟩ hpairs
  constructor
  · change (if (run second).2.hoisted.isEmpty then (run second).2.report
        else (run second).2.report ++ [.extended ns.name (run second).2.hoisted.length]) =
      (if (run first).2.hoisted.isEmpty then (run first).2.report
        else (run first).2.report ++ [.extended ns.name (run first).2.hoisted.length]).map
          (Event.rename σ)
    rw [show (run second).2.report = _ from hreport, show (run second).2.hoisted = _ from hhoisted,
      List.isEmpty_map, List.length_map]
    split
    · rfl
    · rw [List.map_append]
      rfl
  · change { ns with elements := (run second).1 ++ (run second).2.hoisted.map Element.callable } =
      { ns with
        elements :=
          ((run first).1 ++ (run first).2.hoisted.map Element.callable).map (Element.rename σ) }
    rw [show (run second).1 = _ from helements, show (run second).2.hoisted = _ from hhoisted,
      List.map_append, List.map_map, List.map_map]
    rfl

/-- **The supply of names does not matter.** Let two supplies reserve the names of a namespace, with any
prefixes and counters, and let each give fewer than `2 ^ 32` numbers. Let the first run make no operation
that a type parameter or a specialization of the namespace says it belongs to, or that has the name of
a primitive. Then both runs make as many operations and bind as many variables, in the same order, and
the second result is the first one with each name that was drawn replaced by the one drawn in its
place. -/
theorem Namespace.lower_renamed (primitives : Primitives) (ns : Namespace) (first second : NameSupply)
    (hfirst : ∀ e ∈ ns.elements, e.names ⊆ first.reserved)
    (hsecond : ∀ e ∈ ns.elements, e.names ⊆ second.reserved)
    (hdrawn : (ns.lower primitives first).names.issued < first.issued + 2 ^ 32)
    (hdrawn' : (ns.lower primitives second).names.issued < second.issued + 2 ^ 32)
    (howners : ∀ e ∈ ns.elements, ∀ q ∈ e.origins ++ e.parents,
      q ∉ (ns.lower primitives first).targets)
    (hprimitives : ∀ o, (primitives.forOutcome o).name ∉ (ns.lower primitives first).targets) :
    let one := ns.lower primitives first
    let other := ns.lower primitives second
    let σ := Renaming.between one.report other.report
    (one.targets.length = other.targets.length ∧
      other.targets = one.targets.map σ.ofCallable) ∧
    ((Event.variableNames one.report).length = (Event.variableNames other.report).length ∧
      Event.variableNames other.report = (Event.variableNames one.report).map σ.ofVariable) ∧
    other.report = one.report.map (Event.rename σ) ∧
    other.result = one.result.rename σ := by
  intro one other σ
  obtain ⟨⟨hnodup, hfree⟩, hnodup', hfree'⟩ := Namespace.lower_draws hdrawn
  obtain ⟨⟨-, hfresh⟩, -, -⟩ := Namespace.lower_draws hdrawn'
  have hrespects : ∀ c, .callable c ∈ ns.elements → σ.Respects primitives (.ofCallable c) := by
    intro c hc
    have hname : c.name.name ∈ (Element.callable c).names := List.mem_cons_self ..
    refine ⟨fun o => follow_of_notMem (hprimitives o), fun q => ⟨fun hq => ?_, ?_⟩⟩
    · obtain hsame | hmem := follow_eq_or_mem one.targets other.targets q
      · exact hsame.symm.trans hq
      · rw [show follow one.targets other.targets q = c.name from hq] at hmem
        exact absurd (hsecond _ hc hname) (hfresh _ hmem)
    · rintro rfl
      exact follow_of_notMem fun hmem => hfree _ hmem (hfirst _ hc hname)
  have halike : Pass.Alike σ (List.map (Element.rename σ)) (ns.elements.mapM (Element.lower primitives))
      (ns.elements.mapM (Element.lower primitives)) := by
    refine .mapM (fun e he => ?_) (Element.lower_grows primitives) (Element.lower_grows primitives)
    refine Element.lower_alike (fun c hc => hrespects c (hc ▸ he)) (fun q hq => ?_) ?_
    · exact follow_of_notMem (howners e he q (List.mem_append_right _ hq))
    · exact Renaming.between_spares (hfirst e he) hfree hfree' fun q hq =>
        howners e he q (List.mem_append_left _ hq)
  obtain ⟨hreport, hresult⟩ :=
    Namespace.lower_alike halike (matches_follow hnodup _) (matches_follow hnodup' _)
  have htargets : other.targets = one.targets.map σ.ofCallable := by
    rw [Lowered.targets, hreport, Event.filterMap_target?_rename]
    rfl
  have hvariables : Event.variableNames other.report =
      (Event.variableNames one.report).map σ.ofVariable := by
    rw [hreport, Event.variableNames_rename]
  refine ⟨⟨?_, htargets⟩, ⟨?_, hvariables⟩, hreport, hresult⟩
  · rw [htargets, List.length_map]
  · rw [hvariables, List.length_map]

namespace Sample

/-- Other prefixes than in `genericNames`, more names that are taken, and a counter that comes round to
zero during the run. -/
def otherNames : NameSupply :=
  { issued := 2 ^ 32 - 3
    reserved := "u0_Main" :: genericNames.reserved
    callablePrefix := "u"
    variablePrefix := "v" }

end Sample

/-- Three blocks and one condition get names from either supply. -/
theorem Sample.generic_renamed :
    let one := Sample.genericSpace.lower .standard Sample.genericNames
    let other := Sample.genericSpace.lower .standard Sample.otherNames
    one.targets.map (·.name) = ["_ctrl1_Main", "_ctrl3_Main", "_ctrl4_Main"] ∧
      other.targets.map (·.name) = ["u4294967294_Main", "u1_Main", "u2_Main"] ∧
      other.result = one.result.rename (.between one.report other.report) := by
  intro one other
  have hnames : ∀ e ∈ Sample.genericSpace.elements, e.names ⊆ Sample.genericNames.reserved :=
    fun e he => Compilation.names_reserved (List.mem_singleton_self _) he {}
  have hnames' : ∀ e ∈ Sample.genericSpace.elements, e.names ⊆ Sample.otherNames.reserved :=
    fun e he => List.subset_cons_of_subset _ (hnames e he)
  have howners : ∀ e ∈ Sample.genericSpace.elements, ∀ q ∈ e.origins ++ e.parents,
      q ∉ one.targets := by decide +kernel
  have hprimitives : ∀ o, (Primitives.standard.forOutcome o).name ∉ one.targets := by
    intro o
    cases o <;> decide +kernel
  obtain ⟨-, -, -, hresult⟩ := Namespace.lower_renamed .standard Sample.genericSpace
    Sample.genericNames Sample.otherNames hnames hnames' (by decide +kernel) (by decide +kernel) howners
    hprimitives
  exact ⟨by decide +kernel, by decide +kernel, hresult⟩

end OutcomeControl
