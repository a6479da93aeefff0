import OutcomeControl.Proofs.Simulation

/-! Bodies that keep to what they are given.

Where evaluation keeps to the callables of `A`, a body that names callables of `A` only, and is run
on values that give access to callables of `A` only, calls nothing else and hands nothing else on.
`Tracking.confined` says so as a comparison of a body with itself, and `Scope.meets_of_mentions` finds
what a comparison asks of a body in the names that it mentions. -/

namespace OutcomeControl

/-- Callee and argument have to do with callables of `A` only. -/
def Values.Clean {V S : Type} (E : Values V) (A : QualifiedName → Prop) (k : Call V S) : Prop :=
  A k.callee ∧ E.Within A k.argument

namespace Values
variable {V S : Type} {E : Values V} {A : QualifiedName → Prop}

theorem within_pack {vs : List V} (h : ∀ v ∈ vs, E.Within A v) : E.Within A (E.pack vs) := by
  intro q hq
  obtain ⟨v, hv, hq⟩ := E.reaches_pack vs q hq
  exact h v hv q hq

theorem within_unit : E.Within A E.unit := within_pack fun v hv => (by cases hv)

/-- The items of a tuple give access to nothing more than the tuple. -/
theorem Within.of_pack {vs : List V} (h : E.Within A (E.pack vs)) : ∀ v ∈ vs, E.Within A v :=
  fun v hv q hq => h q (E.reaches_spread _ _ vs q (E.spread_pack vs) ⟨v, hv, hq⟩)

theorem Within.of_callable {q : QualifiedName} (h : E.Within A (E.callable q)) : A q :=
  h q (E.reaches_callable q)

theorem Guarded.forall {M N : Call V S → Prop}
    (htransfer : ∀ k, M k → E.Clean A k → N k ∧ E.Within A (answer k)) :
    {calls : List (Call V S)} → E.Guarded A calls → (∀ k ∈ calls, M k) →
      ∀ k ∈ calls, N k ∧ E.Within A (answer k)
  | [], _, _ => fun _ hk => (by cases hk)
  | c :: _, h, hcalls => by
    obtain ⟨hM, hcalls⟩ := List.forall_mem_cons.mp hcalls
    have hc := htransfer c hM ⟨h.1, h.2.1⟩
    exact List.forall_mem_cons.mpr ⟨hc, Guarded.forall htransfer (h.2.2 hc.2) hcalls⟩

end Values

section
variable {V S : Type} {A : QualifiedName → Prop} {M N : Call V S → Prop}

/-- What keeps to `A` does the same with other answers, if clean calls are answered so as well. -/
theorem Behaviour.Sim.of_confines {α : Type} {E : Values V} {P : α → Prop} {x : Behaviour V S α}
    (htransfer : ∀ k, M k → E.Clean A k → N k ∧ E.Within A (Values.answer k))
    (h : E.Confines A P x) : Sim ⟨M, N, E.Within A⟩ (fun a b => a = b ∧ P a) x x := by
  intro s calls r s' hx hcalls
  obtain ⟨hguarded, hresult⟩ := h s calls r s' hx
  have hall := hguarded.forall htransfer hcalls
  have hr := hresult fun k hk => (hall k hk).2
  refine ⟨calls, r, hx, fun k hk => (hall k hk).1, ?_⟩
  cases r with
  | ok a => exact ⟨rfl, hr⟩
  | error v => exact ⟨rfl, hr⟩

theorem Values.within_answer {E : Values V} {k : Call V S} {r : Except V V}
    (h : Passage.ResultRel ⟨M, N, E.Within A⟩ (fun v w => v = w ∧ E.Within A v) k.result r) :
    E.Within A (answer k) := by
  obtain ⟨callee, argument, before, result, after⟩ := k
  cases result <;> cases r <;> first | exact h.2 | exact h.elim

/-! ### Values in environments -/

namespace Env
variable {P : V → Prop}

theorem mem_of_get {env : Env V} {n : String} {v : V} (h : env.get n = some v) : (n, v) ∈ env := by
  induction env with
  | nil => cases h
  | cons b env ih =>
    rw [get] at h
    split at h
    case isTrue hb =>
      obtain rfl := Option.some.inj h
      exact hb ▸ List.mem_cons_self ..
    case isFalse => exact List.mem_cons_of_mem _ (ih h)

theorem forall_set {env : Env V} {n : String} {v : V} (hv : P v) (h : ∀ b ∈ env, P b.2) :
    ∀ b ∈ env.set n v, P b.2 := by
  induction env with
  | nil => exact h
  | cons b env ih =>
    obtain ⟨hb, h⟩ := List.forall_mem_cons.mp h
    rw [set]
    split
    · exact List.forall_mem_cons.mpr ⟨hv, h⟩
    · exact List.forall_mem_cons.mpr ⟨hb, ih h⟩

theorem forall_setAll {env bindings : Env V} (hbindings : ∀ b ∈ bindings, P b.2)
    (h : ∀ b ∈ env, P b.2) : ∀ b ∈ env.setAll bindings, P b.2 := by
  unfold setAll
  induction bindings generalizing env with
  | nil => exact h
  | cons b bindings ih =>
    obtain ⟨hb, hbindings⟩ := List.forall_mem_cons.mp hbindings
    exact ih hbindings (forall_set hb h)

end Env

/-! ### Confined bodies -/

/-- The same body on both sides, on values that give access to callables of `A` only. -/
def Tracking.confined {E : Evaluator V S} (hE : E.KeepsTo A)
    (htransfer : ∀ k, M k → E.Clean A k → N k ∧ E.Within A (Values.answer k)) : Tracking E where
  before := M
  after := N
  good := E.Within A
  Rel _ env env' := env = env' ∧ ∀ b ∈ env, E.Within A b.2
  expr e := ∀ q, .ofCallable q ∈ e.identifiers → A q
  symbols _ := True
  eval h he := h.1 ▸ .of_confines htransfer (hE.eval _ _ he fun _ _ _ hv =>
    h.2 _ (Env.mem_of_get hv))
  push h _ hbindings := ⟨by rw [h.1], List.forall_mem_append.mpr ⟨hbindings, h.2⟩⟩
  update h _ hv hbind := ⟨by rw [h.1], Env.forall_setAll (SymbolTuple.forall_bind E.toValues
    (fun n v vs hv hvs w hw q hq => hv q (E.reaches_spread n v vs q hvs ⟨w, hw, hq⟩)) _ hv hbind) h.2⟩
  leave h hinner _ _ := ⟨by rw [h.1, hinner.1], fun b hb => hinner.2 b (List.mem_of_mem_drop hb)⟩
  spread n v vs hv hvs w hw q hq := hv q (E.reaches_spread n v vs q hvs ⟨w, hw, hq⟩)
  elements v vs hv hvs := hE.elements v vs hvs hv
  acquire kind init sizes hsizes := .of_confines htransfer (hE.acquire kind init sizes hsizes)
  release kind v hv := (Behaviour.Sim.of_confines htransfer (hE.release kind v hv)).mono
    fun _ _ _ => trivial

variable {E : Evaluator V S} {hE : E.KeepsTo A}
  {htransfer : ∀ k, M k → E.Clean A k → N k ∧ E.Within A (Values.answer k)}

theorem Evaluator.invoke_confined {params : Params} {scope : Scope} {visible : List String} {a : V}
    (hscope : scope.Meets (Tracking.confined hE htransfer).rules visible) (ha : E.Within A a) :
    Behaviour.Sim ⟨M, N, E.Within A⟩ (fun v w => v = w ∧ E.Within A v) (E.invoke params scope a)
      (E.invoke params scope a) := by
  have hspread := (Tracking.confined hE htransfer).spread
  refine Behaviour.Sim.bind (R := fun bs cs => bs = cs ∧ ∀ b ∈ bs, E.Within A b.2)
    (.ofOption fun bs hbs => ⟨rfl, SymbolTuple.forall_bind E.toValues hspread _ ha hbs⟩)
    fun env env' henv => ?_
  refine (scope.keeps (Tracking.confined hE htransfer) hscope env env' henv).bind fun flow flow' h => ?_
  exact .follow h (fun _ _ _ => .pure ⟨rfl, Values.within_unit⟩) fun v w hvw => hvw

theorem Evaluator.applyIf_confines (o : Outcome) {a : V} (ha : E.Within A a) :
    E.Confines A (E.Within A) (E.applyIf o a : Behaviour V S V) := by
  rintro s calls r s' ⟨found, q, b, rfl, h⟩
  have hpair := ha.of_pack _ (List.mem_cons_of_mem _ (List.mem_singleton_self _))
  have hq := (hpair.of_pack _ (List.mem_cons_self ..)).of_callable
  have hb := hpair.of_pack _ (List.mem_cons_of_mem _ (List.mem_singleton_self _))
  split at h
  · obtain rfl := h
    refine ⟨⟨hq, hb, fun _ => trivial⟩, fun hanswer => ?_⟩
    have hr := hanswer _ (List.mem_singleton_self _)
    cases r <;> exact hr
  · obtain ⟨rfl, rfl, rfl⟩ := h
    exact ⟨trivial, fun _ => Values.within_unit⟩

end

/-! ### What a body mentions -/

/-- The name in an identifier, without its namespace. -/
def Identifier.name? : Identifier → Option String
  | .ofVariable n => some n
  | .ofCallable q => some q.name
  | .invalid => none

mutual
theorem Expr.mentions_of_mem {id : Identifier} {n : String} (hn : id.name? = some n) :
    (e : Expr) → id ∈ e.identifiers → e.Mentions n
  | ⟨.name (.ofVariable _) _, _⟩, h => by
    obtain rfl := List.mem_singleton.mp h
    obtain rfl := Option.some.inj hn
    exact .ofVariable
  | ⟨.name (.ofCallable _) _, _⟩, h => by
    obtain rfl := List.mem_singleton.mp h
    exact .ofCallable (Option.some.inj hn)
  | ⟨.name .invalid _, _⟩, h => by
    obtain rfl := List.mem_singleton.mp h
    cases hn
  | ⟨.tuple items, _⟩, h | ⟨.array items, _⟩, h =>
    have ⟨f, hf, hmentions⟩ := Expr.exists_mentions_of_mem hn items h
    .part (f := f) hf hmentions
  | ⟨.unary _ operand, _⟩, h =>
    .part (f := operand) (List.mem_cons_self ..) (operand.mentions_of_mem hn h)
  | ⟨.binary _ lhs rhs, _⟩, h => (List.mem_append.mp h).elim
      (fun h => .part (f := lhs) (List.mem_cons_self ..) (lhs.mentions_of_mem hn h))
      (fun h => .part (f := rhs) (by simp [ExprKind.parts]) (rhs.mentions_of_mem hn h))
  | ⟨.item array index, _⟩, h => (List.mem_append.mp h).elim
      (fun h => .part (f := array) (List.mem_cons_self ..) (array.mentions_of_mem hn h))
      (fun h => .part (f := index) (by simp [ExprKind.parts]) (index.mentions_of_mem hn h))
  | ⟨.call callee argument, _⟩, h => (List.mem_append.mp h).elim
      (fun h => .part (f := callee) (List.mem_cons_self ..) (callee.mentions_of_mem hn h))
      (fun h => .part (f := argument) (by simp [ExprKind.parts]) (argument.mentions_of_mem hn h))
  | ⟨.choice condition yes no, _⟩, h => (List.mem_append.mp h).elim
      (fun h => .part (f := condition) (List.mem_cons_self ..) (condition.mentions_of_mem hn h))
      (fun h => (List.mem_append.mp h).elim
        (fun h => .part (f := yes) (by simp [ExprKind.parts]) (yes.mentions_of_mem hn h))
        (fun h => .part (f := no) (by simp [ExprKind.parts]) (no.mentions_of_mem hn h)))
theorem Expr.exists_mentions_of_mem {id : Identifier} {n : String} (hn : id.name? = some n) :
    (es : List Expr) → id ∈ Expr.identifiersList es → ∃ e ∈ es, e.Mentions n
  | e :: es, h => (List.mem_append.mp h).elim
      (fun h => ⟨e, List.mem_cons_self .., e.mentions_of_mem hn h⟩)
      (fun h => have ⟨f, hf, hmentions⟩ := Expr.exists_mentions_of_mem hn es h
        ⟨f, List.mem_cons_of_mem _ hf, hmentions⟩)
end

/-- Rules that are met wherever only names with the property `P` are mentioned. -/
structure Rules.Allows (R : Rules) (P : String → Prop) : Prop where
  scope : ∀ visible s, (∀ v ∈ s.known, P v.name) → R.scope visible s
  expr : ∀ visible e, (∀ n, e.Mentions n → P n) → R.expr visible e
  symbols : ∀ names, (∀ n ∈ names, P n) → R.symbols names

/-- A statement mentions names with the property `P` only, in its blocks as well. -/
structure StatementKind.Only (P : String → Prop) (k : StatementKind) : Prop where
  symbols : ∀ n ∈ k.symbols, P n
  expressions : ∀ e ∈ k.expressions, ∀ n, e.Mentions n → P n
  scopes : ∀ s ∈ k.scopes, ∀ n, s.Mentions n → P n

theorem Branches.body_mem_scopes {block : Block} :
    {b : Branches} → block ∈ b.blocks → block.body ∈ (StatementKind.conditional b).scopes
  | .otherwise _, h => by
    obtain rfl := List.mem_singleton.mp h
    exact List.mem_singleton_self _
  | .arm _ _ rest, h => by
    obtain rfl | h := List.mem_cons.mp h
    · exact List.mem_cons_self ..
    · exact List.mem_cons_of_mem _ (Branches.body_mem_scopes (b := rest) h)

section
variable {R : Rules} {P : String → Prop}

mutual
theorem Statement.meets_of_only (h : R.Allows P) :
    (s : Statement) → s.kind.Only P → (visible : List String) → s.Meets R visible
  | ⟨.expression e, _⟩, hs, visible | ⟨.returns e, _⟩, hs, visible | ⟨.fails e, _⟩, hs, visible =>
    h.expr visible e (hs.expressions e (List.mem_singleton_self _))
  | ⟨.binding b, _⟩, hs, visible =>
    ⟨h.expr visible b.rhs (hs.expressions b.rhs (List.mem_singleton_self _)), h.symbols _ hs.symbols⟩
  | ⟨.update lhs rhs, _⟩, hs, visible =>
    ⟨h.expr visible lhs (hs.expressions lhs (List.mem_cons_self ..)),
      h.expr visible rhs (hs.expressions rhs (List.mem_cons_of_mem _ (List.mem_singleton_self _)))⟩
  | ⟨.conditional branches, _⟩, hs, visible => branches.meets_of_only h
      (fun arm harm => hs.expressions arm.1 (List.mem_map_of_mem harm))
      (fun block hblock => hs.scopes block.body (Branches.body_mem_scopes hblock)) visible
  | ⟨.forEach _ _ iterable body, _⟩, hs, visible =>
    ⟨h.expr visible iterable (hs.expressions iterable (List.mem_singleton_self _)),
      h.symbols _ hs.symbols, body.meets_of_mentions h (hs.scopes body (List.mem_singleton_self _)) _⟩
  | ⟨.whileLoop condition body, _⟩, hs, visible =>
    ⟨h.expr visible condition (hs.expressions condition (List.mem_singleton_self _)),
      body.meets_of_mentions h (hs.scopes body (List.mem_singleton_self _)) _⟩
  | ⟨.repeatUntil block success fixup, _⟩, hs, visible =>
    ⟨block.meets_of_mentions h (hs.scopes block.body (List.mem_cons_self ..)) visible,
      h.expr _ success (hs.expressions success (List.mem_singleton_self _)),
      fixup.meets_of_mentions h
        (hs.scopes fixup.body (List.mem_cons_of_mem _ (List.mem_singleton_self _))) _⟩
  | ⟨.qubits _ _ body, _⟩, hs, visible =>
    ⟨fun size hsize => h.expr visible size (hs.expressions size hsize), h.symbols _ hs.symbols,
      body.meets_of_mentions h (hs.scopes body (List.mem_singleton_self _)) _⟩
theorem Branches.meets_of_only (h : R.Allows P) :
    (b : Branches) → (∀ arm ∈ b.arms, ∀ n, arm.1.Mentions n → P n) →
    (∀ block ∈ b.blocks, ∀ n, block.body.Mentions n → P n) → (visible : List String) →
    b.Meets R visible
  | .done, _, _, _ => trivial
  | .otherwise block, _, hblocks, visible =>
    block.meets_of_mentions h (hblocks block (List.mem_singleton_self _)) visible
  | .arm condition block rest, harms, hblocks, visible =>
    ⟨h.expr visible condition (harms (condition, block) (List.mem_cons_self ..)),
      block.meets_of_mentions h (hblocks block (List.mem_cons_self ..)) visible,
      rest.meets_of_only h (fun arm harm => harms arm (List.mem_cons_of_mem _ harm))
        (fun other hother => hblocks other (List.mem_cons_of_mem _ hother)) visible⟩
theorem Block.meets_of_mentions (h : R.Allows P) : (b : Block) → (∀ n, b.body.Mentions n → P n) →
    (visible : List String) → b.Meets R visible
  | ⟨body, _, _⟩, hbody, visible => body.meets_of_mentions h hbody visible
/-- A body meets the rules if all that it mentions is allowed. -/
theorem Scope.meets_of_mentions (h : R.Allows P) : (s : Scope) → (∀ n, s.Mentions n → P n) →
    (visible : List String) → s.Meets R visible
  | ⟨statements, _⟩, hs, visible =>
    ⟨h.scope visible _ fun v hv => hs v.name (.known hv (.inl rfl)),
      Statement.meetsList_of_only h statements (fun _ ht =>
        ⟨fun n hn => hs n (.symbol ht hn), fun _ he n hn => hs n (.expression ht he hn),
          fun _ hu n hn => hs n (.inner ht hu hn)⟩) visible⟩
theorem Statement.meetsList_of_only (h : R.Allows P) :
    (ss : List Statement) → (∀ s ∈ ss, s.kind.Only P) → (visible : List String) → Statement.MeetsList R ss visible
  | [], _, _ => trivial
  | s :: ss, hss, visible => ⟨s.meets_of_only h (hss s (List.mem_cons_self ..)) visible,
      Statement.meetsList_of_only h ss (fun t ht => hss t (List.mem_cons_of_mem _ ht)) _⟩
end

end

end OutcomeControl
