import OutcomeControl.Proofs.Hiding

/-! A lowered body does what the body did.

The two are compared under a set `N` of answered calls in which the primitives and the new
operations are answered as their definitions say (`Linked`). What takes the place of a single
conditional is dealt with first (`conclude_replaces`); `Scope.lower_mirrors` is the statement for
whole bodies. -/

namespace OutcomeControl

/-! ### Blocks of calls -/

mutual
theorem Expr.bare_mapParameters (f : TypeParameter → TypeParameter) :
    (e : Expr) → (e.mapParameters f).bare = e.bare
  | ⟨kind, _⟩ => by rw [Expr.mapParameters, Expr.bare, Expr.bare, kind.bare_mapParameters f]
theorem ExprKind.bare_mapParameters (f : TypeParameter → TypeParameter) :
    (k : ExprKind) → (k.mapParameters f).bare = k.bare
  | .tuple items | .array items => by
    rw [ExprKind.mapParameters, ExprKind.bare, ExprKind.bare, Expr.bareList_mapParameters f items]
  | .unary _ operand => by
    rw [ExprKind.mapParameters, ExprKind.bare, ExprKind.bare, operand.bare_mapParameters f]
  | .binary _ lhs rhs => by
    rw [ExprKind.mapParameters, ExprKind.bare, ExprKind.bare, lhs.bare_mapParameters f,
      rhs.bare_mapParameters f]
  | .item array index => by
    rw [ExprKind.mapParameters, ExprKind.bare, ExprKind.bare, array.bare_mapParameters f,
      index.bare_mapParameters f]
  | .choice condition yes no => by
    rw [ExprKind.mapParameters, ExprKind.bare, ExprKind.bare, condition.bare_mapParameters f,
      yes.bare_mapParameters f, no.bare_mapParameters f]
  | .call callee argument => by
    rw [ExprKind.mapParameters, ExprKind.bare, ExprKind.bare, callee.bare_mapParameters f,
      argument.bare_mapParameters f]
  | .name _ _ | .unit | .int _ | .double _ | .bool _ | .string _ | .outcome _ => rfl
  | .missing | .invalid => rfl
theorem Expr.bareList_mapParameters (f : TypeParameter → TypeParameter) :
    (es : List Expr) → Expr.bareList (Expr.mapParametersList f es) = Expr.bareList es
  | [] => rfl
  | e :: es => by
    rw [Expr.mapParametersList, Expr.bareList, Expr.bareList, e.bare_mapParameters f,
      Expr.bareList_mapParameters f es]
end

section
variable {V S : Type} (E : Evaluator V S)

/-- Evaluates expressions in a row for their effects. -/
def Evaluator.evalAll (f : String → Option V) : List Expr → Behaviour V S Unit
  | [] => pure ()
  | e :: es => E.eval f e >>= fun _ => evalAll f es

theorem Evaluator.evalAll_congr {f g : String → Option V} {es : List Expr}
    (h : ∀ e ∈ es, ∀ n, .ofVariable n ∈ e.identifiers → f n = g n) :
    E.evalAll f es = E.evalAll g es := by
  induction es with
  | nil => rfl
  | cons e es ih =>
    obtain ⟨he, hes⟩ := List.forall_mem_cons.mp h
    rw [evalAll, evalAll, E.eval_locals f g e he, ih hes]

/-- The expressions of statements that are all calls. -/
def Statement.calls (ss : List Statement) : List Expr := ss.flatMap (·.kind.expressions)

theorem Statement.runList_of_calls {ss : List Statement} (h : ss.all Statement.isUnitCall = true)
    (env : Env V) :
    Statement.runList E ss env = E.evalAll env.get (Statement.calls ss) >>= fun _ =>
      pure (.next env) := by
  induction ss with
  | nil => exact (Behaviour.pure_bind_eq () fun _ => pure (Flow.next env)).symm
  | cons s ss ih =>
    simp only [List.all_cons, Bool.and_eq_true] at h
    obtain ⟨callee, argument, info, hkind⟩ := Statement.of_isUnitCall h.1
    obtain ⟨kind, sinfo⟩ := s
    obtain rfl : kind = _ := hkind
    rw [Statement.runList, Statement.run, bind_assoc]
    simp only [pure_bind, Flow.follow, ih h.2]
    exact (bind_assoc ..).symm

theorem Statement.evalAll_mapParameters {ss : List Statement}
    (h : ss.all Statement.isUnitCall = true) (f : String → Option V)
    (φ : TypeParameter → TypeParameter) :
    E.evalAll f (Statement.calls (Statement.mapParametersList φ ss)) =
      E.evalAll f (Statement.calls ss) := by
  induction ss with
  | nil => rfl
  | cons s ss ih =>
    simp only [List.all_cons, Bool.and_eq_true] at h
    obtain ⟨callee, argument, info, hkind⟩ := Statement.of_isUnitCall h.1
    obtain ⟨kind, sinfo⟩ := s
    obtain rfl : kind = _ := hkind
    change (E.eval f (Expr.mapParameters φ _) >>= fun _ =>
        E.evalAll f (Statement.calls (Statement.mapParametersList φ ss))) =
      (E.eval f _ >>= fun _ => E.evalAll f (Statement.calls ss))
    rw [ih h.2, ← E.eval_bare f (Expr.mapParameters φ _), Expr.bare_mapParameters, E.eval_bare]

/-- A block of calls leaves the environment as it is. -/
theorem Block.within_of_calls {b : Block} (h : b.body.isCallSequence = true) (env : Env V) :
    Behaviour.within env (b.run E env) =
      E.evalAll env.get (Statement.calls b.body.statements) >>= fun _ => pure (.next env) := by
  obtain ⟨⟨statements, known⟩, location, comments⟩ := b
  change Flow.mapEnv env.leave <$> Statement.runList E statements env = _
  rw [Statement.runList_of_calls E h, map_bind]
  simp only [map_pure, Flow.mapEnv, Env.leave, Nat.sub_self, List.drop_zero]

/-! ### Captured variables -/

theorem Params.patterns_captured (φ : TypeParameter → TypeParameter) (known : List Variable) :
    Params.patterns (Params.mapParametersList φ (known.map Variable.toParams)) =
      known.map fun v => .name v.name := by
  induction known with
  | nil => rfl
  | cons v vs ih => exact congrArg (SymbolTuple.name v.name :: ·) ih

theorem SymbolTuple.bindList_names (values : String → V) (ns : List String) :
    SymbolTuple.bindList E.toValues (ns.map SymbolTuple.name) (ns.map values) =
      some (ns.map fun n => (n, values n)) := by
  induction ns with
  | nil => rfl
  | cons n ns ih =>
    rw [List.map_cons, List.map_cons, SymbolTuple.bindList, ih]
    rfl

/-- The captured values are bound to the names they were captured from. -/
theorem Params.bind_captured (φ : TypeParameter → TypeParameter) (known : List Variable)
    (values : String → V) :
    ((Params.tuple (known.map Variable.toParams)).mapParameters φ).pattern.bind E.toValues
        (E.pack ((known.map (·.name)).map values)) =
      some ((known.map (·.name)).map fun n => (n, values n)) := by
  change SymbolTuple.bind E.toValues (.tuple (Params.patterns
    (Params.mapParametersList φ (known.map Variable.toParams)))) _ = _
  rw [Params.patterns_captured, show known.map (fun v => SymbolTuple.name v.name) =
    (known.map (·.name)).map SymbolTuple.name by rw [List.map_map]; rfl, SymbolTuple.bind]
  have hlength : ((known.map (·.name)).map SymbolTuple.name).length =
      ((known.map (·.name)).map values).length := by simp
  rw [hlength, E.spread_pack]
  exact SymbolTuple.bindList_names E values _

theorem Evaluator.eval_capturedValues (f : String → Option V) (known : List Variable)
    (values : String → V) (h : ∀ v ∈ known, f v.name = some (values v.name)) :
    E.eval f (capturedValues known) = pure (E.pack ((known.map (·.name)).map values)) := by
  have hitems : ∀ vs : List Variable, (∀ v ∈ vs, f v.name = some (values v.name)) →
      (vs.map fun v => Expr.localName v.name v.ty).mapM (E.eval f) =
        pure ((vs.map (·.name)).map values) := by
    intro vs hvs
    induction vs with
    | nil => rfl
    | cons v vs ih =>
      obtain ⟨hv, hvs⟩ := List.forall_mem_cons.mp hvs
      have hname : E.eval f (.localName v.name v.ty) = pure (values v.name) := by
        rw [Expr.localName, Expr.plain, E.eval_name, Values.read, hv]
        rfl
      rw [List.map_cons, List.mapM_cons, hname, pure_bind, ih hvs, pure_bind]
      rfl
  cases known with
  | nil => exact E.eval_unit f _
  | cons v vs =>
    rw [capturedValues, Expr.tuple, Expr.plain, E.eval_tuple, hitems (v :: vs) h, map_pure]
    exact fun h => by cases h

/-! ### A test and what takes its place -/

theorem Values.pack_injective {V : Type} (E : Values V) {vs ws : List V}
    (h : E.pack vs = E.pack ws) (hlength : vs.length = ws.length) : vs = ws := by
  have hspread := E.spread_pack vs
  rw [h, hlength, E.spread_pack] at hspread
  exact (Option.some.inj hspread).symm

/-- One of two behaviours, by the outcome that a value is. -/
def Evaluator.onOutcome {α : Type} (o : Outcome) (v : V) (x y : Behaviour V S α) : Behaviour V S α :=
  Behaviour.inverse E.outcome v >>= fun found => if found = o then x else y

theorem Evaluator.applyIf_pack (o : Outcome) (v : V) (q : QualifiedName) (b : V) :
    E.applyIf o (E.pack [v, E.pack [E.callable q, b]]) =
      E.onOutcome o v (Behaviour.call q b) (pure E.unit) := by
  refine Behaviour.ext fun s calls r s' => ⟨?_, ?_⟩
  · rintro ⟨found, q', b', heq, h⟩
    have houter := E.pack_injective heq rfl
    simp only [List.cons.injEq, and_true] at houter
    have hinner := E.pack_injective houter.2 rfl
    simp only [List.cons.injEq, and_true] at hinner
    obtain rfl := E.callable_injective _ _ hinner.1
    obtain rfl := hinner.2
    exact .inl ⟨found, [], s, calls, ⟨found, houter.1, rfl, rfl, rfl⟩, h, rfl⟩
  · rintro (⟨found, first, middle, later, ⟨a, rfl, rfl, ha, rfl⟩, h, rfl⟩ | ⟨w, ⟨a, -, -, ha, -⟩, -⟩)
    · cases ha
      exact ⟨found, q, b, rfl, h⟩
    · cases ha

theorem Evaluator.onOutcome_bind {α β : Type} (o : Outcome) (v : V) (x y : Behaviour V S α)
    (f : α → Behaviour V S β) :
    E.onOutcome o v x y >>= f = E.onOutcome o v (x >>= f) (y >>= f) := by
  rw [onOutcome, onOutcome, bind_assoc]
  congr 1
  funext found
  split <;> rfl

theorem Behaviour.Equiv.onOutcome {α : Type} {N : Call V S → Prop} (o : Outcome) (v : V)
    {x x' y y' : Behaviour V S α} (hx : Equiv N x x') (hy : Equiv N y y') :
    Equiv N (E.onOutcome o v x y) (E.onOutcome o v x' y') := by
  refine (Behaviour.Equiv.of_eq rfl).bind fun found => ?_
  split
  · exact hx
  · exact hy

/-- Two tests of one value, the second for the other outcome, are one test. -/
theorem Evaluator.onOutcome_opposite {α : Type} (o : Outcome) (v : V) (x y : Behaviour V S Unit)
    (k : Behaviour V S α) :
    (E.onOutcome o v x (pure ()) >>= fun _ => E.onOutcome o.opposite v y (pure ()) >>= fun _ => k) =
      E.onOutcome o v x y >>= fun _ => k := by
  by_cases hv : ∃ found, v = E.outcome found
  · obtain ⟨found, rfl⟩ := hv
    simp only [onOutcome, Behaviour.inverse_apply E.outcome_injective, pure_bind]
    cases o <;> cases found <;> simp [Outcome.opposite]
  · simp only [onOutcome, Behaviour.inverse_of_ne (not_exists.mp hv), Behaviour.stuck_bind]

theorem Evaluator.eval_controlCall (f : String → Option V) (p : Primitive) {condition : Expr}
    (target : Target) (known : List Variable) (frame : Frame) {v : V} {values : String → V}
    (hcondition : E.eval f condition = pure v)
    (hknown : ∀ w ∈ known, f w.name = some (values w.name)) :
    E.eval f (p.controlCall condition target known frame) =
      Behaviour.call p.name (E.pack [v, E.pack [E.callable target.name,
        E.pack ((known.map (·.name)).map values)]]) := by
  have htarget : E.eval f (target.reference frame) = pure (E.callable target.name) :=
    E.eval_name f (.ofCallable target.name) _ _
  have hinner : E.eval f (.tuple [target.reference frame, capturedValues known]) =
      pure (E.pack [E.callable target.name, E.pack ((known.map (·.name)).map values)]) := by
    rw [Expr.tuple, Expr.plain, E.eval_tuple]
    simp [htarget, E.eval_capturedValues f known values hknown]
  have hargument : E.eval f (.tuple [condition, .tuple [target.reference frame, capturedValues known]]) =
      pure (E.pack [v, E.pack [E.callable target.name, E.pack ((known.map (·.name)).map values)]]) := by
    rw [Expr.tuple, Expr.plain, E.eval_tuple]
    simp [hcondition, hinner]
  rw [show E.eval f (p.controlCall condition target known frame) = _ from E.eval_call f p.name none _
    (.tuple [condition, .tuple [target.reference frame, capturedValues known]]) _, hargument, pure_bind]

/-- Calls of an operation, and of a primitive with the operation, are answered in `N` as the
definitions say. -/
structure Linked (primitives : Primitives) (N : Call V S → Prop) (op : Callable) : Prop where
  applyIf : ∀ o v b, Behaviour.Equiv N
    (.call (primitives.forOutcome o).name (E.pack [v, E.pack [E.callable op.name, b]]))
    (E.applyIf o (E.pack [v, E.pack [E.callable op.name, b]]))
  body : ∀ s ∈ op.specializations, ∀ params scope, s.implementation = .provided params scope →
    ∀ b, Behaviour.Equiv N (.call op.name b) (E.invoke params scope b)

/-- A block of calls that records what is visible and mentions no hidden variable. -/
structure Scope.Capturable (keep visible : List String) (s : Scope) : Prop where
  calls : s.isCallSequence = true
  known : ∀ n, n ∈ s.known.map (·.name) ↔ n ∈ visible
  kept : ∀ e ∈ Statement.calls s.statements, ∀ n, .ofVariable n ∈ e.identifiers → n ∈ keep

variable {keep visible : List String} {env env' : Env V}

/-- The value of a variable that has one. -/
def Evaluator.valueOf (env : Env V) (n : String) : V := (env.get n).getD E.unit

/-- Every recorded variable has a value, and the calls find the same values among the captured ones
as in the whole environment. -/
theorem Scope.Capturable.get_valueOf {body : Scope} (h : body.Capturable keep visible)
    (henv : Env.Hides keep visible env env') :
    (∀ w ∈ body.known, env'.get w.name = some (E.valueOf env' w.name)) ∧
      ∀ e ∈ Statement.calls body.statements, ∀ n, .ofVariable n ∈ e.identifiers →
        Env.get ((body.known.map (·.name)).map fun n => (n, E.valueOf env' n)) n = env'.get n := by
  have hvisible : ∀ n, n ∈ visible ↔ n ∈ keep ∧ ∃ v, env'.get n = some v := by
    intro n
    rw [← henv.2, henv.1, Env.names_hide, List.mem_filter, Env.mem_names_iff, and_comm,
      decide_eq_true_eq]
  refine ⟨fun w hw => ?_, fun e he n hn => ?_⟩
  · obtain ⟨-, v, hv⟩ := (hvisible _).mp ((h.known w.name).mp (List.mem_map_of_mem hw))
    rw [Evaluator.valueOf, hv, Option.getD_some]
  · rw [Env.get_map_names, Evaluator.valueOf]
    cases hget : env'.get n with
    | some v =>
      rw [if_pos ((h.known n).mpr ((hvisible n).mpr ⟨h.kept e he n hn, v, hget⟩)), Option.getD_some]
    | none =>
      refine if_neg fun hn' => ?_
      obtain ⟨-, v, hv⟩ := (hvisible n).mp ((h.known n).mp hn')
      exact Option.some_ne_none v (hv.symm.trans hget)

theorem Evaluator.invoke_operation {body : Scope} (hcalls : body.isCallSequence = true)
    (φ : TypeParameter → TypeParameter) (values : String → V) :
    E.invoke ((Params.tuple (body.known.map Variable.toParams)).mapParameters φ)
        (body.mapParameters φ) (E.pack ((body.known.map (·.name)).map values)) =
      E.evalAll (Env.get ((body.known.map (·.name)).map fun n => (n, values n)))
        (Statement.calls body.statements) >>= fun _ => pure E.unit := by
  obtain ⟨statements, known⟩ := body
  have hmapped : (Statement.mapParametersList φ statements).all Statement.isUnitCall = true :=
    Scope.isCallSequence_mapParameters φ ⟨statements, known⟩ hcalls
  rw [Evaluator.invoke, Params.bind_captured, Behaviour.ofOption, pure_bind]
  change (Statement.runList E (Statement.mapParametersList φ statements) _ >>= _) = _
  rw [Statement.runList_of_calls E hmapped, bind_assoc, Statement.evalAll_mapParameters E hcalls]
  simp only [pure_bind, Flow.follow]

variable {N : Call V S → Prop} (primitives : Primitives) (frame : Frame)

/-- The call that runs a block runs it when the condition has this outcome. -/
theorem applyBlock_equiv (s : Statement) (o : Outcome) {condition : Expr} {body : Scope}
    (p : Progress) (hbody : body.Capturable keep visible) (henv : Env.Hides keep visible env env')
    {v : V} (hcondition : E.eval env'.get condition = pure v)
    (hlinked : ∀ op ∈ ((applyBlock primitives frame s o condition body).run p).2.hoisted,
      Linked E primitives N op) :
    Behaviour.Equiv N (((applyBlock primitives frame s o condition body).run p).1.run E env')
      (E.onOutcome o v (E.evalAll env'.get (Statement.calls body.statements)) (pure ()) >>= fun _ =>
        pure (.next env')) := by
  obtain ⟨hknown, hlocals⟩ := hbody.get_valueOf E henv
  have hop := hlinked _ (List.mem_append_right _ (List.mem_singleton_self _))
  change Behaviour.Equiv N (E.eval env'.get
    ((primitives.forOutcome o).controlCall condition _ body.known frame) >>= fun _ =>
      pure (Flow.next env')) _
  rw [E.eval_controlCall _ _ _ _ _ hcondition hknown, ← E.evalAll_congr hlocals]
  have hcall := hop.body _ (List.mem_singleton_self _) _ _ rfl
    (E.pack ((body.known.map (·.name)).map (E.valueOf env')))
  rw [E.invoke_operation hbody.calls] at hcall
  refine ((hop.applyIf o v _).bind fun _ => .of_eq rfl).trans ?_
  rw [E.applyIf_pack, E.onOutcome_bind, E.onOutcome_bind]
  refine .onOutcome E o v ((hcall.bind fun _ => .of_eq rfl).trans (.of_eq ?_)) (.of_eq ?_)
  · simp only [bind_assoc, pure_bind]
  · simp only [pure_bind]

/-- The calls of the default block of a test. -/
def OutcomeTest.defaultCalls (t : OutcomeTest) : List Expr :=
  match t.default with
  | none => []
  | some body => Statement.calls body.statements

theorem Statement.runList_singleton (s : Statement) : Statement.runList E [s] = s.run E := by
  funext env
  have hfollow : Flow.follow (Statement.runList E []) Flow.returned =
      (pure : Flow V → Behaviour V S (Flow V)) := by
    funext flow
    cases flow <;> rfl
  rw [Statement.runList, hfollow, bind_pure]

theorem applyTest_equiv (s : Statement) {t : OutcomeTest} (p : Progress)
    (hbodies : ∀ b ∈ t.bodies, b.Capturable keep visible)
    (henv : Env.Hides keep visible env env') {v : V}
    (hcondition : E.eval env'.get t.condition = pure v)
    (hlinked : ∀ op ∈ ((applyTest primitives frame s t).run p).2.hoisted, Linked E primitives N op) :
    Behaviour.Equiv N (Statement.runList E ((applyTest primitives frame s t).run p).1 env')
      (E.onOutcome t.outcome v (E.evalAll env'.get (Statement.calls t.body.statements))
        (E.evalAll env'.get t.defaultCalls) >>= fun _ => pure (.next env')) := by
  obtain ⟨outcome, condition, body, default⟩ := t
  cases default with
  | none =>
    change Behaviour.Equiv N (Statement.runList E
      [((applyBlock primitives frame s outcome condition body).run p).1] env') _
    rw [Statement.runList_singleton]
    exact applyBlock_equiv E primitives frame s outcome p (hbodies body (List.mem_cons_self ..)) henv
      hcondition hlinked
  | some block =>
    let q := ((applyBlock primitives frame s outcome condition body).run p).2
    have hleads : q.Leads ((applyBlock primitives frame s outcome.opposite condition block).run q).2 :=
      hoist_leads frame block s.info.comments q
    have hyes := applyBlock_equiv E primitives frame s outcome p
      (hbodies body (List.mem_cons_self ..)) henv hcondition
      fun op hop => hlinked op (hleads.mem_hoisted hop)
    have hno := applyBlock_equiv E primitives frame s outcome.opposite q
      (hbodies block (List.mem_cons_of_mem _ (List.mem_singleton_self _))) henv hcondition hlinked
    change Behaviour.Equiv N
      (((applyBlock primitives frame s outcome condition body).run p).1.run E env' >>= Flow.follow (Statement.runList E
        [((applyBlock primitives frame s outcome.opposite condition block).run q).1]) .returned) _
    refine (hyes.bind fun flow => .of_eq rfl).trans ?_
    simp only [bind_assoc, pure_bind, Flow.follow, Statement.runList_singleton]
    have hboth := E.onOutcome_opposite outcome v
      (E.evalAll env'.get (Statement.calls body.statements))
      (E.evalAll env'.get (Statement.calls block.statements)) (pure (Flow.next env'))
    exact ((Behaviour.Equiv.of_eq rfl).bind fun _ => hno).trans (.of_eq hboth)

/-- A test of an outcome runs one of its blocks. -/
theorem Statement.run_of_outcomeTest {s : Statement} {t : OutcomeTest}
    (ht : s.outcomeTest? = some t) (hsep : t.isSeparable = true) (env : Env V) :
    s.run E env = E.eval env.get t.condition >>= fun v =>
      E.onOutcome t.outcome v (E.evalAll env.get (Statement.calls t.body.statements))
        (E.evalAll env.get t.defaultCalls) >>= fun _ => pure (.next env) := by
  obtain ⟨guard, block, rest, info, rfl, harms, hguard, hbody, hdefault⟩ :=
    Statement.of_outcomeTest ht
  simp only [OutcomeTest.isSeparable, Bool.and_eq_true] at hsep
  rw [hbody] at hsep ⊢
  have hrest : rest.run E env =
      E.evalAll env.get t.defaultCalls >>= fun _ => pure (.next env) := by
    cases rest with
    | done =>
      rw [OutcomeTest.defaultCalls, hdefault]
      exact (Behaviour.pure_bind_eq () fun _ => pure (Flow.next env)).symm
    | otherwise other =>
      rw [hdefault] at hsep
      rw [OutcomeTest.defaultCalls, hdefault]
      exact Block.within_of_calls E hsep.2 env
    | arm c b r => simp [Branches.arms] at harms
  change (E.holds env guard >>= fun x =>
    if x = true then Behaviour.within env (block.run E env) else rest.run E env) = _
  rw [Evaluator.holds, E.eval_test _ guard _ _ hguard, Block.within_of_calls E hsep.1, hrest]
  simp only [bind_assoc, pure_bind, Behaviour.inverse_apply E.bool_injective, decide_eq_true_eq,
    E.onOutcome_bind]
  rfl

/-! ### One conditional -/

theorem Evaluator.eval_controlCall_stuck (f : String → Option V) (p : Primitive) {condition : Expr}
    (target : Target) (known : List Variable) (h : E.eval f condition = .stuck) :
    E.eval f (p.controlCall condition target known frame) = .stuck := by
  rw [show E.eval f (p.controlCall condition target known frame) = _ from E.eval_call f p.name none _
    (.tuple [condition, .tuple [target.reference frame, capturedValues known]]) _, Expr.tuple,
    Expr.plain, E.eval_tuple, List.mapM_cons, h, Behaviour.stuck_bind, map_eq_pure_bind,
    Behaviour.stuck_bind, Behaviour.stuck_bind]

theorem applyTest_stuck (s : Statement) {t : OutcomeTest} (p : Progress)
    (h : E.eval env'.get t.condition = .stuck) :
    Statement.runList E ((applyTest primitives frame s t).run p).1 env' = .stuck := by
  obtain ⟨outcome, condition, body, default⟩ := t
  have hyes : ((applyBlock primitives frame s outcome condition body).run p).1.run E env' =
      .stuck := by
    change (E.eval env'.get ((primitives.forOutcome outcome).controlCall condition _ body.known frame)
      >>= fun _ => pure (Flow.next env')) = _
    rw [E.eval_controlCall_stuck frame _ _ _ _ h, Behaviour.stuck_bind]
  cases default with
  | none =>
    change Statement.runList E [((applyBlock primitives frame s outcome condition body).run p).1]
      env' = _
    rw [Statement.runList_singleton, hyes]
  | some block =>
    change (((applyBlock primitives frame s outcome condition body).run p).1.run E env' >>= _) = _
    rw [hyes, Behaviour.stuck_bind]

/-- If the statements are nothing but calls, they mention no hidden variable. -/
def Statement.CallsKept (keep : List String) (ss : List Statement) : Prop :=
  ss.all Statement.isUnitCall = true → ∀ e ∈ Statement.calls ss,
    ∀ n, .ofVariable n ∈ e.identifiers → n ∈ keep

theorem Statement.CallsKept.append {ss ts : List Statement} (hss : CallsKept keep ss)
    (hts : CallsKept keep ts) : CallsKept keep (ss ++ ts) := by
  intro h
  rw [List.all_append, Bool.and_eq_true] at h
  rw [Statement.calls, List.flatMap_append]
  exact List.forall_mem_append.mpr ⟨hss h.1, hts h.2⟩

theorem applyTest_kept (s : Statement) {t : OutcomeTest}
    (hknown : ∀ b ∈ t.bodies, ∀ v ∈ b.known, v.name ∈ keep)
    (hcondition : ∀ n, .ofVariable n ∈ t.condition.identifiers → n ∈ keep) (p : Progress) :
    ∀ e ∈ Statement.calls ((applyTest primitives frame s t).run p).1,
      ∀ n, .ofVariable n ∈ e.identifiers → n ∈ keep := by
  have hcall : ∀ b ∈ t.bodies, ∀ (q : Primitive) (target : Target) (n : String),
      .ofVariable n ∈ (q.controlCall t.condition target b.known frame).identifiers → n ∈ keep := by
    intro b hb q target n hn
    rw [Primitive.controlCall_identifiers] at hn
    simp only [List.mem_cons, List.mem_append, List.mem_map, reduceCtorEq, false_or] at hn
    obtain hn | ⟨v, hv, heq⟩ := hn
    · exact hcondition n hn
    · injection heq with heq
      exact heq ▸ hknown b hb v hv
  obtain ⟨outcome, condition, body, default⟩ := t
  have hyes := hcall body (List.mem_cons_self ..)
  cases default with
  | none => exact List.forall_mem_singleton.mpr (hyes _ _)
  | some block =>
    exact List.forall_mem_cons.mpr ⟨hyes _ _, List.forall_mem_singleton.mpr
      (hcall block (List.mem_cons_of_mem _ (List.mem_singleton_self _)) _ _)⟩

/-- What the blocks of a chain have to record and to mention, should they be blocks of calls. -/
structure Scope.Ready (keep visible : List String) (s : Scope) : Prop where
  known : ∀ n, n ∈ s.known.map (·.name) ↔ n ∈ visible
  captured : ∀ v ∈ s.known, v.name ∈ keep
  calls : Statement.CallsKept keep s.statements

/-- A chain whose blocks are ready. -/
structure Branches.Ready (keep visible : List String) (b : Branches) : Prop where
  blocks : ∀ block ∈ b.blocks, block.body.Ready keep visible
  guards : ∀ arm ∈ b.arms, ∀ n, .ofVariable n ∈ arm.1.identifiers → n ∈ keep

theorem Branches.Ready.of_outcomeTest {below : Branches} {info : StatementInfo} {t : OutcomeTest}
    (h : below.Ready keep visible)
    (ht : Statement.outcomeTest? ⟨.conditional below, info⟩ = some t) (hsep : t.isSeparable = true) :
    (∀ b ∈ t.bodies, b.Capturable keep visible ∧ ∀ v ∈ b.known, v.name ∈ keep) ∧
      ∀ n, .ofVariable n ∈ t.condition.identifiers → n ∈ keep := by
  obtain ⟨hbodies, arm, harm, hguard⟩ := Statement.of_separable ht hsep
  refine ⟨fun b hb => ?_, fun n hn => ?_⟩
  · obtain ⟨hcalls, block, hblock, rfl⟩ := hbodies b hb
    obtain ⟨hknown, hcaptured, hkept⟩ := h.blocks block hblock
    exact ⟨⟨hcalls, hknown, hkept hcalls⟩, hcaptured⟩
  · exact h.guards arm harm n (Expr.identifiers_of_outcomeComparison hguard hn)

/-- The supply avoids the names of `keep` and has not run out, and all that was made is linked. -/
structure Progress.Fits (keep : List String) (N : Call V S → Prop) (q : Progress) : Prop where
  reserved : q.names.reserved = keep
  issued : q.names.issued < 2 ^ 32
  linked : ∀ op ∈ q.hoisted, Linked E primitives N op

variable {E primitives}

theorem Progress.Fits.of_leads {p q : Progress} (h : q.Fits E primitives keep N) (hpq : p.Leads q) :
    p.Fits E primitives keep N :=
  ⟨hpq.reserved.symm.trans h.reserved, hpq.issued.trans_lt h.issued,
    fun op hop => h.linked op (hpq.mem_hoisted hop)⟩

/-- A test of a name is replaced by calls with this name. -/
theorem applyTest_replaces {s : Statement} {t : OutcomeTest} (ht : s.outcomeTest? = some t)
    (hsep : t.isSeparable = true) (hname : t.condition.isName = true) (p : Progress)
    (hbodies : ∀ b ∈ t.bodies, b.Capturable keep visible)
    (hfits : ((applyTest primitives frame s t).run p).2.Fits E primitives keep N) :
    Replaces keep N visible (s.run E)
      (Statement.runList E ((applyTest primitives frame s t).run p).1) := by
  refine .of_equiv fun env env' henv => ?_
  rw [Statement.run_of_outcomeTest E ht hsep]
  obtain ⟨id, arguments, info, hcondition⟩ : ∃ id arguments info,
      t.condition = ⟨.name id arguments, info⟩ := by
    obtain ⟨_, ⟨kind, info⟩, _, _⟩ := t
    cases kind with
    | name id arguments => exact ⟨id, arguments, info, rfl⟩
    | _ => cases hname
  have heval := E.eval_name env'.get id arguments info
  rw [← hcondition] at heval
  cases hread : E.read env'.get id with
  | none =>
    rw [hread] at heval
    rw [applyTest_stuck E primitives frame s p heval, heval]
    exact .of_eq (Behaviour.stuck_bind _)
  | some v =>
    rw [hread] at heval
    rw [show E.eval env'.get t.condition = pure v from heval, pure_bind]
    exact (applyTest_equiv E primitives frame s p hbodies henv heval hfits.linked).symm

/-- Where the condition is bound first, the calls see one more variable, which is hidden. -/
theorem bindCondition_replaces {s : Statement} {t : OutcomeTest} (ht : s.outcomeTest? = some t)
    (hsep : t.isSeparable = true) (p : Progress)
    (hbodies : ∀ b ∈ t.bodies, b.Capturable keep visible) :
    let bound := (bindCondition s t.condition).run p
    let calls := (applyTest primitives frame s { t with condition := bound.1.2 }).run bound.2
    calls.2.Fits E primitives keep N →
      Replaces keep N visible (s.run E) (Statement.runList E (bound.1.1 :: calls.1)) := by
  intro bound calls hfits env env' henv
  let name := p.names.freshVariable.1
  have hleads : bound.2.Leads calls.2 := applyTest_leads primitives frame s _ _
  have hfresh : name ∉ keep := by
    have hgives := (NameSupply.Draws.draw p.names.isNumbering_variableName
      (Nat.lt_add_left _ (hleads.issued.trans_lt hfits.issued))).free name (List.mem_singleton_self _)
    rwa [← hfits.reserved, hleads.reserved]
  have hgrown : ∀ v, Env.Grown keep env' ((name, v) :: env') := fun v =>
    ⟨[(name, v)], rfl, Env.hide_cons_of_notMem (b := (name, v)) hfresh []⟩
  -- The blocks do not mention the new variable.
  have hsame : ∀ v, ∀ b ∈ t.bodies,
      E.evalAll (Env.get ((name, v) :: env')) (Statement.calls b.statements) =
        E.evalAll env'.get (Statement.calls b.statements) := by
    refine fun v b hb => E.evalAll_congr fun e he n hn => ?_
    have hne : name ≠ n := fun heq => hfresh (heq ▸ (hbodies b hb).kept e he n hn)
    rw [Env.get, if_neg hne]
  have hsameDefault : ∀ v, E.evalAll (Env.get ((name, v) :: env')) t.defaultCalls =
      E.evalAll env'.get t.defaultCalls := by
    intro v
    unfold OutcomeTest.defaultCalls
    cases hdefault : t.default with
    | none => rfl
    | some b => exact hsame v b (List.mem_cons_of_mem _ (by simp [hdefault]))
  have hcalls : ∀ v, Behaviour.Equiv N (Statement.runList E calls.1 ((name, v) :: env'))
      (E.onOutcome t.outcome v (E.evalAll env'.get (Statement.calls t.body.statements))
        (E.evalAll env'.get t.defaultCalls) >>= fun _ => pure (.next ((name, v) :: env'))) := by
    intro v
    have hcondition : E.eval (Env.get ((name, v) :: env')) bound.1.2 = pure v := by
      refine (E.eval_name _ (.ofVariable name) none _).trans ?_
      rw [Values.read, Env.get, if_pos rfl]
      rfl
    rw [← hsame v t.body (List.mem_cons_self ..), ← hsameDefault v]
    exact applyTest_equiv E primitives frame s bound.2 (t := { t with condition := bound.1.2 })
      hbodies (henv.grow (hgrown v)) hcondition hfits.linked
  have hrun : Statement.runList E (bound.1.1 :: calls.1) env' =
      E.eval env'.get t.condition >>= fun v => Statement.runList E calls.1 ((name, v) :: env') := by
    change ((E.eval env'.get t.condition >>= fun v => pure [(name, v)] >>= fun bindings =>
      pure (Flow.next (bindings ++ env'))) >>= Flow.follow (Statement.runList E calls.1) .returned) = _
    simp only [bind_assoc, pure_bind, Flow.follow]
    rfl
  rw [Statement.run_of_outcomeTest E ht hsep, hrun]
  refine ⟨Behaviour.Sim.bind (.refl (R := Eq) (fun _ => rfl) _) fun v w hvw => ?_,
    Behaviour.Sim.bind (.refl (R := Eq) (fun _ => rfl) _) fun v w hvw => ?_⟩ <;> obtain rfl := hvw
  · refine Behaviour.Sim.trans_eq ?_ (hcalls v).2
    exact Behaviour.Sim.bind (.refl (R := Eq) (fun _ => rfl) _) fun _ _ _ => .pure (hgrown v)
  · refine (hcalls v).1.eq_trans ?_
    exact Behaviour.Sim.bind (.refl (R := Eq) (fun _ => rfl) _) fun _ _ _ => .pure (hgrown v)

/-- What takes the place of a conditional does what the conditional did. -/
theorem conclude_replaces {below : Branches} (info : StatementInfo)
    (hready : below.Ready keep visible) (p : Progress)
    (hfits : ((conclude primitives frame ⟨.conditional below, info⟩).run p).2.Fits E primitives
      keep N) :
    Replaces keep N visible (below.run E)
      (Statement.runList E ((conclude primitives frame ⟨.conditional below, info⟩).run p).1) := by
  change Replaces keep N visible (Statement.run E ⟨.conditional below, info⟩) _
  obtain ⟨event, -, heq, -⟩ | ⟨t, ht, hsep, hname, heq⟩ | ⟨t, ht, hsep, -, heq⟩ :=
    conclude_cases primitives frame ⟨.conditional below, info⟩ p
  · rw [heq]
    exact .of_equiv fun env env' _ => .of_eq (by rw [Statement.runList_singleton])
  · obtain ⟨hbodies, -⟩ := hready.of_outcomeTest ht hsep
    rw [heq] at hfits ⊢
    exact applyTest_replaces frame ht hsep hname p (fun b hb => (hbodies b hb).1) hfits
  · obtain ⟨hbodies, -⟩ := hready.of_outcomeTest ht hsep
    rw [heq] at hfits ⊢
    exact bindCondition_replaces frame ht hsep p (fun b hb => (hbodies b hb).1) hfits

/-- If nothing but calls takes the place of a conditional, they mention no hidden variable: its
condition was a name. -/
theorem conclude_kept {below : Branches} (info : StatementInfo) (hready : below.Ready keep visible)
    (p : Progress) :
    Statement.CallsKept keep ((conclude primitives frame ⟨.conditional below, info⟩).run p).1 := by
  intro hcalls
  obtain ⟨event, -, heq, -⟩ | ⟨t, ht, hsep, -, heq⟩ | ⟨t, -, -, -, heq⟩ :=
    conclude_cases primitives frame ⟨.conditional below, info⟩ p
  · rw [heq] at hcalls
    cases hcalls
  · obtain ⟨hbodies, hcondition⟩ := hready.of_outcomeTest ht hsep
    rw [heq]
    exact applyTest_kept primitives frame _ (fun b hb => (hbodies b hb).2) hcondition p
  · rw [heq] at hcalls
    cases hcalls

/-! ### Whole bodies -/

theorem Statement.runList_append (ss ts : List Statement) :
    Statement.runList E (ss ++ ts) = fun env =>
      Statement.runList E ss env >>= Flow.follow (Statement.runList E ts) .returned := by
  induction ss with
  | nil =>
    funext env
    rw [Statement.runList, pure_bind]
    rfl
  | cons s ss ih =>
    funext env
    rw [List.cons_append, Statement.runList, Statement.runList, bind_assoc, ih]
    congr 1
    funext flow
    cases flow with
    | next env => rfl
    | returned v => simp only [Flow.follow, pure_bind]

/-- A leaf is lowered to itself. -/
theorem Mirrors.leaf {kind : StatementKind} {info : StatementInfo} (hleaf : kind.IsLeaf)
    (hkept : Statement.Meets (.kept keep) ⟨kind, info⟩ visible) :
    Mirrors E keep N visible (Statement.introduces ⟨kind, info⟩ ++ visible)
      (Statement.run E ⟨kind, info⟩) (Statement.run E ⟨kind, info⟩) :=
  have hrelaxes := Rules.kept_relaxes E keep N
  ⟨.leaf hleaf (Statement.Meets.relax hrelaxes.1 _ (List.Subset.refl _) hkept),
    .leaf hleaf (Statement.Meets.relax hrelaxes.2 _ (List.Subset.refl _) hkept)⟩

theorem Statement.CallsKept.of_meets (visible : List String) {ss : List Statement}
    (h : Statement.MeetsList (.kept keep) ss visible) : CallsKept keep ss := by
  intro hcalls e he
  obtain ⟨s, hs, he⟩ := List.mem_flatMap.mp he
  exact (Statement.meetsList_of_calls hcalls visible).mp h s hs e he

theorem Block.Ready.holding {b : Block} {out : List Statement} (hrec : b.Meets .records visible)
    (hkept : b.Meets (.kept keep) visible) (hcalls : Statement.CallsKept keep out) :
    (b.holding out).body.Ready keep visible :=
  ⟨(Block.meets_iff.mp hrec).1, (Block.meets_iff.mp hkept).1, hcalls⟩

/-- **A lowered body mirrors the body.** The induction also follows which blocks could be moved out. -/
theorem Scope.lower_mirrors (scope : Scope) {visible : List String}
    (hrecords : scope.Meets .records visible) (hkept : scope.Meets (.kept keep) visible)
    (p : Progress) (hfits : ((scope.lower primitives frame).run p).2.Fits E primitives keep N) :
    Mirrors E keep N visible (Statement.visibleAfter scope.statements visible) (scope.run E)
      (((scope.lower primitives frame).run p).1.run E) := by
  rw [Scope.lower_run] at hfits ⊢
  rw [Scope.meets_iff] at hrecords hkept
  have hlist := ((lower_induction primitives frame
    (P := fun s p out q => q.Fits E primitives keep N → ∀ visible, s.Meets .records visible →
      s.Meets (.kept keep) visible →
      Mirrors E keep N visible (s.introduces ++ visible) (s.run E) (Statement.runList E out) ∧
        Statement.CallsKept keep out)
    (L := fun ss p out q => q.Fits E primitives keep N → ∀ visible,
      Statement.MeetsList .records ss visible → Statement.MeetsList (.kept keep) ss visible →
      Mirrors E keep N visible (Statement.visibleAfter ss visible) (Statement.runList E ss)
        (Statement.runList E out) ∧ Statement.CallsKept keep out)
    (Q := fun _ b p below q => q.Fits E primitives keep N → ∀ visible, b.Meets .records visible →
      b.Meets (.kept keep) visible →
      Mirrors E keep N visible visible (b.run E) (below.run E) ∧ below.Ready keep visible)
    ?nil ?cons ?leaf ?forEach ?whileLoop ?repeatUntil ?qubits ?conditional ?done ?otherwise ?last
    ?nested).2.1 scope.statements p).2 hfits visible hrecords.2 hkept.2
  · obtain ⟨statements, known⟩ := scope
    exact hlist.1
  case nil => exact fun p _ visible _ _ => ⟨⟨.next, .next⟩, fun _ e he => (by cases he)⟩
  case cons =>
    intro s ss p out q outs r _ hqr hs hss hfits visible hrec hkept
    obtain ⟨hrun, hcalls⟩ := hs (hfits.of_leads hqr) visible hrec.1 hkept.1
    obtain ⟨hruns, hcalls'⟩ := hss hfits _ hrec.2 hkept.2
    rw [Statement.runList_append]
    exact ⟨⟨hrun.1.seq hruns.1, hrun.2.seq hruns.2⟩, hcalls.append hcalls'⟩
  case leaf =>
    intro kind info p hleaf _ visible _ hkept
    rw [Statement.runList_singleton]
    exact ⟨.leaf hleaf hkept, .of_meets visible ⟨hkept, trivial⟩⟩
  case forEach =>
    intro symbols itemTy iterable body info p out q _ hbody hfits visible hrec hkept
    obtain ⟨hrun, -⟩ :=
      hbody hfits _ (Scope.meets_iff.mp hrec.2.2).2 (Scope.meets_iff.mp hkept.2.2).2
    rw [Statement.runList_singleton]
    obtain ⟨statements, known⟩ := body
    exact ⟨⟨.forEach hkept.1 hkept.2.1 hrun.1, .forEach hkept.1 hkept.2.1 hrun.2⟩,
      fun h => (by cases h)⟩
  case whileLoop =>
    intro condition body info p out q _ hbody hfits visible hrec hkept
    obtain ⟨hrun, -⟩ := hbody hfits _ (Scope.meets_iff.mp hrec.2).2 (Scope.meets_iff.mp hkept.2).2
    rw [Statement.runList_singleton]
    obtain ⟨statements, known⟩ := body
    exact ⟨⟨.whileLoop hkept.1 hrun.1, .whileLoop hkept.1 hrun.2⟩, fun h => (by cases h)⟩
  case repeatUntil =>
    intro block success fixup info p out q outs r _ hqr hblock hfixup hfits visible hrec hkept
    obtain ⟨hrun, -⟩ := hblock (hfits.of_leads hqr) _ (Block.meets_iff.mp hrec.1).2
      (Block.meets_iff.mp hkept.1).2
    obtain ⟨hruns, -⟩ :=
      hfixup hfits _ (Block.meets_iff.mp hrec.2.2).2 (Block.meets_iff.mp hkept.2.2).2
    rw [Statement.runList_singleton]
    obtain ⟨⟨statements, known⟩, location, comments⟩ := block
    obtain ⟨⟨statements', known'⟩, location', comments'⟩ := fixup
    exact ⟨⟨.repeatUntil hkept.2.1 hrun.1 hruns.1, .repeatUntil hkept.2.1 hrun.2 hruns.2⟩,
      fun h => (by cases h)⟩
  case qubits =>
    intro kind binding body info p out q _ hbody hfits visible hrec hkept
    obtain ⟨hrun, -⟩ :=
      hbody hfits _ (Scope.meets_iff.mp hrec.2.2).2 (Scope.meets_iff.mp hkept.2.2).2
    rw [Statement.runList_singleton]
    obtain ⟨statements, known⟩ := body
    exact ⟨⟨.qubits hkept.1 hkept.2.1 hrun.1, .qubits hkept.1 hkept.2.1 hrun.2⟩,
      fun h => (by cases h)⟩
  case conditional =>
    intro branches info p below q _ hbranches hfits visible hrec hkept
    obtain ⟨hrun, hready⟩ := hbranches (hfits.of_leads (conclude_leads primitives frame _ q)) visible
      hrec hkept
    exact ⟨hrun.replace (conclude_replaces frame info hready q hfits),
      conclude_kept frame info hready q⟩
  case done =>
    exact fun _ p _ visible _ _ =>
      ⟨⟨.next, .next⟩, fun _ h => (by cases h), fun _ h => (by cases h)⟩
  case otherwise =>
    intro block info p out q _ hblock hfits visible hrec hkept
    obtain ⟨hrun, hcalls⟩ :=
      hblock hfits visible (Block.meets_iff.mp hrec).2 (Block.meets_iff.mp hkept).2
    have hready := Block.Ready.holding hrec hkept hcalls
    obtain ⟨⟨statements, known⟩, location, comments⟩ := block
    exact ⟨⟨hrun.1.within_nil, hrun.2.within_nil⟩, List.forall_mem_singleton.mpr hready,
      fun _ h => (by cases h)⟩
  case last =>
    intro condition block rest info p out q below r _ hqr hblock hrest _ hfits visible hrec hkept
    obtain ⟨hrun, hcalls⟩ := hblock (hfits.of_leads hqr) visible (Block.meets_iff.mp hrec.2.1).2
      (Block.meets_iff.mp hkept.2.1).2
    obtain ⟨hrest, hready⟩ := hrest hfits visible hrec.2.2 hkept.2.2
    have hblock := Block.Ready.holding hrec.2.1 hkept.2.1 hcalls
    obtain ⟨⟨statements, known⟩, location, comments⟩ := block
    exact ⟨⟨.arm hkept.1 hrun.1 hrest.1, .arm hkept.1 hrun.2 hrest.2⟩,
      List.forall_mem_cons.mpr ⟨hblock, hready.blocks⟩,
      List.forall_mem_cons.mpr ⟨hkept.1, hready.guards⟩⟩
  case nested =>
    intro condition block rest info p out q c b below r _ hqr hblock hrest hfits visible hrec hkept
    have hconclude := conclude_leads primitives frame ⟨.conditional (.arm c b below), info⟩ r
    obtain ⟨hrun, hcalls⟩ := hblock ((hfits.of_leads hconclude).of_leads hqr) visible
      (Block.meets_iff.mp hrec.2.1).2 (Block.meets_iff.mp hkept.2.1).2
    obtain ⟨hrest, hready⟩ := hrest (hfits.of_leads hconclude) visible hrec.2.2 hkept.2.2
    have hinner := (hrest.replace (conclude_replaces frame info hready r hfits)).within_right
    have hblock := Block.Ready.holding hrec.2.1 hkept.2.1 hcalls
    have hfirst := hready.blocks b (List.mem_cons_self ..)
    obtain ⟨⟨statements, known⟩, location, comments⟩ := block
    -- The new default block is described as the second guarded block, so it records the same names.
    exact ⟨⟨.arm hkept.1 hrun.1 hinner.1, .arm hkept.1 hrun.2 hinner.2⟩,
      List.forall_mem_cons.mpr ⟨hblock, List.forall_mem_singleton.mpr
        ⟨hfirst.known, hfirst.captured, conclude_kept frame info hready r⟩⟩,
      List.forall_mem_singleton.mpr hkept.1⟩

end

end OutcomeControl
