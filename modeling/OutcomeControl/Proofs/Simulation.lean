import OutcomeControl.Proofs.Semantics

/-! Comparing runs.

`Behaviour.Sim` says that whatever one behaviour can do another can do as well, with other calls if
need be: a `Passage` says which answered calls count on either side and what is known of the values
that pass. A `Tracking` adds a relation between environments under which expressions evaluate alike.
Then every kind of statement keeps the relation if its blocks do (`Tracking.Keeps`), which is all
that a comparison of two programs has to know about the statements that it leaves alone. -/

namespace OutcomeControl

/-- The answered calls on both sides and the values that may pass. -/
structure Passage (V S : Type) where
  before : Call V S → Prop
  after : Call V S → Prop
  good : V → Prop

namespace Passage
variable {V S α β : Type} (T : Passage V S)

/-- The same value, of those that may pass. -/
def Same (v w : V) : Prop := v = w ∧ T.good v

/-- Related results, or the same failure. -/
def ResultRel (R : α → β → Prop) : Except V α → Except V β → Prop
  | .ok a, .ok b => R a b
  | .error v, .error w => T.Same v w
  | _, _ => False

theorem ResultRel.eq {T : Passage V S} {R : α → α → Prop} {r r' : Except V α}
    (h : T.ResultRel R r r') (hR : ∀ a b, R a b → a = b) : r = r' := by
  cases r <;> cases r'
  · exact congrArg _ h.1
  · exact h.elim
  · exact h.elim
  · exact congrArg _ (hR _ _ h)

def FlowRel (R : Env V → Env V → Prop) : Flow V → Flow V → Prop
  | .next a, .next b => R a b
  | .returned v, .returned w => T.Same v w
  | _, _ => False

end Passage

/-- All that `x` does with calls that count before, `y` does with calls that count after. -/
def Behaviour.Sim {V S α β : Type} (T : Passage V S) (R : α → β → Prop) (x : Behaviour V S α)
    (y : Behaviour V S β) : Prop :=
  ∀ s calls r s', x s calls r s' → (∀ k ∈ calls, T.before k) →
    ∃ calls' r', y s calls' r' s' ∧ (∀ k ∈ calls', T.after k) ∧ T.ResultRel R r r'

namespace Behaviour.Sim
variable {V S α β γ δ : Type} {T : Passage V S} {R : α → β → Prop} {Q : γ → δ → Prop}
  {x : Behaviour V S α} {y : Behaviour V S β}

theorem pure {a : α} {b : β} (h : R a b) : Sim T R (pure a) (pure b) := by
  rintro s calls r s' ⟨rfl, rfl, rfl⟩ -
  exact ⟨[], .ok b, ⟨rfl, rfl, rfl⟩, fun k hk => (by cases hk), h⟩

theorem fail {v w : V} (h : T.Same v w) : Sim T R (fail v) (fail w) := by
  rintro s calls r s' ⟨rfl, rfl, rfl⟩ -
  exact ⟨[], .error w, ⟨rfl, rfl, rfl⟩, fun k hk => (by cases hk), h⟩

theorem stuck_left : Sim T R stuck y := fun _ _ _ _ h => h.elim

theorem bind {f : α → Behaviour V S γ} {g : β → Behaviour V S δ} (hxy : Sim T R x y)
    (hfg : ∀ a b, R a b → Sim T Q (f a) (g b)) : Sim T Q (x >>= f) (y >>= g) := by
  rintro s calls r s' (⟨a, first, middle, later, hx, hf, rfl⟩ | ⟨v, hx, rfl⟩) hcalls
  · obtain ⟨first', r₁, hy, hfirst', hr₁⟩ :=
      hxy s first _ middle hx fun k hk => hcalls k (List.mem_append_left _ hk)
    cases r₁ with
    | error w => exact hr₁.elim
    | ok b =>
      obtain ⟨later', r', hg, hlater', hr'⟩ :=
        hfg a b hr₁ middle later r s' hf fun k hk => hcalls k (List.mem_append_right _ hk)
      refine ⟨first' ++ later', r', .inl ⟨b, first', middle, later', hy, hg, rfl⟩, fun k hk => ?_, hr'⟩
      exact (List.mem_append.mp hk).elim (hfirst' k) (hlater' k)
  · obtain ⟨calls', r₁, hy, hcalls', hr₁⟩ := hxy s calls _ s' hx hcalls
    cases r₁ with
    | ok b => exact hr₁.elim
    | error w => exact ⟨calls', .error w, .inr ⟨w, hy, rfl⟩, hcalls', hr₁⟩

theorem mono {R' : α → β → Prop} (h : Sim T R x y) (hR : ∀ a b, R a b → R' a b) : Sim T R' x y := by
  intro s calls r s' hx hcalls
  obtain ⟨calls', r', hy, hcalls', hr⟩ := h s calls r s' hx hcalls
  refine ⟨calls', r', hy, hcalls', ?_⟩
  cases r <;> cases r' <;> first | exact hR _ _ hr | exact hr

theorem map {f : α → γ} {g : β → δ} (h : Sim T R x y) (hfg : ∀ a b, R a b → Q (f a) (g b)) :
    Sim T Q (f <$> x) (g <$> y) := by
  rw [map_eq_pure_bind, map_eq_pure_bind]
  exact h.bind fun a b hab => .pure (hfg a b hab)

theorem ofOption {o : Option α} {Q : α → α → Prop} (h : ∀ a, o = some a → Q a a) :
    Sim T Q (ofOption o) (ofOption o) := by
  cases o with
  | none => exact stuck_left
  | some a => exact .pure (h a rfl)

theorem inverse (f : α → V) {v w : V} (h : v = w) : Sim T Eq (inverse f v) (inverse f w) := by
  subst h
  rintro s calls r s' ⟨a, ha, rfl, rfl, rfl⟩ -
  exact ⟨[], .ok a, ⟨a, ha, rfl, rfl, rfl⟩, fun k hk => (by cases hk), rfl⟩

theorem iterate {f : α → Behaviour V S (α ⊕ γ)} {g : β → Behaviour V S (β ⊕ δ)}
    (hstep : ∀ a b, R a b → Sim T (Sum.LiftRel R Q) (f a) (g b)) {a : α} {b : β} (hab : R a b) :
    Sim T Q (iterate f a) (iterate g b) := by
  intro s calls r s' h
  induction h generalizing b with
  | done hf =>
    intro hcalls
    obtain ⟨calls', r', hg, hcalls', hr⟩ := hstep _ b hab _ _ _ _ hf hcalls
    match r', hr with
    | .ok (.inr d), .inr hd => exact ⟨calls', .ok d, .done hg, hcalls', hd⟩
  | failed hf =>
    intro hcalls
    obtain ⟨calls', r', hg, hcalls', hr⟩ := hstep _ b hab _ _ _ _ hf hcalls
    match r', hr with
    | .error w, hw => exact ⟨calls', .error w, .failed hg, hcalls', hw⟩
  | again hf _ ih =>
    intro hcalls
    obtain ⟨first', r₁, hg, hfirst', hr₁⟩ :=
      hstep _ b hab _ _ _ _ hf fun k hk => hcalls k (List.mem_append_left _ hk)
    match r₁, hr₁ with
    | .ok (.inl b'), .inl hb' =>
      obtain ⟨later', r', hloop, hlater', hr'⟩ :=
        ih hb' fun k hk => hcalls k (List.mem_append_right _ hk)
      refine ⟨first' ++ later', r', .again hg hloop, fun k hk => ?_, hr'⟩
      exact (List.mem_append.mp hk).elim (hfirst' k) (hlater' k)

theorem mapM {f g : γ → Behaviour V S V} {items : List γ}
    (h : ∀ c ∈ items, Sim T T.Same (f c) (g c)) :
    Sim T (fun vs ws => vs = ws ∧ ∀ v ∈ vs, T.good v) (items.mapM f) (items.mapM g) := by
  induction items with
  | nil =>
    rw [List.mapM_nil, List.mapM_nil]
    exact .pure ⟨rfl, fun v hv => (by cases hv)⟩
  | cons c items ih =>
    rw [List.mapM_cons, List.mapM_cons]
    refine (h c (List.mem_cons_self ..)).bind fun v w hvw => ?_
    refine (ih fun d hd => h d (List.mem_cons_of_mem _ hd)).bind fun vs ws hvws => ?_
    obtain ⟨rfl, hv⟩ := hvw
    obtain ⟨rfl, hvs⟩ := hvws
    exact .pure ⟨rfl, List.forall_mem_cons.mpr ⟨hv, hvs⟩⟩

theorem follow {R : Env V → Env V → Prop} {f : Env V → Behaviour V S γ}
    {g : Env V → Behaviour V S δ} {i : V → γ} {j : V → δ} {a b : Flow V} (hab : T.FlowRel R a b)
    (hfg : ∀ env env', R env env' → Sim T Q (f env) (g env'))
    (hij : ∀ v w, T.Same v w → Q (i v) (j w)) : Sim T Q (a.follow f i) (b.follow g j) := by
  cases a <;> cases b
  · exact hfg _ _ hab
  · exact hab.elim
  · exact hab.elim
  · exact .pure (hij _ _ hab)

theorem forEach {R : Env V → Env V → Prop} {f g : V → Env V → Behaviour V S (Flow V)} {vs : List V}
    (hvs : ∀ v ∈ vs, T.good v)
    (hfg : ∀ v, T.good v → ∀ env env', R env env' → Sim T (T.FlowRel R) (f v env) (g v env'))
    {env env' : Env V} (h : R env env') :
    Sim T (T.FlowRel R) (forEach f vs env) (forEach g vs env') := by
  induction vs generalizing env env' with
  | nil => exact .pure h
  | cons v vs ih =>
    obtain ⟨hv, hvs⟩ := List.forall_mem_cons.mp hvs
    exact (hfg v hv env env' h).bind fun a b hab =>
      .follow hab (fun _ _ => ih hvs) fun _ _ hvw => hvw

end Behaviour.Sim

/-! ### Patterns -/

section
variable {V : Type} (E : Values V)

mutual
theorem SymbolTuple.names_bind : (p : SymbolTuple) → {v : V} → {env : Env V} →
    p.bind E v = some env → env.names = p.names
  | .name n, _, _, h => by
    cases h
    rfl
  | .tuple items, _, _, h => by
    obtain ⟨vs, -, hvs⟩ := Option.bind_eq_some_iff.mp h
    exact SymbolTuple.namesList_bindList items hvs
  | .discard, _, _, h => by
    cases h
    rfl
theorem SymbolTuple.namesList_bindList : (ps : List SymbolTuple) → {vs : List V} → {env : Env V} →
    SymbolTuple.bindList E ps vs = some env → env.names = SymbolTuple.namesList ps
  | [], _, _, h => by
    cases h
    rfl
  | p :: ps, v :: vs, _, h => by
    obtain ⟨first, hfirst, h⟩ := Option.bind_eq_some_iff.mp h
    obtain ⟨rest, hrest, rfl⟩ := Option.map_eq_some_iff.mp h
    rw [SymbolTuple.namesList, ← p.names_bind hfirst, ← SymbolTuple.namesList_bindList ps hrest]
    exact List.map_append
end

mutual
/-- What holds of a value and passes to the items of tuples holds of the values that are bound. -/
theorem SymbolTuple.forall_bind {P : V → Prop}
    (hspread : ∀ n v vs, P v → E.spread n v = some vs → ∀ w ∈ vs, P w) :
    (p : SymbolTuple) → {v : V} → {env : Env V} → P v → p.bind E v = some env → ∀ b ∈ env, P b.2
  | .name n, v, _, hv, h => by
    cases h
    exact List.forall_mem_singleton.mpr hv
  | .tuple items, v, _, hv, h => by
    obtain ⟨vs, hvs, h⟩ := Option.bind_eq_some_iff.mp h
    exact SymbolTuple.forall_bindList hspread items (hspread _ v vs hv hvs) h
  | .discard, _, _, _, h => by
    cases h
    exact fun b hb => (by cases hb)
theorem SymbolTuple.forall_bindList {P : V → Prop}
    (hspread : ∀ n v vs, P v → E.spread n v = some vs → ∀ w ∈ vs, P w) :
    (ps : List SymbolTuple) → {vs : List V} → {env : Env V} → (∀ v ∈ vs, P v) →
      SymbolTuple.bindList E ps vs = some env → ∀ b ∈ env, P b.2
  | [], _, _, _, h => by
    cases h
    exact fun b hb => (by cases hb)
  | p :: ps, v :: vs, _, hvs, h => by
    obtain ⟨first, hfirst, h⟩ := Option.bind_eq_some_iff.mp h
    obtain ⟨rest, hrest, rfl⟩ := Option.map_eq_some_iff.mp h
    obtain ⟨hv, hvs⟩ := List.forall_mem_cons.mp hvs
    exact List.forall_mem_append.mpr
      ⟨SymbolTuple.forall_bind hspread p hv hfirst, SymbolTuple.forall_bindList hspread ps hvs hrest⟩
end

end

/-! ### Tracking -/

/-- A relation between environments, given the names that are visible in the first, under which the
expressions that `expr` allows evaluate alike. -/
structure Tracking {V S : Type} (E : Evaluator V S) extends Passage V S where
  Rel : List String → Env V → Env V → Prop
  expr : Expr → Prop
  symbols : List String → Prop
  eval : ∀ {visible env env' e}, Rel visible env env' → expr e →
    Behaviour.Sim toPassage toPassage.Same (E.eval env.get e) (E.eval env'.get e)
  push : ∀ {visible env env' bindings}, Rel visible env env' → symbols bindings.names →
    (∀ b ∈ bindings, good b.2) → Rel (bindings.names ++ visible) (bindings ++ env) (bindings ++ env')
  update : ∀ {visible env env' lhs v bindings}, Rel visible env env' → expr lhs → good v →
    lhs.pattern.bind E.toValues v = some bindings →
    Rel visible (env.setAll bindings) (env'.setAll bindings)
  leave : ∀ {visible more env env' inner inner'}, Rel visible env env' → Rel more inner inner' →
    env.names <:+ inner.names → env'.names <:+ inner'.names →
    Rel visible (env.leave inner) (env'.leave inner')
  spread : ∀ n v vs, good v → E.spread n v = some vs → ∀ w ∈ vs, good w
  elements : ∀ v vs, good v → E.elements v = some vs → ∀ w ∈ vs, good w
  acquire : ∀ kind init sizes, (∀ v ∈ sizes, good v) →
    Behaviour.Sim toPassage toPassage.Same (E.acquire kind init sizes) (E.acquire kind init sizes)
  release : ∀ kind v, good v →
    Behaviour.Sim toPassage (fun _ _ => True) (E.release kind v) (E.release kind v)

theorem Env.names_leave {V : Type} {env inner : Env V} (h : env.names <:+ inner.names) :
    (env.leave inner).names = env.names := by
  obtain ⟨more, h⟩ := h
  have hlength := congrArg List.length h
  simp only [List.length_append, Env.names, List.length_map] at hlength
  rw [Env.leave, Env.names, List.map_drop]
  change inner.names.drop _ = _
  rw [← h, List.drop_left' (by omega)]

theorem Env.names_set {V : Type} (n : String) (v : V) (env : Env V) :
    (env.set n v).names = env.names := by
  induction env with
  | nil => rfl
  | cons b env ih =>
    unfold Env.set
    split
    case isTrue hb => rw [← hb]; rfl
    case isFalse => exact congrArg (b.1 :: ·) ih

theorem Env.names_setAll {V : Type} (env bindings : Env V) :
    (env.setAll bindings).names = env.names := by
  unfold Env.setAll
  induction bindings generalizing env with
  | nil => rfl
  | cons b bindings ih => rw [List.foldl_cons, ih, Env.names_set]

theorem Env.names_suffix_append {V : Type} (bs env : Env V) :
    env.names <:+ Env.names (bs ++ env) := by
  rw [Env.names, Env.names, List.map_append]
  exact List.suffix_append ..

namespace Tracking
variable {V S : Type} {E : Evaluator V S} (T : Tracking E)

/-- What a tracking asks of a body. -/
def rules : Rules where
  expr _ e := T.expr e
  symbols := T.symbols

/-- Related environments in which the variables that there were are still there. -/
structure After (env env' : Env V) (visible : List String) (inner inner' : Env V) : Prop where
  rel : T.Rel visible inner inner'
  left : env.names <:+ inner.names
  right : env'.names <:+ inner'.names

/-- From related environments `f` does nothing that `g` cannot do, and their ends are related. -/
def Keeps (visible more : List String) (f g : Env V → Behaviour V S (Flow V)) : Prop :=
  ∀ env env', T.Rel visible env env' →
    Behaviour.Sim T.toPassage (T.FlowRel (T.After env env' more)) (f env) (g env')

variable {T} {visible more : List String} {env env' inner inner' : Env V}

theorem After.refl (h : T.Rel visible env env') : T.After env env' visible env env' :=
  ⟨h, List.suffix_rfl, List.suffix_rfl⟩

theorem After.trans {last last' : Env V} {names : List String}
    (h : T.After env env' more inner inner') (h' : T.After inner inner' names last last') :
    T.After env env' names last last' := ⟨h'.rel, h.left.trans h'.left, h.right.trans h'.right⟩

/-- Leaving a scope restores the names. -/
theorem After.leave (h : T.Rel visible env env') (h' : T.After env env' more inner inner') :
    T.After env env' visible (env.leave inner) (env'.leave inner') :=
  ⟨T.leave h h'.rel h'.left h'.right, (Env.names_leave h'.left).symm ▸ List.suffix_rfl,
    (Env.names_leave h'.right).symm ▸ List.suffix_rfl⟩

theorem holds {e : Expr} (h : T.Rel visible env env') (he : T.expr e) :
    Behaviour.Sim T.toPassage Eq (E.holds env e) (E.holds env' e) :=
  (T.eval h he).bind fun _ _ hvw => .inverse _ hvw.1

/-- A value is bound to a pattern on both sides. -/
theorem bind_pattern {p : SymbolTuple} {v w : V} (h : T.Rel visible env env') (hvw : T.Same v w)
    (hp : T.symbols p.names) :
    Behaviour.Sim T.toPassage
      (fun bs cs => bs = cs ∧ T.Rel (p.names ++ visible) (bs ++ env) (bs ++ env'))
      (.ofOption (p.bind E.toValues v)) (.ofOption (p.bind E.toValues w)) := by
  obtain ⟨rfl, hv⟩ := hvw
  refine .ofOption fun bs hbs => ⟨rfl, ?_⟩
  have hnames := p.names_bind E.toValues hbs
  rw [← hnames] at hp ⊢
  exact T.push h hp (SymbolTuple.forall_bind E.toValues T.spread p hv hbs)

namespace Keeps
variable {f g f' g' : Env V → Behaviour V S (Flow V)}

theorem next : T.Keeps visible visible (pure <| .next ·) (pure <| .next ·) :=
  fun _ _ h => .pure (.refl h)

theorem seq {names : List String} (h : T.Keeps visible more f g) (h' : T.Keeps more names f' g') :
    T.Keeps visible names (fun env => f env >>= Flow.follow f' .returned)
      (fun env => g env >>= Flow.follow g' .returned) := by
  intro env env' hrel
  refine (h env env' hrel).bind fun a b hab => .follow hab (fun inner inner' hinner => ?_) ?_
  · refine (h' inner inner' hinner.rel).mono fun a b hab => ?_
    cases a <;> cases b <;> first | exact hinner.trans hab | exact hab
  · exact fun _ _ hvw => hvw

/-- The scope that is left may have started with some bindings of its own. -/
theorem within {names : List String} (hfg : T.Keeps (names ++ visible) more f g)
    (h : T.Rel visible env env') (bs : Env V)
    (hpush : T.Rel (names ++ visible) (bs ++ env) (bs ++ env')) :
    Behaviour.Sim T.toPassage (T.FlowRel (T.After env env' visible))
      (.within env (f (bs ++ env))) (.within env' (g (bs ++ env'))) := by
  refine (hfg _ _ hpush).map fun a b hab => ?_
  cases a <;> cases b
  · exact .leave h ⟨hab.rel, (Env.names_suffix_append bs env).trans hab.left,
      (Env.names_suffix_append bs env').trans hab.right⟩
  all_goals exact hab

theorem within_nil (hfg : T.Keeps visible more f g) :
    T.Keeps visible visible (fun env => .within env (f env)) (fun env => .within env (g env)) :=
  fun _ _ h => (show T.Keeps ([] ++ visible) more f g from hfg).within h [] h

theorem leaf {kind : StatementKind} {info : StatementInfo} (hleaf : kind.IsLeaf)
    (hmeets : Statement.Meets T.rules ⟨kind, info⟩ visible) :
    T.Keeps visible (Statement.introduces ⟨kind, info⟩ ++ visible) (Statement.run E ⟨kind, info⟩)
      (Statement.run E ⟨kind, info⟩) := by
  intro env env' h
  cases kind with
  | expression e => exact (T.eval h hmeets).bind fun _ _ _ => .pure (.refl h)
  | returns e => exact (T.eval h hmeets).bind fun _ _ hvw => .pure hvw
  | fails e => exact (T.eval h hmeets).bind fun _ _ hvw => .fail hvw
  | binding b =>
    refine (T.eval h hmeets.1).bind fun v w hvw => ?_
    refine (bind_pattern h hvw hmeets.2).bind fun bs cs hbs => ?_
    obtain ⟨rfl, hrel⟩ := hbs
    exact .pure ⟨hrel, Env.names_suffix_append bs env, Env.names_suffix_append bs env'⟩
  | update lhs rhs =>
    refine (T.eval h hmeets.2).bind fun v w hvw => ?_
    obtain ⟨rfl, hv⟩ := hvw
    refine Behaviour.Sim.bind (R := fun bs cs => bs = cs ∧ lhs.pattern.bind E.toValues v = some bs)
      (.ofOption fun bs hbs => ⟨rfl, hbs⟩) fun bs cs hbs => ?_
    obtain ⟨rfl, hbs⟩ := hbs
    exact .pure ⟨T.update h hmeets.1 hv hbs, (env.names_setAll bs).symm ▸ List.suffix_rfl,
      (env'.names_setAll bs).symm ▸ List.suffix_rfl⟩
  | _ => exact hleaf.elim

theorem forEach {symbols : SymbolTuple} {itemTy : Ty} {iterable : Expr} {body body' : Scope}
    {info : StatementInfo} (hiterable : T.expr iterable) (hsymbols : T.symbols symbols.names)
    (hbody : T.Keeps (symbols.names ++ visible) more (body.run E) (body'.run E)) :
    T.Keeps visible visible (Statement.run E ⟨.forEach symbols itemTy iterable body, info⟩)
      (Statement.run E ⟨.forEach symbols itemTy iterable body', info⟩) := by
  intro env env' h
  refine (T.eval h hiterable).bind fun v w hvw => ?_
  obtain ⟨rfl, hv⟩ := hvw
  refine Behaviour.Sim.bind (R := fun vs ws => vs = ws ∧ ∀ v ∈ vs, T.good v)
    (.ofOption fun vs hvs => ⟨rfl, T.elements v vs hv hvs⟩) fun vs ws hvs => ?_
  obtain ⟨rfl, hvs⟩ := hvs
  refine .forEach hvs (fun v hv inner inner' hinner => ?_) (.refl h)
  refine (bind_pattern hinner.rel ⟨rfl, hv⟩ hsymbols).bind fun bs cs hbs => ?_
  obtain ⟨rfl, hrel⟩ := hbs
  refine (hbody.within hinner.rel bs hrel).mono fun a b hab => ?_
  cases a <;> cases b <;> first | exact hinner.trans hab | exact hab

/-- A step of a loop, after which the loop goes on or ends. -/
theorem again {R : Env V → Env V → Prop} {a b : Flow V} (h : T.FlowRel R a b) :
    Sum.LiftRel R (T.FlowRel R) a.again b.again := by
  cases a <;> cases b
  · exact .inl h
  · exact h.elim
  · exact h.elim
  · exact .inr h

theorem whileLoop {condition : Expr} {body body' : Scope} {info : StatementInfo}
    (hcondition : T.expr condition) (hbody : T.Keeps visible more (body.run E) (body'.run E)) :
    T.Keeps visible visible (Statement.run E ⟨.whileLoop condition body, info⟩)
      (Statement.run E ⟨.whileLoop condition body', info⟩) := by
  intro env env' h
  refine .iterate (R := T.After env env' visible) (fun inner inner' hinner => ?_) (.refl h)
  refine (holds hinner.rel hcondition).bind fun x y hxy => ?_
  obtain rfl := hxy
  cases x with
  | false => exact .pure (.inr hinner)
  | true =>
    refine (hbody.within_nil inner inner' hinner.rel).bind fun a b hab => .pure (again ?_)
    cases a <;> cases b <;> first | exact hinner.trans hab | exact hab

theorem repeatUntil {names : List String} {block block' fixup fixup' : Block} {success : Expr}
    {info : StatementInfo} (hsuccess : T.expr success)
    (hblock : T.Keeps visible more (block.run E) (block'.run E))
    (hfixup : T.Keeps more names (fixup.run E) (fixup'.run E)) :
    T.Keeps visible visible (Statement.run E ⟨.repeatUntil block success fixup, info⟩)
      (Statement.run E ⟨.repeatUntil block' success fixup', info⟩) := by
  intro env env' h
  refine .iterate (R := T.After env env' visible) (fun start start' hstart => ?_) (.refl h)
  refine (hblock start start' hstart.rel).bind fun a b hab => .follow hab
    (fun inner inner' hinner => ?_) fun v w hvw => .inr hvw
  refine (holds hinner.rel hsuccess).bind fun x y hxy => ?_
  obtain rfl := hxy
  cases x with
  | true => exact .pure (.inr (hstart.trans (.leave hstart.rel hinner)))
  | false =>
    refine Behaviour.Sim.bind ((hfixup inner inner' hinner.rel).map (fun a b hab => ?_))
      fun a b hab => .pure (again hab)
    cases a <;> cases b
    · exact hstart.trans (.leave hstart.rel (hinner.trans hab))
    all_goals exact hab

theorem qubits {kind : QubitScopeKind} {binding : Binding QubitInit} {body body' : Scope}
    {info : StatementInfo} (hsizes : ∀ e ∈ binding.rhs.sizes, T.expr e)
    (hsymbols : T.symbols binding.lhs.names)
    (hbody : T.Keeps (binding.lhs.names ++ visible) more (body.run E) (body'.run E)) :
    T.Keeps visible visible (Statement.run E ⟨.qubits kind binding body, info⟩)
      (Statement.run E ⟨.qubits kind binding body', info⟩) := by
  intro env env' h
  refine (Behaviour.Sim.mapM fun e he => T.eval h (hsizes e he)).bind fun vs ws hvs => ?_
  obtain ⟨rfl, hvs⟩ := hvs
  refine (T.acquire kind binding.rhs vs hvs).bind fun v w hvw => ?_
  refine (bind_pattern h hvw hsymbols).bind fun bs cs hbs => ?_
  obtain ⟨rfl, hrel⟩ := hbs
  obtain ⟨rfl, hv⟩ := hvw
  refine (hbody.within h bs hrel).bind fun a b hab => ?_
  exact (T.release kind v hv).bind fun _ _ _ => .pure hab

theorem arm {condition : Expr} {block block' : Block} {rest rest' : Branches}
    (hcondition : T.expr condition) (hblock : T.Keeps visible more (block.run E) (block'.run E))
    (hrest : T.Keeps visible visible (rest.run E) (rest'.run E)) :
    T.Keeps visible visible ((Branches.arm condition block rest).run E)
      ((Branches.arm condition block' rest').run E) := by
  intro env env' h
  refine (holds h hcondition).bind fun x y hxy => ?_
  obtain rfl := hxy
  cases x with
  | true => exact hblock.within_nil env env' h
  | false => exact hrest env env' h

end Keeps

end Tracking

/-! ### The same statements on both sides -/

section
variable {V S : Type} {E : Evaluator V S} (T : Tracking E)

mutual
theorem Statement.keeps : (s : Statement) → {visible : List String} → s.Meets T.rules visible →
    T.Keeps visible (s.introduces ++ visible) (s.run E) (s.run E)
  | ⟨.expression _, _⟩, _, h => .leaf trivial h
  | ⟨.returns _, _⟩, _, h => .leaf trivial h
  | ⟨.fails _, _⟩, _, h => .leaf trivial h
  | ⟨.binding _, _⟩, _, h => .leaf trivial h
  | ⟨.update _ _, _⟩, _, h => .leaf trivial h
  | ⟨.conditional branches, _⟩, _, h => branches.keeps h
  | ⟨.forEach _ _ _ body, _⟩, _, h => .forEach h.1 h.2.1 (body.keeps h.2.2)
  | ⟨.whileLoop _ body, _⟩, _, h => .whileLoop h.1 (body.keeps h.2)
  | ⟨.repeatUntil block _ fixup, _⟩, _, h =>
    .repeatUntil h.2.1 (block.keeps h.1) (fixup.keeps h.2.2)
  | ⟨.qubits _ _ body, _⟩, _, h => .qubits h.1 h.2.1 (body.keeps h.2.2)
theorem Branches.keeps : (b : Branches) → {visible : List String} → b.Meets T.rules visible →
    T.Keeps visible visible (b.run E) (b.run E)
  | .done, _, _ => .next
  | .otherwise block, _, h => (block.keeps h).within_nil
  | .arm _ block rest, _, h => .arm h.1 (block.keeps h.2.1) (rest.keeps h.2.2)
theorem Block.keeps : (b : Block) → {visible : List String} → b.Meets T.rules visible →
    T.Keeps visible (Statement.visibleAfter b.body.statements visible) (b.run E) (b.run E)
  | ⟨body, _, _⟩, _, h => body.keeps h
theorem Scope.keeps : (s : Scope) → {visible : List String} → s.Meets T.rules visible →
    T.Keeps visible (Statement.visibleAfter s.statements visible) (s.run E) (s.run E)
  | ⟨statements, _⟩, _, h => Statement.keepsList statements h.2
theorem Statement.keepsList : (ss : List Statement) → {visible : List String} →
    Statement.MeetsList T.rules ss visible →
    T.Keeps visible (Statement.visibleAfter ss visible) (Statement.runList E ss)
      (Statement.runList E ss)
  | [], _, _ => .next
  | s :: ss, _, h => (s.keeps h.1).seq (Statement.keepsList ss h.2)
end

end

end OutcomeControl
