import OutcomeControl.Proofs.Simulation

/-! Two programs that do the same but for variables that only one of them has.

`Behaviour.Equiv` says that two behaviours do the same under a set of answered calls. A body that
lowering made has more variables than before, the ones that hold conditions; no program text
mentions them, so a comparison hides them (`Env.hide`). `Mirrors` says that one body does what
another one does when such variables are hidden, in both directions, and `Replaces` that it may stand
in its place. -/

namespace OutcomeControl

/-! ### Equivalence under answered calls -/

/-- The same calls count on both sides, and every value may pass. -/
def Passage.all {V S : Type} (N : Call V S → Prop) : Passage V S := ⟨N, N, fun _ => True⟩

namespace Behaviour
variable {V S α β γ : Type} {N : Call V S → Prop}

theorem Sim.refl {R : α → α → Prop} (hR : ∀ a, R a a) (x : Behaviour V S α) :
    Sim (.all N) R x x := by
  intro s calls r s' hx hcalls
  refine ⟨calls, r, hx, hcalls, ?_⟩
  cases r with
  | ok a => exact hR a
  | error v => exact ⟨rfl, trivial⟩

theorem Sim.trans {R : α → β → Prop} {Q : β → γ → Prop} {x : Behaviour V S α} {y : Behaviour V S β}
    {z : Behaviour V S γ} (hxy : Sim (.all N) R x y) (hyz : Sim (.all N) Q y z) :
    Sim (.all N) (fun a c => ∃ b, R a b ∧ Q b c) x z := by
  intro s calls r s' hx hcalls
  obtain ⟨calls₁, r₁, hy, hcalls₁, hr₁⟩ := hxy s calls r s' hx hcalls
  obtain ⟨calls₂, r₂, hz, hcalls₂, hr₂⟩ := hyz s calls₁ r₁ s' hy hcalls₁
  refine ⟨calls₂, r₂, hz, hcalls₂, ?_⟩
  cases r <;> cases r₁ <;> cases r₂ <;> first
    | exact ⟨_, hr₁, hr₂⟩
    | exact hr₁.elim
    | exact hr₂.elim
    | exact ⟨hr₁.1.trans hr₂.1, trivial⟩

theorem Sim.trans_eq {R : α → β → Prop} {x : Behaviour V S α} {y z : Behaviour V S β}
    (hxy : Sim (.all N) R x y) (hyz : Sim (.all N) Eq y z) : Sim (.all N) R x z := by
  refine (hxy.trans hyz).mono fun a c ⟨b, hab, hbc⟩ => ?_
  rwa [← hbc]

theorem Sim.eq_trans {R : α → β → Prop} {x y : Behaviour V S α} {z : Behaviour V S β}
    (hxy : Sim (.all N) Eq x y) (hyz : Sim (.all N) R y z) : Sim (.all N) R x z := by
  refine (hxy.trans hyz).mono fun a c ⟨b, hab, hbc⟩ => ?_
  rwa [hab]

/-- Under the calls of `N` the behaviours do the same. -/
def Equiv (N : Call V S → Prop) (x y : Behaviour V S α) : Prop :=
  Sim (.all N) Eq x y ∧ Sim (.all N) Eq y x

namespace Equiv
variable {x y z : Behaviour V S α}

theorem of_eq (h : x = y) : Equiv N x y := h ▸ ⟨.refl (fun _ => rfl) x, .refl (fun _ => rfl) x⟩

theorem symm (h : Equiv N x y) : Equiv N y x := ⟨h.2, h.1⟩

theorem trans (h : Equiv N x y) (h' : Equiv N y z) : Equiv N x z :=
  ⟨(h.1.trans h'.1).mono fun _ _ ⟨_, hab, hbc⟩ => hab.trans hbc,
    (h'.2.trans h.2).mono fun _ _ ⟨_, hab, hbc⟩ => hab.trans hbc⟩

theorem bind {f g : α → Behaviour V S β} (h : Equiv N x y) (hfg : ∀ a, Equiv N (f a) (g a)) :
    Equiv N (x >>= f) (y >>= g) :=
  ⟨h.1.bind fun a _ hab => hab ▸ (hfg a).1, h.2.bind fun a _ hab => hab ▸ (hfg a).2⟩

/-- A call that is answered in `N` as `x` says. -/
theorem call_iff {q : QualifiedName} {a : V} {x : Behaviour V S V} :
    Equiv N (call q a) x ↔
      ∀ s r s', N ⟨q, a, s, r, s'⟩ ↔ ∃ calls, x s calls r s' ∧ ∀ k ∈ calls, N k := by
  constructor
  · intro h s r s'
    constructor
    · intro hN
      obtain ⟨calls, r', hx, hcalls, hr⟩ := h.1 s _ r s' rfl (List.forall_mem_singleton.mpr hN)
      obtain rfl := hr.eq fun _ _ h => h
      exact ⟨calls, hx, hcalls⟩
    · rintro ⟨calls, hx, hcalls⟩
      obtain ⟨calls', r', rfl, hcalls', hr⟩ := h.2 s calls r s' hx hcalls
      obtain rfl := hr.eq fun _ _ h => h
      exact List.forall_mem_singleton.mp hcalls'
  · intro h
    have hsame : ∀ r : Except V V, (Passage.all N).ResultRel Eq r r := fun r => by
      cases r with
      | ok a => rfl
      | error v => exact ⟨rfl, trivial⟩
    constructor
    · rintro s calls r s' rfl hcalls
      obtain ⟨calls', hx, hcalls'⟩ := (h s r s').mp (List.forall_mem_singleton.mp hcalls)
      exact ⟨calls', r, hx, hcalls', hsame r⟩
    · intro s calls r s' hx hcalls
      exact ⟨_, r, rfl, List.forall_mem_singleton.mpr ((h s r s').mpr ⟨calls, hx, hcalls⟩), hsame r⟩

end Equiv

theorem inverse_apply {f : α → V} (hf : ∀ a b, f a = f b → a = b) (a : α) :
    (inverse f (f a) : Behaviour V S α) = pure a := by
  refine ext fun s calls r s' => ⟨?_, fun h => ⟨a, rfl, h⟩⟩
  rintro ⟨b, hb, h⟩
  exact hf a b hb ▸ h

theorem inverse_of_ne {f : α → V} {v : V} (h : ∀ a, v ≠ f a) :
    (inverse f v : Behaviour V S α) = stuck :=
  ext fun _ _ _ _ => ⟨fun ⟨a, ha, _⟩ => h a ha, fun h => h.elim⟩

theorem stuck_bind (f : α → Behaviour V S β) : (stuck : Behaviour V S α) >>= f = stuck := by
  refine ext fun s calls r s' => ⟨?_, fun h => h.elim⟩
  rintro (⟨_, _, _, _, h, -, -⟩ | ⟨_, h, -⟩) <;> exact h

end Behaviour

/-! ### Hidden variables -/

namespace Env
variable {V : Type} (keep : List String)

/-- The variables with these names only. -/
def hide (env : Env V) : Env V := env.filter (·.1 ∈ keep)

theorem hide_append (env env' : Env V) : hide keep (env ++ env') = hide keep env ++ hide keep env' :=
  List.filter_append ..

theorem names_hide (env : Env V) : (env.hide keep).names = env.names.filter (· ∈ keep) := by
  rw [hide, names, names, List.filter_map]
  rfl

variable {keep}

theorem hide_of_names {env : Env V} (h : ∀ n ∈ env.names, n ∈ keep) : env.hide keep = env :=
  List.filter_eq_self.mpr fun b hb => decide_eq_true (h b.1 (List.mem_map_of_mem hb))

theorem hide_cons_of_mem {b : String × V} (h : b.1 ∈ keep) (env : Env V) :
    hide keep (b :: env) = b :: hide keep env := by
  simp [hide, h]

theorem hide_cons_of_notMem {b : String × V} (h : b.1 ∉ keep) (env : Env V) :
    hide keep (b :: env) = hide keep env := by
  simp [hide, h]

theorem get_hide {n : String} (h : n ∈ keep) (env : Env V) : (env.hide keep).get n = env.get n := by
  induction env with
  | nil => rfl
  | cons b env ih =>
    by_cases hb : b.1 ∈ keep
    · rw [hide_cons_of_mem hb, get, get, ih]
    · have hne : b.1 ≠ n := fun heq => hb (heq ▸ h)
      rw [hide_cons_of_notMem hb, ih, get, if_neg hne]

theorem set_hide {n : String} (h : n ∈ keep) (v : V) (env : Env V) :
    (env.hide keep).set n v = (env.set n v).hide keep := by
  induction env with
  | nil => rfl
  | cons b env ih =>
    by_cases hb : b.1 ∈ keep
    · rw [hide_cons_of_mem hb, set, set]
      split
      case isTrue => rw [hide_cons_of_mem h]
      case isFalse => rw [hide_cons_of_mem hb, ih]
    · have hne : b.1 ≠ n := fun heq => hb (heq ▸ h)
      rw [hide_cons_of_notMem hb, ih, set, if_neg hne, hide_cons_of_notMem hb]

theorem setAll_hide {bindings : Env V} (h : ∀ n ∈ bindings.names, n ∈ keep) (env : Env V) :
    (env.hide keep).setAll bindings = (env.setAll bindings).hide keep := by
  unfold setAll
  induction bindings generalizing env with
  | nil => rfl
  | cons b bindings ih =>
    obtain ⟨hb, h⟩ := List.forall_mem_cons.mp h
    rw [List.foldl_cons, List.foldl_cons, set_hide hb, ih h]

/-- Leaving a scope hides with it what was hidden inside. -/
theorem leave_hide {env inner : Env V} (h : env.names <:+ inner.names) :
    (env.hide keep).leave (inner.hide keep) = (env.leave inner).hide keep := by
  have hhidden : ((env.leave inner).hide keep).length = (env.hide keep).length := by
    have hnames := congrArg (List.filter (· ∈ keep)) (names_leave h)
    rw [← names_hide, ← names_hide] at hnames
    simpa [names] using congrArg List.length hnames
  have hsplit : inner.hide keep =
      (Env.hide keep (inner.take (inner.length - env.length))) ++ (env.leave inner).hide keep := by
    rw [leave, ← hide_append, List.take_append_drop]
  rw [leave, hsplit, List.length_append, hhidden, Nat.add_sub_cancel, List.drop_left]

theorem get_map_names (f : String → V) (ns : List String) (n : String) :
    Env.get (ns.map fun m => (m, f m)) n = if n ∈ ns then some (f n) else none := by
  induction ns with
  | nil => rfl
  | cons m ns ih =>
    rw [List.map_cons, get, ih]
    by_cases hm : m = n
    · simp [hm]
    · simp [hm, Ne.symm hm]

theorem mem_names_iff {env : Env V} {n : String} : n ∈ env.names ↔ ∃ v, env.get n = some v := by
  induction env with
  | nil => simp [names, get]
  | cons b env ih =>
    change n ∈ b.1 :: names env ↔ _
    rw [List.mem_cons, ih, get]
    by_cases hb : b.1 = n
    · simp [hb]
    · simp [hb, Ne.symm hb]

end Env

mutual
theorem Expr.names_pattern {n : String} :
    (e : Expr) → n ∈ e.pattern.names → .ofVariable n ∈ e.identifiers
  | ⟨kind, _⟩, h => kind.names_pattern h
theorem ExprKind.names_pattern {n : String} :
    (k : ExprKind) → n ∈ k.pattern.names → .ofVariable n ∈ k.identifiers
  | .name (.ofVariable m) _, h => by
    obtain rfl := List.mem_singleton.mp h
    exact List.mem_singleton_self _
  | .tuple items, h => Expr.namesList_patterns items h
theorem Expr.namesList_patterns {n : String} : (es : List Expr) →
    n ∈ SymbolTuple.namesList (Expr.patterns es) → .ofVariable n ∈ Expr.identifiersList es
  | e :: es, h => List.mem_append.mpr
      ((List.mem_append.mp h).imp e.names_pattern (Expr.namesList_patterns es))
end

/-- The second environment may have more variables, but none that `keep` has. -/
def Env.Hides {V : Type} (keep visible : List String) (env env' : Env V) : Prop :=
  env = env'.hide keep ∧ env.names = visible

namespace Env.Hides
variable {V : Type} {keep visible more : List String} {env env' inner inner' bindings : Env V}

theorem push (h : Hides keep visible env env') (hkeep : ∀ n ∈ bindings.names, n ∈ keep) :
    Hides keep (bindings.names ++ visible) (bindings ++ env) (bindings ++ env') := by
  refine ⟨by rw [h.1, Env.hide_append, Env.hide_of_names hkeep], ?_⟩
  rw [← h.2]
  exact List.map_append

theorem update (h : Hides keep visible env env') (hkeep : ∀ n ∈ bindings.names, n ∈ keep) :
    Hides keep visible (env.setAll bindings) (env'.setAll bindings) :=
  ⟨by rw [h.1, Env.setAll_hide hkeep], by rw [Env.names_setAll, h.2]⟩

theorem leave (h : Hides keep visible env env') (hinner : Hides keep more inner inner')
    (hleft : env.names <:+ inner.names) (hright : env'.names <:+ inner'.names) :
    Hides keep visible (env.leave inner) (env'.leave inner') :=
  ⟨by rw [h.1, hinner.1, Env.leave_hide hright], by rw [Env.names_leave hleft, h.2]⟩

end Env.Hides

section
variable {V S : Type} (E : Evaluator V S) (keep : List String) (N : Call V S → Prop)

theorem Env.Hides.eval {keep visible : List String} {env env' : Env V} {e : Expr}
    (h : Env.Hides keep visible env env') (he : ∀ n, .ofVariable n ∈ e.identifiers → n ∈ keep) :
    E.eval env.get e = E.eval env'.get e := by
  rw [h.1]
  exact E.eval_locals _ _ e fun n hn => Env.get_hide (he n hn) env'

theorem Passage.all_same (v : V) : (Passage.all N).Same v v := ⟨rfl, trivial⟩

theorem Expr.names_pattern_bind {lhs : Expr} {v : V} {bindings : Env V}
    (hlhs : ∀ n, .ofVariable n ∈ lhs.identifiers → n ∈ keep)
    (h : lhs.pattern.bind E.toValues v = some bindings) : ∀ n ∈ bindings.names, n ∈ keep := by
  rw [lhs.pattern.names_bind E.toValues h]
  exact fun n hn => hlhs n (lhs.names_pattern hn)

/-- Only names of `keep` are recorded, referred to and introduced. -/
def Rules.kept : Rules where
  scope _ s := ∀ v ∈ s.known, v.name ∈ keep
  expr _ e := ∀ n, .ofVariable n ∈ e.identifiers → n ∈ keep
  symbols ns := ∀ n ∈ ns, n ∈ keep

/-- From a body to the one with hidden variables. -/
def Tracking.hiding : Tracking E where
  toPassage := .all N
  Rel := Env.Hides keep
  expr e := ∀ n, .ofVariable n ∈ e.identifiers → n ∈ keep
  symbols ns := ∀ n ∈ ns, n ∈ keep
  eval h he := h.eval E he ▸ .refl (Passage.all_same N) _
  push h hkeep _ := h.push hkeep
  update h hlhs _ hbind := h.update (Expr.names_pattern_bind E keep hlhs hbind)
  leave h hinner hleft hright := h.leave hinner hleft hright
  spread _ _ _ _ _ _ _ := trivial
  elements _ _ _ _ _ _ := trivial
  acquire _ _ _ _ := .refl (Passage.all_same N) _
  release _ _ _ := .refl (fun _ => trivial) _

/-- Back from the one with hidden variables. -/
def Tracking.showing : Tracking E where
  toPassage := .all N
  Rel visible env env' := Env.Hides keep visible env' env
  expr e := ∀ n, .ofVariable n ∈ e.identifiers → n ∈ keep
  symbols ns := ∀ n ∈ ns, n ∈ keep
  eval h he := h.eval E he ▸ .refl (Passage.all_same N) _
  push h hkeep _ := h.push hkeep
  update h hlhs _ hbind := h.update (Expr.names_pattern_bind E keep hlhs hbind)
  leave h hinner hleft hright := h.leave hinner hright hleft
  spread _ _ _ _ _ _ _ := trivial
  elements _ _ _ _ _ _ := trivial
  acquire _ _ _ _ := .refl (Passage.all_same N) _
  release _ _ _ := .refl (fun _ => trivial) _

/-- `f` and `g` can do the same, where `g` has hidden variables. -/
def Mirrors (visible more : List String) (f g : Env V → Behaviour V S (Flow V)) : Prop :=
  (Tracking.hiding E keep N).Keeps visible more f g ∧ (Tracking.showing E keep N).Keeps visible more g f

/-- The second environment has hidden variables ahead of the first. -/
def Env.Grown (env env' : Env V) : Prop := ∃ hidden, env' = hidden ++ env ∧ Env.hide keep hidden = []

/-- Where `f` runs, `g` may run as well: it does the same and may add hidden variables. -/
def Replaces (visible : List String) (f g : Env V → Behaviour V S (Flow V)) : Prop :=
  ∀ env env', Env.Hides keep visible env env' →
    Behaviour.Sim (.all N) ((Passage.all N).FlowRel (Env.Grown keep)) (f env') (g env') ∧
    Behaviour.Sim (.all N) ((Passage.all N).FlowRel fun b a => Env.Grown keep a b) (g env') (f env')

/-- On both sides the rules for statements are the same. -/
theorem Rules.kept_relaxes :
    (Rules.kept keep).Relaxes (Tracking.hiding E keep N).rules ∧
      (Rules.kept keep).Relaxes (Tracking.showing E keep N).rules :=
  ⟨⟨fun _ _ _ _ _ => trivial, fun _ _ _ _ he => he, fun _ h => h⟩,
    ⟨fun _ _ _ _ _ => trivial, fun _ _ _ _ he => he, fun _ h => h⟩⟩

variable {E keep N} {visible more : List String} {f g h : Env V → Behaviour V S (Flow V)}

theorem Env.Grown.refl (env : Env V) : Env.Grown keep env env := ⟨[], rfl, rfl⟩

theorem Env.Hides.grow {env env' env'' : Env V} (h : Env.Hides keep visible env env')
    (hgrown : Env.Grown keep env' env'') : Env.Hides keep visible env env'' := by
  obtain ⟨hidden, rfl, hhidden⟩ := hgrown
  refine ⟨?_, h.2⟩
  rw [Env.hide_append, hhidden, List.nil_append, h.1]

theorem Env.Grown.suffix {env env' : Env V} (h : Env.Grown keep env env') :
    env.names <:+ env'.names := by
  obtain ⟨hidden, rfl, -⟩ := h
  exact Env.names_suffix_append hidden env

/-- What behaves the same in every environment may replace. -/
theorem Replaces.of_equiv
    (h : ∀ env env', Env.Hides keep visible env env' → Behaviour.Equiv N (f env') (g env')) :
    Replaces keep N visible f g := by
  have hrefl : ∀ flow : Flow V, (Passage.all N).FlowRel (Env.Grown keep) flow flow := fun flow => by
    cases flow with
    | next env => exact .refl env
    | returned v => exact ⟨rfl, trivial⟩
  have hrefl' : ∀ flow : Flow V,
      (Passage.all N).FlowRel (fun b a => Env.Grown keep a b) flow flow := fun flow => by
    cases flow with
    | next env => exact .refl env
    | returned v => exact ⟨rfl, trivial⟩
  intro env env' henv
  obtain ⟨hfg, hgf⟩ := h env env' henv
  exact ⟨hfg.mono fun a b hab => hab ▸ hrefl a, hgf.mono fun a b hab => hab ▸ hrefl' a⟩

/-- The replacement of a part that mirrors something mirrors it. -/
theorem Mirrors.replace (hfg : Mirrors E keep N visible more f g) (hgh : Replaces keep N visible g h) :
    Mirrors E keep N visible more f h := by
  refine ⟨fun env env' hrel => ?_, fun env' env hrel => ?_⟩
  · refine ((hfg.1 env env' hrel).trans (hgh env env' hrel).1).mono fun a c ⟨b, hab, hbc⟩ => ?_
    cases a <;> cases b <;> cases c <;> first
      | exact ⟨hab.rel.grow hbc, hab.left, hab.right.trans hbc.suffix⟩
      | exact hab.elim
      | exact hbc.elim
      | exact ⟨hab.1.trans hbc.1, trivial⟩
  · refine ((hgh env env' hrel).2.trans (hfg.2 env' env hrel)).mono fun a c ⟨b, hab, hbc⟩ => ?_
    cases a <;> cases b <;> cases c <;> first
      | exact ⟨hbc.rel.grow hab, hbc.left.trans hab.suffix, hbc.right⟩
      | exact hab.elim
      | exact hbc.elim
      | exact ⟨hab.1.trans hbc.1, trivial⟩

theorem Env.leave_eq_self {env inner : Env V} (h : inner.names = env.names) :
    env.leave inner = inner := by
  have hlength := congrArg List.length h
  simp only [Env.names, List.length_map] at hlength
  rw [Env.leave, hlength, Nat.sub_self, List.drop_zero]

/-- A part that makes no variable visible may run in a scope of its own. -/
theorem Mirrors.within_right (hfg : Mirrors E keep N visible visible f g) :
    Mirrors E keep N visible visible f fun env => .within env (g env) := by
  refine ⟨fun env env' hrel => ?_, fun env' env hrel => ?_⟩
  · rw [← id_map (f env)]
    refine (hfg.1 env env' hrel).map fun a b hab => ?_
    cases a <;> cases b
    · have hleave := Tracking.After.leave hrel hab
      rwa [Env.leave_eq_self (hab.rel.2.trans hrel.2.symm)] at hleave
    all_goals exact hab
  · rw [← id_map (f env)]
    refine (hfg.2 env' env hrel).map fun b a hab => ?_
    cases a <;> cases b
    · have hleave := Tracking.After.leave hrel hab
      rwa [Env.leave_eq_self (hab.rel.2.trans hrel.2.symm)] at hleave
    all_goals exact hab

end

end OutcomeControl
