import OutcomeControl.Proofs.Confinement
import OutcomeControl.Proofs.Refinement

/-! Lowering keeps what a program does.

A lowered program calls operations that the program does not have, but nobody else can call them:
their names are new. So a call counts as clean when neither its callee nor its argument gives access
to one of them, and `Compilation.lower_meaning` says that clean calls are answered alike before and
after. Evaluation must not make these names up (`Evaluator.KeepsTo`), since it could tell the two
programs apart by them; all other callables it may get from wherever it likes. From the program to the
lowered one the proof is by induction on the run. For the other direction clean calls are answered as
before and all others as after (`Blend`), until no clean call is left to be looked at. -/

namespace OutcomeControl

/-! ### Which body answers -/

theorem rel_bind {α β γ δ : Type} {R : α → β → Prop} {Q : γ → δ → Prop} {x : Option α} {y : Option β}
    {f : α → Option γ} {g : β → Option δ} (h : Option.Rel R x y)
    (hfg : ∀ a b, R a b → Option.Rel Q (f a) (g b)) : Option.Rel Q (x.bind f) (y.bind g) := by
  cases h with
  | some hab => exact hfg _ _ hab
  | none => exact .none

theorem rel_or {α β : Type} {R : α → β → Prop} {x x' : Option α} {y y' : Option β}
    (h : Option.Rel R x y) (h' : Option.Rel R x' y') : Option.Rel R (x.or x') (y.or y') := by
  cases h with
  | some hab => exact .some hab
  | none => exact h'

section
variable {V S : Type} (E : Evaluator V S) (primitives : Primitives) (keep : List String)
  (N : Call V S → Prop)

/-- The same parameters, and the statements that lowering made of a body while all was fit. -/
def LowersTo : Params × Scope → Params × Scope → Prop
  | (params, scope), (params', scope') =>
    params' = params ∧ ∃ frame p, scope' = ((scope.lower primitives frame).run p).1 ∧
      ((scope.lower primitives frame).run p).2.Fits E primitives keep N

/-- Neither callable has statements, or those of the second come from those of the first. -/
def Callable.LowersTo (d d' : Callable) : Prop :=
  Option.Rel (OutcomeControl.LowersTo E primitives keep N) d.provided? d'.provided?

variable {E primitives keep N}

theorem Chain.lowersTo_body {frame : Frame} {ss ss' : List Specialization} {p q : Progress}
    (h : Chain (fun s p b q => (Specialization.lower primitives frame s).run p = (b, q)) ss p ss' q)
    (hfits : q.Fits E primitives keep N) :
    Option.Rel (LowersTo E primitives keep N)
      ((ss.find? (·.kind = .body)).bind (·.implementation.provided?))
      ((ss'.find? (·.kind = .body)).bind (·.implementation.provided?)) := by
  induction h with
  | nil p => exact .none
  | @cons s ss b bs p q r hrun hrest ih =>
    have hleads : q.Leads r := (hrest.run (S := fun _ p _ q => p.Leads q)
      (Specialization.lower_leads primitives frame)).preorder .refl (fun _ _ _ => .trans)
        fun _ _ _ _ h => h
    obtain ⟨params, scope, hkind, himpl, heq⟩ | ⟨hnone, heq⟩ := s.lower_cases primitives frame p
    · obtain ⟨rfl, rfl⟩ := Prod.mk.inj (heq.symm.trans hrun)
      rw [List.find?_cons_of_pos (by simpa using hkind), List.find?_cons_of_pos (by simpa using hkind),
        Option.bind_some, Option.bind_some, himpl]
      exact .some ⟨rfl, frame, p, rfl, hfits.of_leads hleads⟩
    · obtain ⟨rfl, rfl⟩ := Prod.mk.inj (heq.symm.trans hrun)
      by_cases hkind : s.kind = .body
      · rw [List.find?_cons_of_pos (by simpa using hkind), List.find?_cons_of_pos (by simpa using hkind)]
        have hprovided : s.implementation.provided? = none := by
          cases himpl : s.implementation with
          | provided params scope => exact absurd himpl (hnone params scope hkind)
          | _ => rfl
        rw [Option.bind_some, hprovided]
        exact .none
      · rw [List.find?_cons_of_neg (by simpa using hkind), List.find?_cons_of_neg (by simpa using hkind)]
        exact ih hfits

/-- Lowered elements are found under the same names. -/
theorem Chain.lowersTo_callable {es es' : List Element} {p q : Progress}
    (h : Chain (fun e p b q => (Element.lower primitives e).run p = (b, q)) es p es' q)
    (hfits : q.Fits E primitives keep N) (name : QualifiedName) :
    Option.Rel (Callable.LowersTo E primitives keep N)
      ((es.filterMap Element.callable?).find? (·.name = name))
      ((es'.filterMap Element.callable?).find? (·.name = name)) := by
  induction h with
  | nil p => exact .none
  | @cons e es b bs p q r hrun hrest ih =>
    have hleads : q.Leads r := (hrest.run (S := fun _ p _ q => p.Leads q)
      (Element.lower_leads primitives)).preorder .refl (fun _ _ _ => .trans) fun _ _ _ _ h => h
    cases e with
    | customType t =>
      obtain ⟨rfl, rfl⟩ := Prod.mk.inj hrun
      exact ih hfits
    | callable d =>
      rw [Element.lower_callable_run] at hrun
      obtain ⟨rfl, rfl⟩ := Prod.mk.inj hrun
      simp only [List.filterMap_cons, Element.callable?]
      by_cases hname : d.name = name
      · rw [List.find?_cons_of_pos (by simpa using hname), List.find?_cons_of_pos (by simpa using hname)]
        exact .some ((Chain.mapM _ _ p).lowersTo_body (hfits.of_leads hleads))
      · rw [List.find?_cons_of_neg (by simpa using hname), List.find?_cons_of_neg (by simpa using hname)]
        exact ih hfits

theorem Namespace.callables_append (ns : Namespace) (es : List Element) (ds : List Callable) :
    Namespace.callables { ns with elements := es ++ ds.map .callable } =
      es.filterMap Element.callable? ++ ds := by
  rw [Namespace.callables, List.filterMap_append, List.filterMap_map]
  congr 1
  exact List.filterMap_some

theorem Namespace.lower_lowersTo (names : NameSupply) (ns : Namespace)
    (hreserved : names.reserved = keep) (hissued : (ns.lower primitives names).names.issued < 2 ^ 32)
    (hlinked : ∀ d ∈ (ns.lower primitives names).result.callables,
      d.name ∈ (ns.lower primitives names).report.filterMap Event.target? → Linked E primitives N d)
    {name : QualifiedName}
    (hname : name ∉ (ns.lower primitives names).report.filterMap Event.target?) :
    Option.Rel (Callable.LowersTo E primitives keep N) (ns.callables.find? (·.name = name))
      ((ns.lower primitives names).result.callables.find? (·.name = name)) := by
  obtain ⟨elements, p, hchain, -, htells, hresult, hsupply, htargets, -⟩ :=
    ns.lower_tells primitives names
  rw [hresult, htargets, ns.callables_append] at hlinked
  rw [htargets] at hname
  rw [hsupply] at hissued
  have hfits : p.Fits E primitives keep N := ⟨htells.leads.reserved.trans hreserved, hissued,
    fun op hop => hlinked op (List.mem_append_right _ hop) (List.mem_map_of_mem hop)⟩
  have hhoisted : p.hoisted.find? (·.name = name) = none := by
    refine List.find?_eq_none.mpr fun d hd heq => hname ?_
    exact List.mem_map.mpr ⟨d, hd, of_decide_eq_true heq⟩
  rw [hresult, ns.callables_append, List.find?_append, hhoisted, Option.or_none]
  exact hchain.lowersTo_callable hfits name

theorem Namespace.lowerAll_lowersTo (names : NameSupply) (nss : List Namespace)
    (hreserved : names.reserved = keep)
    (hissued : (Namespace.lowerAll primitives names nss).names.issued < 2 ^ 32)
    (hlinked : ∀ d ∈ (Namespace.lowerAll primitives names nss).result.flatMap Namespace.callables,
      d.name ∈ (Namespace.lowerAll primitives names nss).report.filterMap Event.target? →
        Linked E primitives N d) {name : QualifiedName}
    (hname : name ∉ (Namespace.lowerAll primitives names nss).report.filterMap Event.target?) :
    Option.Rel (Callable.LowersTo E primitives keep N)
      ((nss.flatMap Namespace.callables).find? (·.name = name))
      (((Namespace.lowerAll primitives names nss).result.flatMap Namespace.callables).find?
        (·.name = name)) := by
  induction nss generalizing names with
  | nil => exact .none
  | cons ns nss ih =>
    have hfirst := ns.lower_accounts primitives names
    have hothers := Namespace.lowerAll_accounts primitives (ns.lower primitives names).names nss
    rw [Namespace.lowerAll] at hissued hlinked hname ⊢
    rw [List.filterMap_append] at hlinked hname
    rw [List.flatMap_cons] at hlinked
    rw [List.flatMap_cons, List.flatMap_cons, List.find?_append, List.find?_append]
    refine rel_or (ns.lower_lowersTo names hreserved (hothers.issued.trans_lt hissued) ?_ ?_)
      (ih _ ?_ hissued ?_ ?_)
    · exact fun d hd hmem => hlinked d (List.mem_append_left _ hd) (List.mem_append_left _ hmem)
    · exact fun hmem => hname (List.mem_append_left _ hmem)
    · rw [hfirst.supply, hreserved]
    · exact fun d hd hmem => hlinked d (List.mem_append_right _ hd) (List.mem_append_right _ hmem)
    · exact fun hmem => hname (List.mem_append_right _ hmem)

end

/-- A callable of a lowered program was there under its name, or it was made of a block. -/
theorem Namespace.lowerAll_callables (primitives : Primitives) (names : NameSupply)
    (nss : List Namespace) :
    ∀ d ∈ (Namespace.lowerAll primitives names nss).result.flatMap Namespace.callables,
      (∃ b ∈ nss.flatMap Namespace.callables, b.name = d.name) ∨
        ∃ frame : Frame, frame.Makes d := by
  induction nss generalizing names with
  | nil => exact fun d hd => (by cases hd)
  | cons ns nss ih =>
    obtain ⟨elements, p, hchain, hmakes, -, hresult, -⟩ := ns.lower_tells primitives names
    rw [Namespace.lowerAll, List.flatMap_cons, List.flatMap_cons, hresult, ns.callables_append,
      List.append_assoc]
    refine List.forall_mem_append.mpr ⟨fun d hd => .inl ?_, List.forall_mem_append.mpr
      ⟨fun d hd => .inr (hmakes d hd), fun d hd => ?_⟩⟩
    · obtain ⟨e, he, hd⟩ := List.mem_filterMap.mp hd
      obtain ⟨e', he', p, q, hrun⟩ := hchain.of_mem he
      cases e' with
      | customType t =>
        obtain ⟨rfl, -⟩ := Prod.mk.inj hrun
        cases hd
      | callable b =>
        rw [Element.lower_callable_run] at hrun
        obtain ⟨rfl, -⟩ := Prod.mk.inj hrun
        obtain rfl := Option.some.inj hd
        exact ⟨b, List.mem_append_left _ (List.mem_filterMap.mpr ⟨_, he', rfl⟩), rfl⟩
    · refine (ih _ d hd).imp (fun ⟨b, hb, hname⟩ => ?_) id
      exact ⟨b, List.mem_append_right _ hb, hname⟩

section
variable {c : Compilation} {options : Options}

theorem Compilation.mentions_callable {d : Callable}
    (hd : d ∈ c.namespaces.flatMap Namespace.callables) {n : String} (hn : d.Mentions n) :
    c.Mentions n := by
  obtain ⟨ns, hns, hd⟩ := List.mem_flatMap.mp hd
  obtain ⟨e, he, hd⟩ := List.mem_filterMap.mp hd
  cases e with
  | customType t => cases hd
  | callable b =>
    obtain rfl := Option.some.inj hd
    exact .callable hns he hn

/-- Items that were added under new names of their own can be told by their names. -/
theorem eq_of_perm_append {α β : Type} [DecidableEq β] {f : α → β} {items : List α}
    {old added : List β} (h : (items.map f).Perm (old ++ added)) (hnodup : added.Nodup)
    (hdisjoint : ∀ b ∈ old, b ∉ added) {x y : α} (hx : x ∈ items) (hy : y ∈ items)
    (hmem : f y ∈ added) (heq : f x = f y) : x = y := by
  have hold : old.filter (· ∈ added) = [] :=
    List.filter_eq_nil_iff.mpr fun b hb => by simpa using hdisjoint b hb
  have hadded : added.filter (· ∈ added) = added :=
    List.filter_eq_self.mpr fun b hb => decide_eq_true hb
  have hfilter := h.filter (· ∈ added)
  rw [List.filter_append, hold, hadded, List.nil_append, List.filter_map] at hfilter
  have hfound : ∀ z ∈ items, f z ∈ added → z ∈ items.filter ((· ∈ added) ∘ f) :=
    fun z hz hmem => List.mem_filter.mpr ⟨hz, decide_eq_true hmem⟩
  exact List.inj_on_of_nodup_map (hfilter.nodup_iff.mpr hnodup) (hfound x hx (heq ▸ hmem))
    (hfound y hy hmem) heq

/-- No two callables of a lowered program have the name of an operation that was made. -/
theorem Compilation.lower_unique (hissued : (c.lower options).names.issued < 2 ^ 32) {d op : Callable}
    (hd : d ∈ (c.lower options).result.namespaces.flatMap Namespace.callables)
    (hop : op ∈ (c.lower options).result.namespaces.flatMap Namespace.callables)
    (hname : op.name ∈ (c.lower options).targets) (heq : d.name = op.name) : d = op := by
  have haccounts := Namespace.lowerAll_accounts options.primitives
    (.forCompilation c options.settings) c.namespaces
  have hnames : ∀ nss : List Namespace, (nss.flatMap Namespace.callables).map (·.name) =
      nss.flatMap Namespace.callableNames := fun nss => by
    rw [List.map_flatMap]
    exact congrArg (List.flatMap · nss) (funext Namespace.map_name_callables)
  refine eq_of_perm_append (f := (·.name)) ((hnames _).symm ▸ haccounts.callables)
    ((haccounts.callableDraws hissued).nodup.of_map _) (fun q hq => ?_) hd hop hname heq
  rw [← hnames] at hq
  obtain ⟨b, hb, rfl⟩ := List.mem_map.mp hq
  exact Compilation.lower_targets hissued
    ((Compilation.mentions_callable hb (.name rfl)).mem_reserved options.settings)

end

/-! ### What a callable does, before and after -/

mutual
theorem Params.names_pattern : (ps : Params) → ps.pattern.names = ps.names
  | .item ⟨.valid _, _, _, _, _⟩ => rfl
  | .item ⟨.invalid, _, _, _, _⟩ => rfl
  | .tuple items => Params.namesList_patterns items
theorem Params.namesList_patterns :
    (ps : List Params) → SymbolTuple.namesList (Params.patterns ps) = Params.namesList ps
  | [] => rfl
  | p :: ps => by
    rw [Params.patterns, SymbolTuple.namesList, Params.namesList, p.names_pattern,
      Params.namesList_patterns ps]
end

section
variable {V S : Type} {E : Evaluator V S} {c : Compilation} {options : Options}
  {N : Call V S → Prop}

theorem Evaluator.invoke_equiv {keep more : List String} {params : Params} {scope scope' : Scope}
    (hparams : ∀ n ∈ params.names, n ∈ keep)
    (h : Mirrors E keep N params.names more (scope.run E) (scope'.run E)) (a : V) :
    Behaviour.Equiv N (E.invoke params scope a) (E.invoke params scope' a) := by
  have hbind : Behaviour.Sim (.all N)
      (fun bs cs => bs = cs ∧ Env.Hides keep params.names bs bs)
      (.ofOption (params.pattern.bind E.toValues a)) (.ofOption (params.pattern.bind E.toValues a)) := by
    refine .ofOption fun bs hbs => ⟨rfl, ?_⟩
    have hnames : bs.names = params.names := by
      rw [params.pattern.names_bind E.toValues hbs, params.names_pattern]
    exact ⟨(Env.hide_of_names (hnames ▸ hparams)).symm, hnames⟩
  constructor <;> refine hbind.bind fun env env' henv => ?_ <;> obtain ⟨rfl, henv⟩ := henv
  · exact (h.1 env env henv).bind fun _ _ hflow =>
      .follow hflow (fun _ _ _ => .pure rfl) fun _ _ hvw => hvw.1
  · exact (h.2 env env henv).bind fun _ _ hflow =>
      .follow hflow (fun _ _ _ => .pure rfl) fun _ _ hvw => hvw.1

theorem Compilation.of_body? {q : QualifiedName} {params : Params} {scope : Scope}
    (h : c.body? q = some (params, scope)) :
    ∃ ns ∈ c.namespaces, ∃ d, .callable d ∈ ns.elements ∧ ∃ s ∈ d.specializations,
      s.implementation = .provided params scope := by
  obtain ⟨d, hd, h⟩ := Option.bind_eq_some_iff.mp h
  obtain ⟨s, hs, h⟩ := Option.bind_eq_some_iff.mp h
  obtain ⟨ns, hns, hd⟩ := List.mem_flatMap.mp (List.mem_of_find?_eq_some hd)
  obtain ⟨e, he, hd⟩ := List.mem_filterMap.mp hd
  refine ⟨ns, hns, d, ?_, s, List.mem_of_find?_eq_some hs, ?_⟩
  · cases e with
    | customType t => cases hd
    | callable b => exact Option.some.inj hd ▸ he
  · cases himpl : s.implementation with
    | provided params' scope' =>
      rw [himpl] at h
      cases h
      rfl
    | _ => rw [himpl] at h; cases h

/-- A body mentions what the program mentions. -/
theorem Compilation.mentions_of_body? {q : QualifiedName} {params : Params} {scope : Scope}
    (h : c.body? q = some (params, scope)) {n : String} (hn : n ∈ params.names ∨ scope.Mentions n) :
    c.Mentions n := by
  obtain ⟨ns, hns, d, hd, s, hs, himpl⟩ := Compilation.of_body? h
  refine .callable hns hd (.specialization hs ?_)
  exact hn.elim (fun hn => .params himpl (.inl hn)) (.scope himpl)

theorem Evaluator.code_primitive {primitives : Primitives}
    (hdistinct : primitives.zero.name ≠ primitives.one.name) (c : Compilation) (o : Outcome) (a : V) :
    E.code primitives c (primitives.forOutcome o).name a = E.applyIf o a := by
  cases o with
  | zero => exact if_pos rfl
  | one => exact (if_neg hdistinct.symm).trans (if_pos rfl)

/-- The call of a new operation runs its block. -/
theorem Compilation.lower_body?_target (hissued : (c.lower options).names.issued < 2 ^ 32)
    {op : Callable} (hop : op ∈ (c.lower options).result.namespaces.flatMap Namespace.callables)
    (hname : op.name ∈ (c.lower options).targets) {s : Specialization} (hs : s ∈ op.specializations)
    {params : Params} {scope : Scope} (himpl : s.implementation = .provided params scope) :
    (c.lower options).result.body? op.name = some (params, scope) := by
  have hfind : ((c.lower options).result.namespaces.flatMap Namespace.callables).find?
      (·.name = op.name) = some op := by
    obtain ⟨d, hfound⟩ := Option.isSome_iff_exists.mp
      (List.find?_isSome (p := fun d => decide (d.name = op.name)).mpr ⟨op, hop, by simp⟩)
    have hd : d.name = op.name := by simpa using List.find?_some hfound
    rw [hfound, Compilation.lower_unique hissued (List.mem_of_find?_eq_some hfound) hop hname hd]
  obtain ⟨d, hd, hold⟩ | ⟨frame, name, body, comments, -, rfl⟩ :=
    Namespace.lowerAll_callables _ _ _ op hop
  · have hmentions := Compilation.mentions_callable hd (.name rfl)
    exact absurd (hold ▸ hname)
      (Compilation.lower_targets hissued (hmentions.mem_reserved options.settings))
  · obtain rfl := List.mem_singleton.mp hs
    rw [Compilation.body?, hfind]
    cases himpl
    rfl

/-- Where unclean calls are answered by the lowered program, its new operations are linked. -/
theorem Compilation.lower_linked
    (hdistinct : options.primitives.zero.name ≠ options.primitives.one.name)
    (hprimitives : ∀ o, (options.primitives.forOutcome o).name ∉ (c.lower options).targets)
    (hissued : (c.lower options).names.issued < 2 ^ 32)
    (hN : ∀ q a, ¬ (q ∉ (c.lower options).targets ∧ E.Within (· ∉ (c.lower options).targets) a) →
      Behaviour.Equiv N (.call q a) (E.code options.primitives (c.lower options).result q a))
    {op : Callable} (hop : op ∈ (c.lower options).result.namespaces.flatMap Namespace.callables)
    (hname : op.name ∈ (c.lower options).targets) : Linked E options.primitives N op := by
  constructor
  · intro o v b
    rw [← E.code_primitive hdistinct (c.lower options).result]
    refine hN _ _ fun hclean => ?_
    have hpair := hclean.2.of_pack _ (List.mem_cons_of_mem _ (List.mem_singleton_self _))
    exact (hpair.of_pack _ (List.mem_cons_self ..)).of_callable hname
  · intro s hs params scope himpl b
    have hcode : E.code options.primitives (c.lower options).result op.name b =
        E.invoke params scope b := by
      have hzero : op.name ≠ options.primitives.zero.name := fun heq =>
        hprimitives .zero (heq ▸ hname)
      have hone : op.name ≠ options.primitives.one.name := fun heq => hprimitives .one (heq ▸ hname)
      rw [Evaluator.code, if_neg hzero, if_neg hone,
        Compilation.lower_body?_target hissued hop hname hs himpl]
    rw [← hcode]
    exact hN _ _ fun hclean => hclean.1 hname

theorem Rules.kept_allows (keep : List String) : (Rules.kept keep).Allows (· ∈ keep) :=
  ⟨fun _ _ h => h, fun _ e h n hn => h n (e.mentions_of_mem rfl hn), fun _ h => h⟩

/-- A callable that was there does the same before and after. -/
theorem Evaluator.code_equiv (hrecords : c.Meets .records)
    (hdistinct : options.primitives.zero.name ≠ options.primitives.one.name)
    (hprimitives : ∀ o, (options.primitives.forOutcome o).name ∉ (c.lower options).targets)
    (hissued : (c.lower options).names.issued < 2 ^ 32)
    (hN : ∀ q a, ¬ (q ∉ (c.lower options).targets ∧ E.Within (· ∉ (c.lower options).targets) a) →
      Behaviour.Equiv N (.call q a) (E.code options.primitives (c.lower options).result q a))
    {q : QualifiedName} (hq : q ∉ (c.lower options).targets) (a : V) :
    Behaviour.Equiv N (E.code options.primitives c q a)
      (E.code options.primitives (c.lower options).result q a) := by
  let keep := (NameSupply.forCompilation c options.settings).reserved
  have hbody : Option.Rel (LowersTo E options.primitives keep N) (c.body? q)
      ((c.lower options).result.body? q) :=
    rel_bind (Namespace.lowerAll_lowersTo _ c.namespaces rfl hissued
      (fun op hop hname => Compilation.lower_linked hdistinct hprimitives hissued hN hop hname) hq)
      fun _ _ h => h
  rw [Evaluator.code, Evaluator.code]
  split
  · exact .of_eq rfl
  split
  · exact .of_eq rfl
  cases hbefore : c.body? q with
  | none =>
    rw [hbefore] at hbody
    generalize (c.lower options).result.body? q = after at hbody
    cases hbody
    exact .of_eq rfl
  | some x =>
    obtain ⟨params, scope⟩ := x
    rw [hbefore] at hbody
    generalize (c.lower options).result.body? q = after at hbody
    cases hbody with
    | @some _ x' hx =>
      obtain ⟨params', scope'⟩ := x'
      obtain ⟨rfl, frame, p, rfl, hfits⟩ := hx
      have hkeep : ∀ n, n ∈ params'.names ∨ scope.Mentions n → n ∈ keep := fun n hn =>
        (Compilation.mentions_of_body? hbefore hn).mem_reserved options.settings
      obtain ⟨ns, hns, d, hd, s, hs, himpl⟩ := Compilation.of_body? hbefore
      have hmeets := (hrecords ns hns (.callable d) hd s hs params' scope himpl).2
      exact Evaluator.invoke_equiv (fun n hn => hkeep n (.inl hn)) (scope.lower_mirrors frame hmeets
        (scope.meets_of_mentions (Rules.kept_allows keep) (fun n hn => hkeep n (.inr hn)) _) p hfits) a

/-- A callable that was there keeps to what was there. -/
theorem Evaluator.code_confined (hE : E.KeepsTo (· ∉ (c.lower options).targets))
    (hissued : (c.lower options).names.issued < 2 ^ 32) {M N : Call V S → Prop}
    (htransfer : ∀ k, M k → E.Clean (· ∉ (c.lower options).targets) k →
      N k ∧ E.Within (· ∉ (c.lower options).targets) (Values.answer k))
    (primitives : Primitives) {q : QualifiedName} (hq : q ∉ (c.lower options).targets) {a : V}
    (ha : E.Within (· ∉ (c.lower options).targets) a) :
    Behaviour.Sim ⟨M, N, E.Within (· ∉ (c.lower options).targets)⟩
      (fun v w => v = w ∧ E.Within (· ∉ (c.lower options).targets) v) (E.code primitives c q a)
      (E.code primitives c q a) := by
  rw [Evaluator.code]
  split
  · exact .of_confines htransfer (E.applyIf_confines .zero ha)
  split
  · exact .of_confines htransfer (E.applyIf_confines .one ha)
  cases hbody : c.body? q with
  | none => exact .of_confines htransfer (hE.external q a hq ha)
  | some x =>
    obtain ⟨params, scope⟩ := x
    have hallows : (Tracking.confined hE htransfer).rules.Allows
        (· ∈ (NameSupply.forCompilation c options.settings).reserved) :=
      ⟨fun _ _ _ => trivial,
        fun _ e he q hq => Compilation.lower_targets hissued (he q.name (e.mentions_of_mem rfl hq)),
        fun _ _ => trivial⟩
    have hmeets := scope.meets_of_mentions hallows
      (fun n hn => (Compilation.mentions_of_body? hbody (.inr hn)).mem_reserved options.settings) []
    exact Evaluator.invoke_confined hmeets ha

/-! ### Whole programs -/

/-- Every call is answered by what the callee does. -/
theorem Evaluator.Answers.equiv (primitives : Primitives) (q : QualifiedName) (a : V) :
    Behaviour.Equiv (E.Answers primitives c) (.call q a) (E.code primitives c q a) := by
  refine Behaviour.Equiv.call_iff.mpr fun s r s' => ⟨?_, fun ⟨calls, hcode, hcalls⟩ => .mk hcode hcalls⟩
  rintro ⟨hcode, hcalls⟩
  exact ⟨_, hcode, hcalls⟩

/-- Clean calls as in the first program, all others by what the callee does in the second. -/
inductive Blend (E : Evaluator V S) (primitives : Primitives) (A : QualifiedName → Prop)
    (c c' : Compilation) : Call V S → Prop where
  | clean {k : Call V S} : E.Clean A k → E.Answers primitives c k → Blend E primitives A c c' k
  | other {q : QualifiedName} {a : V} {s s' : S} {r : Except V V} {calls : List (Call V S)} :
    ¬ (A q ∧ E.Within A a) → E.code primitives c' q a s calls r s' →
      (∀ k ∈ calls, Blend E primitives A c c' k) → Blend E primitives A c c' ⟨q, a, s, r, s'⟩

theorem Blend.equiv {primitives : Primitives} {A : QualifiedName → Prop} {c c' : Compilation}
    {q : QualifiedName} {a : V} (h : ¬ (A q ∧ E.Within A a)) :
    Behaviour.Equiv (Blend E primitives A c c') (.call q a) (E.code primitives c' q a) := by
  refine Behaviour.Equiv.call_iff.mpr fun s r s' =>
    ⟨?_, fun ⟨calls, hcode, hcalls⟩ => .other h hcode hcalls⟩
  rintro (⟨hclean, -⟩ | ⟨-, hcode, hcalls⟩)
  · exact absurd hclean h
  · exact ⟨_, hcode, hcalls⟩

section
variable (hE : E.KeepsTo (· ∉ (c.lower options).targets)) (hrecords : c.Meets .records)
  (hdistinct : options.primitives.zero.name ≠ options.primitives.one.name)
  (hprimitives : ∀ o, (options.primitives.forOutcome o).name ∉ (c.lower options).targets)
  (hissued : (c.lower options).names.issued < 2 ^ 32)
include hE hrecords hdistinct hprimitives hissued

theorem Evaluator.Answers.lower {k : Call V S} (h : E.Answers options.primitives c k)
    (hclean : E.Clean (· ∉ (c.lower options).targets) k) :
    E.Answers options.primitives (c.lower options).result k ∧
      E.Within (· ∉ (c.lower options).targets) (Values.answer k) := by
  induction h with
  | @mk q a s s' r calls hcode _ ih =>
    obtain ⟨calls₁, r₁, hcode₁, hcalls₁, hr₁⟩ := Evaluator.code_confined hE hissued
      (fun k hk hclean => hk hclean) options.primitives hclean.1 hclean.2 s calls r s' hcode ih
    obtain ⟨calls₂, r₂, hcode₂, hcalls₂, hr₂⟩ := (Evaluator.code_equiv hrecords hdistinct hprimitives
      hissued (fun q a _ => Answers.equiv options.primitives q a) hclean.1 a).1 s calls₁ r₁ s' hcode₁
      hcalls₁
    obtain rfl := hr₂.eq fun _ _ h => h
    have hwithin := Values.within_answer (k := ⟨q, a, s, r, s'⟩) hr₁
    obtain rfl := hr₁.eq fun _ _ h => h.1
    exact ⟨.mk hcode₂ hcalls₂, hwithin⟩

theorem Evaluator.Answers.blend {k : Call V S}
    (h : E.Answers options.primitives (c.lower options).result k) :
    Blend E options.primitives (· ∉ (c.lower options).targets) c (c.lower options).result k := by
  induction h with
  | @mk q a s s' r calls hcode _ ih =>
    by_cases hclean : q ∉ (c.lower options).targets ∧ E.Within (· ∉ (c.lower options).targets) a
    · -- Back to the body as it was, which makes clean calls only.
      obtain ⟨calls₁, r₁, hcode₁, hcalls₁, hr₁⟩ := (Evaluator.code_equiv hrecords hdistinct
        hprimitives hissued (fun q a h => Blend.equiv (A := (· ∉ (c.lower options).targets)) h)
        hclean.1 a).2 s calls r s' hcode ih
      obtain rfl := hr₁.eq fun _ _ h => h
      have htransfer : ∀ k, Blend E options.primitives (· ∉ (c.lower options).targets) c
          (c.lower options).result k → E.Clean (· ∉ (c.lower options).targets) k →
          E.Answers options.primitives c k ∧
            E.Within (· ∉ (c.lower options).targets) (Values.answer k) := by
        rintro k (⟨hclean, hk⟩ | ⟨hother, -, -⟩) hclean
        · exact ⟨hk, (hk.lower hE hrecords hdistinct hprimitives hissued hclean).2⟩
        · exact absurd hclean hother
      obtain ⟨calls₂, r₂, hcode₂, hcalls₂, hr₂⟩ := Evaluator.code_confined hE hissued htransfer
        options.primitives hclean.1 hclean.2 s calls₁ r s' hcode₁ hcalls₁
      obtain rfl := hr₂.eq fun _ _ h => h.1
      exact .clean hclean (.mk hcode₂ hcalls₂)
    · exact .other hclean hcode ih

end

end

/-- **Lowering keeps the meaning of every program.** Let every scope record the visible names, let the
two primitives have different names, let none of the operations that are made take one of them, and
let fewer than `2 ^ 32` numbers be drawn. Then, however expressions are evaluated, as long as this does
not make up the names of the new operations, a call that gives no access to these has the same answers
before and after, and the callables of the program are none of them. -/
theorem Compilation.lower_meaning (c : Compilation) (options : Options)
    (hrecords : c.Meets .records)
    (hdistinct : options.primitives.zero.name ≠ options.primitives.one.name)
    (hprimitives : ∀ o, (options.primitives.forOutcome o).name ∉ (c.lower options).targets)
    (hissued : (c.lower options).names.issued < 2 ^ 32) :
    (∀ d ∈ c.namespaces.flatMap Namespace.callables, d.name ∉ (c.lower options).targets) ∧
    ∀ (V S : Type) (E : Evaluator V S), E.KeepsTo (· ∉ (c.lower options).targets) →
      ∀ k : Call V S, E.Clean (· ∉ (c.lower options).targets) k →
      (E.Answers options.primitives (c.lower options).result k ↔ E.Answers options.primitives c k) := by
  refine ⟨fun d hd => Compilation.lower_targets hissued
    ((Compilation.mentions_callable hd (.name rfl)).mem_reserved options.settings),
    fun V S E hE k hclean => ⟨fun h => ?_, fun h => ?_⟩⟩
  · obtain ⟨-, hk⟩ | ⟨hother, -, -⟩ := h.blend hE hrecords hdistinct hprimitives hissued
    · exact hk
    · exact absurd hclean hother
  · exact (h.lower hE hrecords hdistinct hprimitives hissued hclean).1

namespace Sample

/-- A callable without a body ran on the qubit. -/
def ran (name : String) (before : List String) : Call Value (List String) :=
  ⟨⟨"Sample", name⟩, .tuple [], before, .ok (libraryResult name), before ++ [name]⟩

/-- The operation ran with `Zero` for `r`: it measured, found one and ran the first block. -/
def mainRan : Call Value (List String) :=
  ⟨⟨"Sample", "Main"⟩, .tuple [.tuple [], .outcome .zero], [], .ok (.tuple []), ["M", "X"]⟩

theorem main_answers : evaluator.Answers ({} : Options).primitives program mainRan := by
  let env : Env Value := [("q", .tuple []), ("r", .outcome .zero)]
  let calls := [ran "M" [], ran "X" ["M"]]
  have hguard : evaluator.holds env (.equals (callOn "M" .outcome) (.outcome .one)) []
      [ran "M" []] (.ok true) ["M"] := by
    refine .inl ⟨.bool true, [ran "M" []], ["M"], [], ?_, ⟨true, rfl, rfl, rfl, rfl⟩, rfl⟩
    refine .inl ⟨.outcome .one, [ran "M" []], ["M"], [], ?_, ?_, rfl⟩
    · exact .inl ⟨.tuple [], [], [], [ran "M" []], ⟨rfl, rfl, rfl⟩, rfl, rfl⟩
    · exact .inl ⟨.one, [], ["M"], [], ⟨.one, rfl, rfl, rfl, rfl⟩, ⟨rfl, rfl, rfl⟩, rfl⟩
  have hblock : Behaviour.within env ((block "X").run evaluator env) ["M"] [ran "X" ["M"]]
      (.ok (.next env)) ["M", "X"] := by
    refine .inl ⟨.next env, [ran "X" ["M"]], ["M", "X"], [], ?_, ⟨rfl, rfl, rfl⟩, rfl⟩
    refine .inl ⟨.next env, [ran "X" ["M"]], ["M", "X"], [], ?_, ⟨rfl, rfl, rfl⟩, rfl⟩
    refine .inl ⟨.tuple [], [ran "X" ["M"]], ["M", "X"], [], ?_, ⟨rfl, rfl, rfl⟩, rfl⟩
    exact .inl ⟨.tuple [], [], ["M"], [ran "X" ["M"]], ⟨rfl, rfl, rfl⟩, rfl, rfl⟩
  have hmain : evaluator.code ({} : Options).primitives program ⟨"Sample", "Main"⟩
      (.tuple [.tuple [], .outcome .zero]) [] calls (.ok (.tuple [])) ["M", "X"] := by
    refine .inl ⟨env, [], [], calls, ⟨rfl, rfl, rfl⟩, ?_, rfl⟩
    refine .inl ⟨.next env, calls, ["M", "X"], [], ?_, ⟨rfl, rfl, rfl⟩, rfl⟩
    refine .inl ⟨.next env, calls, ["M", "X"], [], ?_, ⟨rfl, rfl, rfl⟩, rfl⟩
    exact .inl ⟨true, [ran "M" []], ["M"], [ran "X" ["M"]], hguard, hblock, rfl⟩
  have hran : ∀ name before, (∀ a, evaluator.code ({} : Options).primitives program ⟨"Sample", name⟩ a =
      evaluator.external ⟨"Sample", name⟩ a) →
      evaluator.Answers ({} : Options).primitives program (ran name before) := by
    intro name before hcode
    have hrun : evaluator.code ({} : Options).primitives program ⟨"Sample", name⟩ (.tuple []) before []
        (ran name before).result (before ++ [name]) := by
      rw [hcode]
      exact ⟨rfl, rfl, rfl⟩
    exact .mk hrun fun k hk => by cases hk
  exact .mk hmain (List.forall_mem_cons.mpr ⟨hran "M" [] fun _ => rfl,
    List.forall_mem_singleton.mpr (hran "X" ["M"] fun _ => rfl)⟩)

theorem program_meaning :
    program.Meets .records ∧ (program.lower {}).names.issued < 2 ^ 32 ∧
      evaluator.KeepsTo (· ∉ (program.lower {}).targets) ∧
      evaluator.Answers ({} : Options).primitives (program.lower {}).result mainRan := by
  have htargets : (program.lower {}).targets = [⟨"Sample", "_ctrl2_Main"⟩, ⟨"Sample", "_ctrl3_Main"⟩,
      ⟨"Sample", "_ctrl5_Main"⟩, ⟨"Sample", "_ctrl6_Main"⟩] := by decide +kernel
  have hissued : (program.lower {}).names.issued < 2 ^ 32 := by decide +kernel
  have hprimitives :
      ∀ o, (({} : Options).primitives.forOutcome o).name ∉ (program.lower {}).targets := by
    rw [htargets]
    intro o
    cases o <;> decide
  have hkeeps : evaluator.KeepsTo (· ∉ (program.lower {}).targets) :=
    evaluator_keepsTo (by rw [htargets]; decide)
  refine ⟨program_records, hissued, hkeeps, ((Compilation.lower_meaning program {} program_records
    (by decide) hprimitives hissued).2 _ _ evaluator hkeeps mainRan ⟨?_, ?_⟩).mpr main_answers⟩
  · rw [htargets]
    decide
  · exact fun q hq => (by cases hq)

end Sample

end OutcomeControl
