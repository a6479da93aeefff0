import OutcomeControl.Proofs.Visits

/-! A lowered program is settled, and the pass leaves a settled program as it is.

A body is settled when each of its conditionals, at every depth, has one guard at most and is no
outcome test whose blocks could be moved out. Lowering settles every body
(`Scope.lower_settled`), the bodies of the operations it makes are settled from the start, and on a
settled body nothing is drawn, hoisted or bound (`Scope.lower_of_settled`). So no outcome test is
left whose blocks are nothing but calls (`Compilation.lower_exhausts`), and a second run, with
whatever options, finds nothing to do (`Compilation.lower_lower`). -/

namespace OutcomeControl

mutual
/-- No conditional in the statement is left to be lowered. -/
def Statement.Settled : Statement → Prop
  | ⟨.conditional branches, info⟩ =>
    branches.arms.length ≤ 1 ∧
      (∀ t, Statement.outcomeTest? ⟨.conditional branches, info⟩ = some t → t.isSeparable = false) ∧
      branches.Settled
  | ⟨.forEach _ _ _ body, _⟩ => body.Settled
  | ⟨.whileLoop _ body, _⟩ => body.Settled
  | ⟨.repeatUntil block _ fixup, _⟩ => block.Settled ∧ fixup.Settled
  | ⟨.qubits _ _ body, _⟩ => body.Settled
  | ⟨.expression _, _⟩ | ⟨.returns _, _⟩ | ⟨.fails _, _⟩ | ⟨.binding _, _⟩ | ⟨.update _ _, _⟩ => True
def Branches.Settled : Branches → Prop
  | .done => True
  | .otherwise block => block.Settled
  | .arm _ block rest => block.Settled ∧ rest.Settled
def Block.Settled : Block → Prop
  | ⟨body, _, _⟩ => body.Settled
def Scope.Settled : Scope → Prop
  | ⟨statements, _⟩ => Statement.SettledList statements
def Statement.SettledList : List Statement → Prop
  | [] => True
  | s :: ss => s.Settled ∧ Statement.SettledList ss
end

theorem Statement.settledList_iff {ss : List Statement} :
    Statement.SettledList ss ↔ ∀ s ∈ ss, s.Settled := by
  induction ss with
  | nil => simp [Statement.SettledList]
  | cons s ss ih => simp [Statement.SettledList, ih]

theorem Block.settled_iff {b : Block} : b.Settled ↔ Statement.SettledList b.body.statements := by
  obtain ⟨⟨statements, known⟩, location, comments⟩ := b
  rfl

theorem Scope.settled_iff {s : Scope} : s.Settled ↔ Statement.SettledList s.statements := by
  obtain ⟨statements, known⟩ := s
  rfl

theorem StatementKind.IsLeaf.settled {kind : StatementKind} (h : kind.IsLeaf)
    (info : StatementInfo) : Statement.Settled ⟨kind, info⟩ := by
  cases kind <;> trivial

/-! ### Lowering settles -/

section
variable (primitives : Primitives) (frame : Frame)

/-- The calls that replace a test hold no conditional. -/
theorem applyTest_settled (s : Statement) (t : OutcomeTest) (p : Progress) :
    Statement.SettledList ((applyTest primitives frame s t).run p).1 := by
  obtain ⟨outcome, condition, body, default⟩ := t
  cases default with
  | none => exact ⟨trivial, trivial⟩
  | some block => exact ⟨trivial, trivial, trivial⟩

/-- A conditional that stays is settled because its test, if any, has a block that is more than
calls; any other is replaced by calls. -/
theorem conclude_settled (branches : Branches) (info : StatementInfo) (p : Progress)
    (harms : branches.arms.length ≤ 1) (hbranches : branches.Settled) :
    Statement.SettledList
      ((conclude primitives frame ⟨.conditional branches, info⟩).run p).1 := by
  obtain ⟨event, -, heq, hstays⟩ | ⟨t, -, -, -, heq⟩ | ⟨t, -, -, -, heq⟩ :=
    conclude_cases primitives frame ⟨.conditional branches, info⟩ p
  · rw [heq]
    exact ⟨⟨harms, hstays, hbranches⟩, trivial⟩
  · rw [heq]
    exact applyTest_settled primitives frame _ t p
  · rw [heq]
    exact ⟨trivial, applyTest_settled primitives frame _ _ _⟩

theorem Scope.lower_settled (scope : Scope) (p : Progress) :
    ((scope.lower primitives frame).run p).1.Settled := by
  rw [Scope.lower_run]
  refine ((lower_induction primitives frame (P := fun _ _ out _ => Statement.SettledList out)
    (L := fun _ _ out _ => Statement.SettledList out)
    (Q := fun _ _ _ below _ => below.arms.length ≤ 1 ∧ below.Settled) ?nil ?cons ?leaf ?forEach
    ?whileLoop ?repeatUntil ?qubits ?conditional ?done ?otherwise ?last ?nested).2.1
    scope.statements p).2
  case nil => exact fun _ => trivial
  case cons =>
    intro _ _ _ out _ outs _ _ _ hs hss
    rw [Statement.settledList_iff] at hs hss ⊢
    intro s hmem
    obtain hmem | hmem := List.mem_append.mp hmem
    · exact hs s hmem
    · exact hss s hmem
  case leaf => exact fun _ info _ hleaf => ⟨hleaf.settled info, trivial⟩
  case forEach => exact fun _ _ _ _ _ _ _ _ _ h => ⟨h, trivial⟩
  case whileLoop => exact fun _ _ _ _ _ _ _ h => ⟨h, trivial⟩
  case repeatUntil => exact fun _ _ _ _ _ _ _ _ _ _ _ hb hf => ⟨⟨hb, hf⟩, trivial⟩
  case qubits => exact fun _ _ _ _ _ _ _ _ h => ⟨h, trivial⟩
  case conditional =>
    exact fun _ info _ below q _ h => conclude_settled primitives frame below info q h.1 h.2
  case done => exact fun _ _ => ⟨Nat.zero_le _, trivial⟩
  case otherwise => exact fun _ _ _ _ _ _ h => ⟨Nat.zero_le _, h⟩
  case last =>
    intro _ _ _ _ _ _ _ below _ _ _ hb hbelow harms
    refine ⟨?_, hb, hbelow.2⟩
    rw [Branches.arms, harms]
    exact Nat.le_refl 1
  case nested =>
    intro _ _ _ info _ _ _ c b below r _ _ hb hbelow
    exact ⟨Nat.le_refl 1, hb,
      conclude_settled primitives frame (.arm c b below) info r hbelow.1 hbelow.2⟩

end

/-! ### Operations are made settled -/

theorem Statement.settled_of_isUnitCall {s : Statement} (h : s.isUnitCall = true) : s.Settled := by
  obtain ⟨kind, info⟩ := s
  cases kind <;> trivial

theorem Scope.settled_of_isCallSequence {s : Scope} (h : s.isCallSequence = true) : s.Settled := by
  rw [Scope.settled_iff, Statement.settledList_iff]
  exact fun t ht => Statement.settled_of_isUnitCall (List.all_eq_true.mp h t ht)

/-- Every body with statements is settled. -/
def Callable.Settled (c : Callable) : Prop :=
  ∀ s ∈ c.specializations, ∀ params scope, s.kind = .body →
    s.implementation = .provided params scope → scope.Settled

def Element.Settled : Element → Prop
  | .callable c => c.Settled
  | .customType _ => True

theorem Frame.Makes.settled {frame : Frame} {c : Callable} (h : frame.Makes c) : c.Settled := by
  obtain ⟨name, body, comments, hbody, rfl⟩ := h
  intro s hs params scope _ himpl
  obtain rfl := List.mem_singleton.mp hs
  injection himpl with _ hscope
  rw [← hscope]
  exact Scope.settled_of_isCallSequence (body.isCallSequence_mapParameters _ hbody)

/-! ### A settled program stays -/

/-- Nothing was drawn, hoisted or bound: conditionals were only looked at. -/
def Progress.Rests (p q : Progress) : Prop :=
  ∃ events : List Event, (∀ e ∈ events, e.Stays) ∧ q = { p with report := p.report ++ events }

namespace Progress.Rests

theorem refl (p : Progress) : p.Rests p := ⟨[], by simp, by simp⟩

theorem trans {p q r : Progress} (hpq : p.Rests q) (hqr : q.Rests r) : p.Rests r := by
  obtain ⟨es, hes, rfl⟩ := hpq
  obtain ⟨fs, hfs, rfl⟩ := hqr
  refine ⟨es ++ fs, fun e he => ?_, by simp⟩
  obtain he | he := List.mem_append.mp he
  · exact hes e he
  · exact hfs e he

end Progress.Rests

section
variable (primitives : Primitives) (frame : Frame)

theorem conclude_of_settled {branches : Branches} {info : StatementInfo} (p : Progress)
    (h : Statement.Settled ⟨.conditional branches, info⟩) :
    ((conclude primitives frame ⟨.conditional branches, info⟩).run p).1 =
        [⟨.conditional branches, info⟩] ∧
      p.Rests ((conclude primitives frame ⟨.conditional branches, info⟩).run p).2 := by
  obtain ⟨event, hevent, heq, -⟩ | ⟨t, ht, hsep, -⟩ | ⟨t, ht, hsep, -⟩ :=
    conclude_cases primitives frame ⟨.conditional branches, info⟩ p
  · rw [heq]
    exact ⟨rfl, [event], by simpa using hevent, rfl⟩
  · exact absurd (h.2.1 t ht) (by simp [hsep])
  · exact absurd (h.2.1 t ht) (by simp [hsep])

theorem Scope.lower_of_settled (scope : Scope) (h : scope.Settled) (p : Progress) :
    ((scope.lower primitives frame).run p).1 = scope ∧
      p.Rests ((scope.lower primitives frame).run p).2 := by
  have hlist := ((lower_induction primitives frame
    (P := fun s p out q => s.Settled → out = [s] ∧ p.Rests q)
    (L := fun ss p out q => Statement.SettledList ss → out = ss ∧ p.Rests q)
    (Q := fun _ b p below q => b.Settled → b.arms.length ≤ 1 → below = b ∧ p.Rests q)
    ?nil ?cons ?leaf ?forEach ?whileLoop ?repeatUntil ?qubits ?conditional ?done ?otherwise ?last
    ?nested).2.1 scope.statements p).2
  case nil => exact fun p _ => ⟨rfl, .refl p⟩
  case cons =>
    intro s ss p out q outs r _ _ hs hss hsettled
    obtain ⟨rfl, hpq⟩ := hs hsettled.1
    obtain ⟨rfl, hqr⟩ := hss hsettled.2
    exact ⟨rfl, hpq.trans hqr⟩
  case leaf => exact fun _ _ p _ _ => ⟨rfl, .refl p⟩
  case forEach =>
    intro symbols itemTy iterable body info p out q _ hbody hsettled
    obtain ⟨rfl, hpq⟩ := hbody (Scope.settled_iff.mp hsettled)
    exact ⟨by simp, hpq⟩
  case whileLoop =>
    intro condition body info p out q _ hbody hsettled
    obtain ⟨rfl, hpq⟩ := hbody (Scope.settled_iff.mp hsettled)
    exact ⟨by simp, hpq⟩
  case repeatUntil =>
    intro block success fixup info p out q outs r _ _ hblock hfixup hsettled
    obtain ⟨rfl, hpq⟩ := hblock (Block.settled_iff.mp hsettled.1)
    obtain ⟨rfl, hqr⟩ := hfixup (Block.settled_iff.mp hsettled.2)
    exact ⟨by simp, hpq.trans hqr⟩
  case qubits =>
    intro kind binding body info p out q _ hbody hsettled
    obtain ⟨rfl, hpq⟩ := hbody (Scope.settled_iff.mp hsettled)
    exact ⟨by simp, hpq⟩
  case conditional =>
    intro branches info p below q _ hbelow hsettled
    obtain ⟨rfl, hpq⟩ := hbelow hsettled.2.2 hsettled.1
    obtain ⟨hout, hqr⟩ := conclude_of_settled primitives frame q hsettled
    exact ⟨hout, hpq.trans hqr⟩
  case done => exact fun _ p _ _ => ⟨rfl, .refl p⟩
  case otherwise =>
    intro block info p out q _ hblock hsettled _
    obtain ⟨rfl, hpq⟩ := hblock (Block.settled_iff.mp hsettled)
    exact ⟨by simp, hpq⟩
  case last =>
    intro condition block rest info p out q below r _ _ hblock hrest _ hsettled harms
    obtain ⟨rfl, hpq⟩ := hblock (Block.settled_iff.mp hsettled.1)
    obtain ⟨rfl, hqr⟩ := hrest hsettled.2 (Nat.le_of_succ_le harms)
    exact ⟨by simp, hpq.trans hqr⟩
  case nested =>
    -- A second guard would leave the chain with two.
    intro condition block rest info p out q c b below r _ _ _ hrest hsettled harms
    obtain ⟨hrest, -⟩ := hrest hsettled.2 (Nat.le_of_succ_le harms)
    subst hrest
    simp [Branches.arms] at harms
  obtain ⟨hout, hrests⟩ := hlist (Scope.settled_iff.mp h)
  rw [Scope.lower_run, hout]
  exact ⟨by simp, hrests⟩

end

/-! ### Whole programs -/

theorem Progress.Rests.chain {α : Type} {R : α → Progress → α → Progress → Prop} {as bs : List α}
    {p q : Progress} (h : Chain R as p bs q)
    (hR : ∀ a ∈ as, ∀ p b q, R a p b q → b = a ∧ p.Rests q) : bs = as ∧ p.Rests q := by
  induction h with
  | nil p => exact ⟨rfl, .refl p⟩
  | cons hab _ ih =>
    obtain ⟨rfl, hpq⟩ := hR _ (List.mem_cons_self ..) _ _ _ hab
    obtain ⟨rfl, hqr⟩ := ih fun a ha => hR a (List.mem_cons_of_mem _ ha)
    exact ⟨rfl, hpq.trans hqr⟩

/-- Every element of every namespace is settled. -/
def Namespace.Settled (ns : Namespace) : Prop := ∀ e ∈ ns.elements, e.Settled

section
variable (primitives : Primitives)

theorem Specialization.lower_settled (frame : Frame) (s : Specialization) (p : Progress)
    (params : Params) (scope : Scope) (hkind : ((s.lower primitives frame).run p).1.kind = .body)
    (himpl : ((s.lower primitives frame).run p).1.implementation = .provided params scope) :
    scope.Settled := by
  obtain ⟨params', scope', -, -, heq⟩ | ⟨hnone, heq⟩ := s.lower_cases primitives frame p
  · rw [heq] at himpl
    injection himpl with _ hscope
    rw [← hscope]
    exact scope'.lower_settled primitives frame p
  · rw [heq] at hkind himpl
    exact absurd himpl (hnone params scope hkind)

theorem Element.lower_settled (e : Element) (p : Progress) :
    ((e.lower primitives).run p).1.Settled := by
  cases e with
  | customType t => trivial
  | callable c =>
    intro s hs params scope hkind himpl
    obtain ⟨a, -, q, r, hrun⟩ :=
      (Chain.mapM (Specialization.lower primitives (.ofCallable c)) c.specializations p).of_mem hs
    refine a.lower_settled primitives (.ofCallable c) q params scope ?_ ?_
    · rw [hrun]
      exact hkind
    · rw [hrun]
      exact himpl

theorem Specialization.lower_of_settled (frame : Frame) (s : Specialization)
    (h : ∀ params scope, s.kind = .body → s.implementation = .provided params scope →
      scope.Settled) (p : Progress) :
    ((s.lower primitives frame).run p).1 = s ∧ p.Rests ((s.lower primitives frame).run p).2 := by
  obtain ⟨params, scope, hkind, himpl, heq⟩ | ⟨-, heq⟩ := s.lower_cases primitives frame p
  · obtain ⟨hscope, hrests⟩ :=
      scope.lower_of_settled primitives frame (h params scope hkind himpl) p
    rw [heq, hscope, ← himpl]
    exact ⟨rfl, hrests⟩
  · rw [heq]
    exact ⟨rfl, .refl p⟩

theorem Element.lower_of_settled (e : Element) (h : e.Settled) (p : Progress) :
    ((e.lower primitives).run p).1 = e ∧ p.Rests ((e.lower primitives).run p).2 := by
  cases e with
  | customType t => exact ⟨rfl, .refl p⟩
  | callable c =>
    obtain ⟨hspecs, hrests⟩ := Progress.Rests.chain
      (Chain.mapM (Specialization.lower primitives (.ofCallable c)) c.specializations p)
      fun s hs p b q hrun => by
        have hstays := s.lower_of_settled primitives (.ofCallable c) (h s hs) p
        rw [hrun] at hstays
        exact hstays
    rw [Element.lower_callable_run, hspecs]
    exact ⟨rfl, hrests⟩

/-- Lowered elements are settled, and so are the operations that follow them. -/
theorem Namespace.lower_settled (names : NameSupply) (ns : Namespace) :
    (ns.lower primitives names).result.Settled := by
  obtain ⟨elements, p, hchain, hmakes, heq⟩ := ns.lower_chain primitives names
  rw [heq]
  intro e he
  obtain he | he := List.mem_append.mp he
  · obtain ⟨a, -, q, r, hrun⟩ := hchain.of_mem he
    have hsettled := a.lower_settled primitives q
    rw [hrun] at hsettled
    exact hsettled
  · obtain ⟨c, hc, rfl⟩ := List.mem_map.mp he
    obtain ⟨frame, hframe⟩ := hmakes c hc
    exact hframe.settled

theorem Namespace.lower_of_settled (names : NameSupply) (ns : Namespace) (h : ns.Settled) :
    (ns.lower primitives names).result = ns ∧ (ns.lower primitives names).names = names ∧
      ∀ e ∈ (ns.lower primitives names).report, e.Stays := by
  obtain ⟨elements, p, hchain, -, heq⟩ := ns.lower_chain primitives names
  obtain ⟨rfl, events, hevents, rfl⟩ := Progress.Rests.chain hchain fun e he p b q hrun => by
    have hstays := e.lower_of_settled primitives (h e he) p
    rw [hrun] at hstays
    exact hstays
  rw [heq]
  exact ⟨by simp, rfl, by simpa using hevents⟩

theorem Namespace.lowerAll_settled (names : NameSupply) (nss : List Namespace) :
    ∀ ns ∈ (Namespace.lowerAll primitives names nss).result, ns.Settled := by
  induction nss generalizing names with
  | nil => exact fun ns hns => by cases hns
  | cons ns nss ih =>
    intro out hout
    obtain rfl | hout := List.mem_cons.mp hout
    · exact ns.lower_settled primitives names
    · exact ih _ out hout

theorem Namespace.lowerAll_of_settled (names : NameSupply) (nss : List Namespace)
    (h : ∀ ns ∈ nss, ns.Settled) :
    (Namespace.lowerAll primitives names nss).result = nss ∧
      (Namespace.lowerAll primitives names nss).names = names ∧
      ∀ e ∈ (Namespace.lowerAll primitives names nss).report, e.Stays := by
  induction nss with
  | nil => exact ⟨rfl, rfl, fun e he => by cases he⟩
  | cons ns nss ih =>
    obtain ⟨hresult, hnames, hreport⟩ :=
      ns.lower_of_settled primitives names (h ns (List.mem_cons_self ..))
    obtain ⟨hresults, hnames', hreports⟩ := ih fun ns hns => h ns (List.mem_cons_of_mem _ hns)
    simp only [Namespace.lowerAll, hresult, hnames]
    refine ⟨by rw [hresults], hnames', fun e he => ?_⟩
    obtain he | he := List.mem_append.mp he
    · exact hreport e he
    · exact hreports e he

end

/-! ### What is left of the conditionals -/

theorem Statement.isUnitCall_iff {s : Statement} :
    s.isUnitCall = true ↔
      ∃ callee argument info, s.kind = .expression ⟨.call callee argument, info⟩ ∧ info.ty = .unit := by
  constructor
  · intro h
    obtain ⟨callee, argument, info, hkind⟩ := Statement.of_isUnitCall h
    refine ⟨callee, argument, info, hkind, ?_⟩
    rw [Statement.isUnitCall, hkind] at h
    change (info.ty.isUnit && true) = true at h
    cases hty : info.ty <;> simp [hty, Ty.isUnit] at h ⊢
  · rintro ⟨callee, argument, info, hkind, hty⟩
    rw [Statement.isUnitCall, hkind]
    change (info.ty.isUnit && true) = true
    rw [hty]
    rfl

theorem Block.Settled.body : {b : Block} → b.Settled → b.body.Settled
  | ⟨_, _, _⟩, h => h

theorem Branches.Settled.scopes : (b : Branches) → b.Settled →
    ∀ inner ∈ (StatementKind.conditional b).scopes, inner.Settled
  | .done, _, _, hinner => by cases hinner
  | .otherwise block, h, inner, hinner => by
    obtain rfl := List.mem_singleton.mp hinner
    exact Block.Settled.body h
  | .arm _ block rest, h, inner, hinner => by
    obtain rfl | hinner := List.mem_cons.mp hinner
    · exact Block.Settled.body h.1
    · exact Branches.Settled.scopes rest h.2 inner hinner

theorem Statement.Settled.scopes {s : Statement} (h : s.Settled) {inner : Scope}
    (hinner : inner ∈ s.kind.scopes) : inner.Settled := by
  obtain ⟨kind, info⟩ := s
  cases kind with
  | conditional branches => exact Branches.Settled.scopes branches h.2.2 inner hinner
  | forEach _ _ _ _ | whileLoop _ _ | qubits _ _ _ =>
    obtain rfl := List.mem_singleton.mp hinner
    exact h
  | repeatUntil block success fixup =>
    obtain rfl | hinner := List.mem_cons.mp hinner
    · exact Block.Settled.body h.1
    · obtain rfl := List.mem_singleton.mp hinner
      exact Block.Settled.body h.2
  | _ => cases hinner

/-- In a settled body every statement is settled, whatever its depth. -/
theorem Scope.Settled.of_holds {s : Scope} {t : Statement} (ht : s.Holds t) (h : s.Settled) :
    t.Settled := by
  induction ht with
  | here ht => exact Statement.settledList_iff.mp (Scope.settled_iff.mp h) t ht
  | inside hu hinner _ ih =>
    exact ih ((Statement.settledList_iff.mp (Scope.settled_iff.mp h) _ hu).scopes hinner)

theorem Element.Settled.of_mem_bodies {e : Element} (h : e.Settled) {body : Scope}
    (hbody : body ∈ e.bodies) : body.Settled := by
  cases e with
  | customType t => cases hbody
  | callable c =>
    obtain ⟨s, hs, hscope⟩ := List.mem_filterMap.mp hbody
    obtain ⟨params, hkind, himpl⟩ := Specialization.bodyScope?_eq_some.mp hscope
    exact h s hs params body hkind himpl

/-- A test that is kept has a statement that is no call, or no call of the unit type. -/
theorem OutcomeTest.exists_of_isSeparable {t : OutcomeTest} (h : t.isSeparable = false) :
    ∃ block ∈ t.bodies, ∃ s ∈ block.statements, s.isUnitCall = false := by
  obtain ⟨outcome, condition, body, default⟩ := t
  have hblock : ∀ block : Scope, block.isCallSequence = false →
      ∃ s ∈ block.statements, s.isUnitCall = false := by
    intro block hblock
    simpa [Scope.isCallSequence] using hblock
  rw [OutcomeTest.isSeparable, Bool.and_eq_false_iff] at h
  obtain h | h := h
  · exact ⟨body, List.mem_cons_self .., hblock body h⟩
  · cases default with
    | none => cases h
    | some other =>
      exact ⟨other, List.mem_cons_of_mem _ (List.mem_singleton_self _), hblock other h⟩

/-- **No test is left that could be lowered.** In every body of a lowered program, of the operations
that were made too, each conditional at every depth has one guard at most; and if it tests an
outcome, then one of its blocks has a statement that is not a call of the unit type. -/
theorem Compilation.lower_exhausts (c : Compilation) (options : Options) :
    ∀ ns ∈ (c.lower options).result.namespaces, ∀ e ∈ ns.elements, ∀ body ∈ e.bodies,
      ∀ branches info, .statement ⟨.conditional branches, info⟩ ∈ body.visits →
        branches.arms.length ≤ 1 ∧
          ∀ t, Statement.outcomeTest? ⟨.conditional branches, info⟩ = some t →
            ∃ block ∈ t.bodies, ∃ s ∈ block.statements, ∀ callee argument info,
              s.kind = .expression ⟨.call callee argument, info⟩ → info.ty ≠ .unit := by
  intro ns hns e he body hbody branches info hmem
  have hns := Namespace.lowerAll_settled options.primitives (.forCompilation c options.settings)
    c.namespaces ns hns
  obtain ⟨harms, htest, -⟩ := ((hns e he).of_mem_bodies hbody).of_holds (Scope.of_mem_visits body hmem)
  refine ⟨harms, fun t ht => ?_⟩
  obtain ⟨block, hblock, s, hs, hcall⟩ := OutcomeTest.exists_of_isSeparable (htest t ht)
  refine ⟨block, hblock, s, hs, fun callee argument i hkind hty => ?_⟩
  rw [Statement.isUnitCall_iff.mpr ⟨callee, argument, i, hkind, hty⟩] at hcall
  cases hcall

namespace Sample

/-- `if r == One { return (); } elif r == Zero { }`. -/
def returning : Scope :=
  ⟨[.conditional
      [(.equals (.localName "r" .outcome) (.outcome .one), ⟨[.plain (.returns .unit)], []⟩),
        (.equals (.localName "r" .outcome) (.outcome .zero), ⟨[], []⟩)] none], []⟩

def leaving : Compilation :=
  let signature : Signature := { argument := .outcome, result := .unit }
  let params : Params := .item { name := .valid "r", ty := .outcome }
  { namespaces :=
      [⟨"Sample",
        [.callable
          { kind := .operation
            name := ⟨"Sample", "Main"⟩
            signature
            params
            specializations :=
              [{ kind := .body
                 parent := ⟨"Sample", "Main"⟩
                 signature
                 implementation := .provided params returning }] }]⟩] }

end Sample

/-- The first guard stays since its block returns, and only the second one is lowered. -/
theorem Sample.leaving_exhausts :
    ∃ ns ∈ (Sample.leaving.lower {}).result.namespaces, ∃ e ∈ ns.elements, ∃ body ∈ e.bodies,
      ∃ branches info, .statement ⟨.conditional branches, info⟩ ∈ body.visits ∧
        branches.arms.length ≤ 1 ∧
          ∃ t, Statement.outcomeTest? ⟨.conditional branches, info⟩ = some t ∧
            ∃ block ∈ t.bodies, ∃ s ∈ block.statements, ∀ callee argument info,
              s.kind = .expression ⟨.call callee argument, info⟩ → info.ty ≠ .unit := by
  have h := Compilation.lower_exhausts Sample.leaving {} _ (List.mem_cons_self ..) _
    (List.mem_cons_self ..) _ (List.mem_singleton_self _) _ _
    (List.mem_cons_of_mem _ (List.mem_cons_self ..))
  exact ⟨_, List.mem_cons_self .., _, List.mem_cons_self .., _, List.mem_singleton_self _, _, _,
    List.mem_cons_of_mem _ (List.mem_cons_self ..), h.1, _, rfl, h.2 _ rfl⟩

/-! ### A second run -/

theorem NameSupply.issued_foldl_reserve (names : List String) (s : NameSupply) :
    (names.foldl reserve s).issued = s.issued := by
  induction names generalizing s with
  | nil => rfl
  | cons n ns ih => exact ih _

/-- **A second run changes nothing**, whatever the options of the two runs: it draws no number, and
all that it reports are conditionals that stay. -/
theorem Compilation.lower_lower (c : Compilation) (first second : Options) :
    ((c.lower first).result.lower second).result = (c.lower first).result ∧
      ((c.lower first).result.lower second).names.issued = 0 ∧
      ∀ e ∈ ((c.lower first).result.lower second).report, e.Stays := by
  obtain ⟨hresult, hnames, hreport⟩ := Namespace.lowerAll_of_settled second.primitives
    (.forCompilation (c.lower first).result second.settings) (c.lower first).result.namespaces
    (Namespace.lowerAll_settled first.primitives (.forCompilation c first.settings) c.namespaces)
  have hissued : (NameSupply.forCompilation (c.lower first).result second.settings).issued = 0 := by
    rw [NameSupply.forCompilation, NameSupply.issued_foldl_reserve]
    rfl
  rw [Compilation.lower_eq second]
  dsimp only
  rw [hresult, hnames]
  exact ⟨rfl, hissued, hreport⟩

end OutcomeControl
