import OutcomeControl.Proofs.Mention
import OutcomeControl.Proofs.Supply

/-! Generated names are new and used once.

The report of a run tells which operations were made and which variables were bound. The program
that comes out declares exactly these besides what it declared before, and its statements introduce
exactly these besides what they introduced before. `Compilation.lower_fresh` says that they are
pairwise distinct and that the program that went in mentions none of them. -/

namespace OutcomeControl

/-- The operation that was made. -/
def Event.target? : Event → Option QualifiedName
  | .hoisted _ _ target _ => some target
  | _ => none

/-- The variable that was bound. -/
def Event.variable? : Event → Option String
  | .bound _ name => some name
  | _ => none

def Event.callableNames (events : List Event) : List String :=
  (events.filterMap Event.target?).map (·.name)

def Event.variableNames (events : List Event) : List String := events.filterMap Event.variable?

@[simp] theorem Event.callableNames_append (es fs : List Event) :
    callableNames (es ++ fs) = callableNames es ++ callableNames fs := by
  simp [callableNames]

@[simp] theorem Event.variableNames_append (es fs : List Event) :
    variableNames (es ++ fs) = variableNames es ++ variableNames fs := by
  simp [variableNames]

/-! ### What is drawn -/

/-- The events between two points of a run, with the operations made and the names drawn. -/
structure Progress.Tells (p : Progress) (events : List Event) (q : Progress) : Prop where
  leads : p.Leads q
  report : q.report = p.report ++ events
  hoisted : ∃ made, q.hoisted = p.hoisted ++ made ∧
    made.map (·.name) = events.filterMap Event.target?
  callableDraws : q.names.issued < p.names.issued + 2 ^ 32 →
    p.names.Draws p.names.callablePrefix q.names.issued (Event.callableNames events)
  variableDraws : q.names.issued < p.names.issued + 2 ^ 32 →
    p.names.Draws p.names.variablePrefix q.names.issued (Event.variableNames events)

namespace Progress.Tells

theorem of_stays {p : Progress} {event : Event} (h : event.Stays) :
    p.Tells [event] { p with report := p.report ++ [event] } := by
  cases event with
  | untested callable | kept callable condition =>
    exact ⟨⟨rfl, Nat.le_refl _, List.prefix_rfl⟩, rfl, ⟨[], by simp [Event.target?]⟩,
      fun _ => .nil, fun _ => .nil⟩
  | bound ty name | hoisted statements source target captured | extended space count => cases h

theorem refl (p : Progress) : p.Tells [] p :=
  ⟨.refl p, by simp, ⟨[], by simp⟩, fun _ => .nil, fun _ => .nil⟩

theorem trans {p q r : Progress} {es fs : List Event} (hpq : p.Tells es q) (hqr : q.Tells fs r) :
    p.Tells (es ++ fs) r := by
  obtain ⟨made, hmade, hes⟩ := hpq.hoisted
  obtain ⟨more, hmore, hfs⟩ := hqr.hoisted
  have hbefore := hpq.leads.issued
  refine ⟨hpq.leads.trans hqr.leads, ?_, ⟨made ++ more, ?_, ?_⟩, fun hlt => ?_, fun hlt => ?_⟩
  · rw [hqr.report, hpq.report, List.append_assoc]
  · rw [hmore, hmade, List.append_assoc]
  · rw [List.map_append, hes, hfs, List.filterMap_append]
  · have hsecond := hqr.callableDraws (by omega)
    rw [hpq.leads.names] at hsecond
    rw [Event.callableNames_append]
    exact (hpq.callableDraws (hqr.leads.issued.trans_lt hlt)).append hsecond hpq.leads.issued
      hqr.leads.issued
  · have hsecond := hqr.variableDraws (by omega)
    rw [hpq.leads.names] at hsecond
    rw [Event.variableNames_append]
    exact (hpq.variableDraws (hqr.leads.issued.trans_lt hlt)).append hsecond hpq.leads.issued
      hqr.leads.issued

end Progress.Tells

section
variable (primitives : Primitives) (frame : Frame)

theorem hoist_tells (body : Scope) (comments : Comments) (p : Progress) :
    p.Tells
      [.hoisted body.statements.length frame.name (p.names.freshCallable frame.name).1
        body.known.length]
      ((hoist frame body comments).run p).2 :=
  ⟨hoist_leads frame body comments p, rfl, ⟨[_], rfl, rfl⟩,
    fun hlt => .draw (p.names.isNumbering_callableName frame.name.name) hlt, fun _ => .nil⟩

theorem bindCondition_tells (s : Statement) (value : Expr) (p : Progress) :
    p.Tells [.bound value.ty p.names.freshVariable.1] ((bindCondition s value).run p).2 :=
  ⟨bindCondition_leads s value p, rfl, ⟨[], by simp [bindCondition_run, Event.target?]⟩,
    fun _ => .nil, fun hlt => .draw p.names.isNumbering_variableName hlt⟩

theorem applyTest_tells (s : Statement) (t : OutcomeTest) (p : Progress) :
    ∃ events, p.Tells events ((applyTest primitives frame s t).run p).2 ∧
      Event.variableNames events = [] := by
  obtain ⟨outcome, condition, body, default⟩ := t
  have hyes := hoist_tells frame body s.info.comments p
  cases default with
  | none => exact ⟨_, hyes, rfl⟩
  | some block => exact ⟨_, hyes.trans (hoist_tells frame block s.info.comments _), rfl⟩

theorem conclude_tells (s : Statement) (p : Progress) :
    ∃ events, p.Tells events ((conclude primitives frame s).run p).2 := by
  obtain ⟨event, hstays, heq, -⟩ | ⟨t, -, -, -, heq⟩ | ⟨t, -, -, -, heq⟩ :=
    conclude_cases primitives frame s p
  · rw [heq]
    exact ⟨_, .of_stays hstays⟩
  · rw [heq]
    exact (applyTest_tells primitives frame s t p).imp fun _ h => h.1
  · rw [heq]
    obtain ⟨events, htells, -⟩ := applyTest_tells primitives frame s
      { t with condition := ((bindCondition s t.condition).run p).1.2 }
      ((bindCondition s t.condition).run p).2
    exact ⟨_, (bindCondition_tells s t.condition p).trans htells⟩

theorem Element.lower_tells (e : Element) (p : Progress) :
    ∃ events, p.Tells events ((e.lower primitives).run p).2 :=
  e.lower_preorder primitives (R := fun p q => ∃ events, p.Tells events q)
    (fun p => ⟨[], .refl p⟩) (fun _ _ _ ⟨_, hpq⟩ ⟨_, hqr⟩ => ⟨_, hpq.trans hqr⟩)
    (fun c _ => conclude_tells primitives (.ofCallable c)) p

end

/-! ### What is passed over

However many numbers are drawn, a name that the search comes to is not reserved. -/

/-- The search for the name in this event comes to an end. -/
def Event.Ends (names : NameSupply) : Event → Prop
  | .hoisted _ source _ _ => names.Ends (names.callableName source.name)
  | .bound _ _ => names.Ends names.variableName
  | .untested _ | .kept _ _ | .extended _ _ => True

theorem Event.ends_of_length_lt {names : NameSupply} (h : names.reserved.length < 2 ^ 32) (e : Event) :
    e.Ends names := by
  cases e with
  | hoisted statements source target captured =>
    exact NameSupply.ends_of_length_lt (names.isNumbering_callableName source.name) h
  | bound ty name => exact NameSupply.ends_of_length_lt names.isNumbering_variableName h
  | _ => trivial

/-- The event names nothing that is reserved. -/
def Event.Avoids (names : NameSupply) : Event → Prop
  | .hoisted _ _ target _ => target.name ∉ names.reserved
  | .bound _ name => name ∉ names.reserved
  | .untested _ | .kept _ _ | .extended _ _ => True

/-- Later in a run on the supply `names`: no event in between names anything reserved. -/
def Progress.Spares (names : NameSupply) (p q : Progress) : Prop :=
  p.names = { names with issued := p.names.issued } →
    q.names = { names with issued := q.names.issued } ∧
      ∃ events, q.report = p.report ++ events ∧ ∀ e ∈ events, e.Ends names → e.Avoids names

namespace Progress.Spares
variable {names : NameSupply}

theorem refl (p : Progress) : p.Spares names p := fun hp => ⟨hp, [], by simp⟩

theorem trans {p q r : Progress} (hpq : p.Spares names q) (hqr : q.Spares names r) :
    p.Spares names r := by
  intro hp
  obtain ⟨hq, es, hes, hfirst⟩ := hpq hp
  obtain ⟨hr, fs, hfs, hsecond⟩ := hqr hq
  refine ⟨hr, es ++ fs, by rw [hfs, hes, List.append_assoc], fun e he => ?_⟩
  exact (List.mem_append.mp he).elim (hfirst e) (hsecond e)

theorem of_event {p q : Progress} {event : Event} (hleads : p.Leads q)
    (hreport : q.report = p.report ++ [event])
    (h : p.names = { names with issued := p.names.issued } → event.Ends names → event.Avoids names) :
    p.Spares names q := by
  intro hp
  refine ⟨?_, [event], hreport, List.forall_mem_singleton.mpr (h hp)⟩
  rw [hleads.names, hp]

end Progress.Spares

section
variable (primitives : Primitives) (frame : Frame) (names : NameSupply)

theorem hoist_spares (body : Scope) (comments : Comments) (p : Progress) :
    p.Spares names ((hoist frame body comments).run p).2 := by
  refine .of_event (hoist_leads frame body comments p) rfl fun hp hends => ?_
  change (p.names.draw (p.names.callableName frame.name.name)).1 ∉ names.reserved
  rw [hp]
  exact NameSupply.Ends.draw_notMem (s := { names with issued := p.names.issued }) hends
    (names.isNumbering_callableName frame.name.name)

theorem bindCondition_spares (s : Statement) (value : Expr) (p : Progress) :
    p.Spares names ((bindCondition s value).run p).2 := by
  refine .of_event (bindCondition_leads s value p) rfl fun hp hends => ?_
  change (p.names.draw p.names.variableName).1 ∉ names.reserved
  rw [hp]
  exact NameSupply.Ends.draw_notMem (s := { names with issued := p.names.issued }) hends
    names.isNumbering_variableName

theorem conclude_spares (s : Statement) (p : Progress) :
    p.Spares names ((conclude primitives frame s).run p).2 := by
  refine conclude_preorder primitives frame (fun _ _ _ => .trans) (hoist_spares frame names)
    (fun p event hstays => ?_) (bindCondition_spares names) s p
  refine .of_event ⟨rfl, Nat.le_refl _, List.prefix_rfl⟩ rfl fun _ _ => ?_
  cases event <;> trivial

theorem Element.lower_spares (e : Element) (p : Progress) :
    p.Spares names ((e.lower primitives).run p).2 :=
  e.lower_preorder primitives .refl (fun _ _ _ => .trans)
    (fun c _ => conclude_spares primitives (.ofCallable c) names) p

end

/-! ### What statements introduce -/

mutual
/-- The names that statements introduce, with those of all inner blocks. -/
def Statement.bindings : Statement → List String
  | ⟨.conditional branches, _⟩ => branches.bindings
  | ⟨.forEach symbols _ _ body, _⟩ => symbols.names ++ body.bindings
  | ⟨.whileLoop _ body, _⟩ => body.bindings
  | ⟨.repeatUntil block _ fixup, _⟩ => block.bindings ++ fixup.bindings
  | ⟨.qubits _ binding body, _⟩ => binding.lhs.names ++ body.bindings
  | ⟨.binding b, _⟩ => b.lhs.names
  | ⟨.expression _, _⟩ | ⟨.returns _, _⟩ | ⟨.fails _, _⟩ | ⟨.update _ _, _⟩ => []
def Branches.bindings : Branches → List String
  | .done => []
  | .otherwise block => block.bindings
  | .arm _ block rest => block.bindings ++ rest.bindings
def Block.bindings : Block → List String
  | ⟨body, _, _⟩ => body.bindings
def Scope.bindings : Scope → List String
  | ⟨statements, _⟩ => Statement.bindingsList statements
def Statement.bindingsList : List Statement → List String
  | [] => []
  | s :: ss => s.bindings ++ Statement.bindingsList ss
end

@[simp] theorem Block.bindings_eq (b : Block) :
    b.bindings = Statement.bindingsList b.body.statements := by
  obtain ⟨⟨statements, known⟩, location, comments⟩ := b
  rfl

@[simp] theorem Scope.bindings_eq (s : Scope) :
    s.bindings = Statement.bindingsList s.statements := by
  obtain ⟨statements, known⟩ := s
  rfl

@[simp] theorem Statement.bindingsList_append (ss ts : List Statement) :
    bindingsList (ss ++ ts) = bindingsList ss ++ bindingsList ts := by
  induction ss with
  | nil => rfl
  | cons s ss ih => simp only [List.cons_append, bindingsList, ih, List.append_assoc]

theorem Scope.bindings_of_isCallSequence {s : Scope} (h : s.isCallSequence = true) :
    s.bindings = [] := by
  obtain ⟨statements, known⟩ := s
  change statements.all Statement.isUnitCall = true at h
  change Statement.bindingsList statements = []
  induction statements with
  | nil => rfl
  | cons s ss ih =>
    simp only [List.all_cons, Bool.and_eq_true] at h
    obtain ⟨callee, argument, info, hs⟩ := Statement.of_isUnitCall h.1
    obtain ⟨kind, sinfo⟩ := s
    obtain rfl : kind = _ := hs
    exact ih h.2

/-- The statements `after` introduce what those `before` did, and what was bound in between. -/
def Binds (before : List String) (p : Progress) (after : List String) (q : Progress) : Prop :=
  ∃ events, q.report = p.report ++ events ∧ after.Perm (before ++ Event.variableNames events)

namespace Binds
variable {xs ys xs' ys' : List String} {p q r : Progress}

theorem refl (xs : List String) (p : Progress) : Binds xs p xs p :=
  ⟨[], by simp, by simp [Event.variableNames]⟩

theorem append (hpq : Binds xs p xs' q) (hqr : Binds ys q ys' r) :
    Binds (xs ++ ys) p (xs' ++ ys') r := by
  obtain ⟨es, hes, hxs⟩ := hpq
  obtain ⟨fs, hfs, hys⟩ := hqr
  refine ⟨es ++ fs, by rw [hfs, hes, List.append_assoc], ?_⟩
  refine (hxs.append hys).trans ?_
  rw [Event.variableNames_append]
  grind

theorem trans {zs : List String} (hpq : Binds xs p ys q) (hqr : Binds ys q zs r) :
    Binds xs p zs r := by
  obtain ⟨es, hes, hys⟩ := hpq
  obtain ⟨fs, hfs, hzs⟩ := hqr
  refine ⟨es ++ fs, by rw [hfs, hes, List.append_assoc], hzs.trans ?_⟩
  rw [Event.variableNames_append, ← List.append_assoc]
  exact hys.append_right _

/-- Names that are introduced ahead of both stay ahead of both. -/
theorem cons_left (zs : List String) (h : Binds xs p xs' q) : Binds (zs ++ xs) p (zs ++ xs') q :=
  (refl zs p).append h

end Binds

section
variable (primitives : Primitives) (frame : Frame)

theorem applyTest_bindings (s : Statement) (t : OutcomeTest) (p : Progress) :
    Statement.bindingsList ((applyTest primitives frame s t).run p).1 = [] := by
  obtain ⟨outcome, condition, body, default⟩ := t
  cases default <;> rfl

/-- The blocks of a separable test introduce nothing. -/
theorem Statement.bindings_of_outcomeTest {s : Statement} {t : OutcomeTest}
    (h : s.outcomeTest? = some t) (hsep : t.isSeparable = true) : s.bindings = [] := by
  obtain ⟨guard, block, rest, info, rfl, harms, -, hbody, hdefault⟩ := Statement.of_outcomeTest h
  simp only [OutcomeTest.isSeparable, Bool.and_eq_true, hbody, hdefault] at hsep
  have hblock : block.bindings = [] := by
    rw [Block.bindings_eq, ← Scope.bindings_eq]
    exact Scope.bindings_of_isCallSequence hsep.1
  have hrest : rest.bindings = [] := by
    cases rest with
    | done => rfl
    | otherwise other =>
      rw [Branches.bindings, Block.bindings_eq, ← Scope.bindings_eq]
      exact Scope.bindings_of_isCallSequence hsep.2
    | arm c b r => simp [Branches.arms] at harms
  rw [Statement.bindings, Branches.bindings, hblock, hrest, List.append_nil]

theorem conclude_binds (s : Statement) (p : Progress) :
    Binds s.bindings p (Statement.bindingsList ((conclude primitives frame s).run p).1)
      ((conclude primitives frame s).run p).2 := by
  obtain ⟨event, hstays, heq, -⟩ | ⟨t, ht, hsep, -, heq⟩ | ⟨t, ht, hsep, -, heq⟩ :=
    conclude_cases primitives frame s p
  · rw [heq]
    refine ⟨[event], rfl, ?_⟩
    have hevent : Event.variableNames [event] = [] := by
      cases event <;> first | rfl | exact hstays.elim
    rw [hevent, Statement.bindingsList, Statement.bindingsList]
  · rw [heq, Statement.bindings_of_outcomeTest ht hsep, applyTest_bindings]
    obtain ⟨events, htells, hnone⟩ := applyTest_tells primitives frame s t p
    exact ⟨events, htells.report, by rw [hnone]; exact .refl _⟩
  · rw [heq, Statement.bindings_of_outcomeTest ht hsep]
    dsimp only
    obtain ⟨events, htells, hnone⟩ := applyTest_tells primitives frame s
      { t with condition := ((bindCondition s t.condition).run p).1.2 }
      ((bindCondition s t.condition).run p).2
    refine ⟨_, ((bindCondition_tells s t.condition p).trans htells).report, ?_⟩
    rw [Statement.bindingsList, applyTest_bindings, Event.variableNames_append, hnone]
    exact .refl _

theorem Scope.lower_binds (scope : Scope) (p : Progress) :
    Binds scope.bindings p ((scope.lower primitives frame).run p).1.bindings
      ((scope.lower primitives frame).run p).2 := by
  rw [Scope.lower_run, Scope.bindings_eq, Scope.bindings_eq]
  refine ((lower_induction primitives frame
    (P := fun s p out q => Binds s.bindings p (Statement.bindingsList out) q)
    (L := fun ss p out q => Binds (Statement.bindingsList ss) p (Statement.bindingsList out) q)
    (Q := fun _ b p below q => Binds b.bindings p below.bindings q)
    ?nil ?cons ?leaf ?forEach ?whileLoop ?repeatUntil ?qubits ?conditional ?done ?otherwise ?last
    ?nested).2.1 scope.statements p).2
  case nil => exact fun p => .refl [] p
  case cons =>
    intro s ss p out q outs r _ _ hs hss
    rw [Statement.bindingsList_append]
    exact hs.append hss
  case leaf =>
    intro kind info p _
    rw [Statement.bindingsList, Statement.bindingsList, List.append_nil]
    exact .refl _ p
  case forEach =>
    intro symbols itemTy iterable body info p out q _ hbody
    simpa [Statement.bindingsList, Statement.bindings] using hbody.cons_left symbols.names
  case whileLoop =>
    intro condition body info p out q _ hbody
    simpa [Statement.bindingsList, Statement.bindings] using hbody
  case repeatUntil =>
    intro block success fixup info p out q outs r _ _ hblock hfixup
    simpa [Statement.bindingsList, Statement.bindings, Block.holding] using hblock.append hfixup
  case qubits =>
    intro kind binding body info p out q _ hbody
    simpa [Statement.bindingsList, Statement.bindings] using hbody.cons_left binding.lhs.names
  case conditional =>
    intro branches info p below q _ hbranches
    exact hbranches.trans (conclude_binds primitives frame ⟨.conditional below, info⟩ q)
  case done => exact fun _ p => .refl [] p
  case otherwise =>
    intro block info p out q _ hblock
    simpa [Branches.bindings, Block.holding] using hblock
  case last =>
    intro condition block rest info p out q below r _ _ hblock hrest _
    simpa [Branches.bindings, Block.holding] using hblock.append hrest
  case nested =>
    intro condition block rest info p out q c b below r _ _ hblock hrest
    have hinner := hrest.trans
      (conclude_binds primitives frame ⟨.conditional (.arm c b below), info⟩ r)
    simpa [Branches.bindings, Block.holding] using hblock.append hinner

end

/-! ### Whole programs -/

def Implementation.bindings : Implementation → List String
  | .provided _ scope => scope.bindings
  | .intrinsic | .external | .generated _ => []

def Callable.bindings (c : Callable) : List String :=
  c.specializations.flatMap (·.implementation.bindings)

def Element.bindings : Element → List String
  | .callable c => c.bindings
  | .customType _ => []

def Namespace.bindings (ns : Namespace) : List String := ns.elements.flatMap Element.bindings

/-- The names that the statements of a program introduce. -/
def Compilation.bindings (c : Compilation) : List String :=
  c.namespaces.flatMap Namespace.bindings

def Element.callableNames : Element → List QualifiedName
  | .callable c => [c.name]
  | .customType _ => []

def Namespace.callableNames (ns : Namespace) : List QualifiedName :=
  ns.elements.flatMap Element.callableNames

theorem Namespace.map_name_callables (ns : Namespace) :
    ns.callables.map (·.name) = ns.callableNames := by
  obtain ⟨name, elements⟩ := ns
  change (elements.filterMap Element.callable?).map (·.name) = elements.flatMap Element.callableNames
  induction elements with
  | nil => rfl
  | cons e es ih =>
    rw [List.flatMap_cons, ← ih]
    cases e <;> rfl

/-- The names of the callables that a program declares. -/
def Compilation.callableNames (c : Compilation) : List QualifiedName :=
  c.namespaces.flatMap Namespace.callableNames

theorem Chain.binds {α β : Type} {R : α → Progress → β → Progress → Prop} {as : List α}
    {bs : List β} {p q : Progress} (f : α → List String) (g : β → List String)
    (h : Chain R as p bs q) (hR : ∀ a p b q, R a p b q → Binds (f a) p (g b) q) :
    Binds (as.flatMap f) p (bs.flatMap g) q := by
  induction h with
  | nil p => exact .refl [] p
  | cons hab _ ih => exact (hR _ _ _ _ hab).append ih

theorem Frame.Makes.bindings {frame : Frame} {c : Callable} (h : frame.Makes c) :
    c.bindings = [] := by
  obtain ⟨name, body, comments, hbody, rfl⟩ := h
  change (body.mapParameters _).bindings ++ [] = []
  rw [List.append_nil]
  exact Scope.bindings_of_isCallSequence (body.isCallSequence_mapParameters _ hbody)

section
variable (primitives : Primitives)

theorem Specialization.lower_binds (frame : Frame) (s : Specialization) (p : Progress) :
    Binds s.implementation.bindings p ((s.lower primitives frame).run p).1.implementation.bindings
      ((s.lower primitives frame).run p).2 := by
  obtain ⟨params, scope, -, himpl, heq⟩ | ⟨-, heq⟩ := s.lower_cases primitives frame p
  · rw [heq, himpl]
    exact scope.lower_binds primitives frame p
  · rw [heq]
    exact .refl _ p

theorem Element.lower_binds (e : Element) (p : Progress) :
    Binds e.bindings p ((e.lower primitives).run p).1.bindings ((e.lower primitives).run p).2 := by
  cases e with
  | customType t => exact .refl [] p
  | callable c =>
    refine (Chain.mapM (Specialization.lower primitives (.ofCallable c)) c.specializations p).binds
      (·.implementation.bindings) (·.implementation.bindings) fun s p b q hrun => ?_
    have hbinds := s.lower_binds primitives (.ofCallable c) p
    rw [hrun] at hbinds
    exact hbinds

theorem Element.lower_callableNames (e : Element) (p : Progress) :
    ((e.lower primitives).run p).1.callableNames = e.callableNames := by
  cases e <;> rfl

end

/-- A part of a program that is lowered declares what it declared and the operations that were made,
its statements introduce what they introduced and the variables that were bound, and the names of
both come from the supply. -/
structure Accounts (names : NameSupply) (before : List Namespace) (out : Lowered (List Namespace)) :
    Prop where
  supply : out.names = { names with issued := out.names.issued }
  issued : names.issued ≤ out.names.issued
  callables : (out.result.flatMap Namespace.callableNames).Perm
    (before.flatMap Namespace.callableNames ++ out.report.filterMap Event.target?)
  bindings : (out.result.flatMap Namespace.bindings).Perm
    (before.flatMap Namespace.bindings ++ Event.variableNames out.report)
  drawsCallables : out.names.issued < names.issued + 2 ^ 32 →
    names.Draws names.callablePrefix out.names.issued (Event.callableNames out.report)
  drawsVariables : out.names.issued < names.issued + 2 ^ 32 →
    names.Draws names.variablePrefix out.names.issued (Event.variableNames out.report)

namespace Accounts

theorem nil (names : NameSupply) : Accounts names [] ⟨[], names, []⟩ :=
  ⟨rfl, Nat.le_refl _, .refl _, .refl _, fun _ => .nil, fun _ => .nil⟩

theorem append {names : NameSupply} {nss mss : List Namespace} {x y : Lowered (List Namespace)}
    (hx : Accounts names nss x) (hy : Accounts x.names mss y) :
    Accounts names (nss ++ mss) ⟨x.result ++ y.result, y.names, x.report ++ y.report⟩ := by
  have hbefore := hx.issued
  refine ⟨?_, hx.issued.trans hy.issued, ?_, ?_, fun hlt => ?_, fun hlt => ?_⟩
  · dsimp only
    rw [hy.supply, hx.supply]
  · simp only [List.flatMap_append, List.filterMap_append]
    refine (hx.callables.append hy.callables).trans ?_
    grind
  · simp only [List.flatMap_append, Event.variableNames_append]
    refine (hx.bindings.append hy.bindings).trans ?_
    grind
  · have hsecond := hy.drawsCallables (hlt.trans_le (Nat.add_le_add_right hbefore _))
    rw [hx.supply] at hsecond
    rw [Event.callableNames_append]
    exact (hx.drawsCallables (hy.issued.trans_lt hlt)).append hsecond hx.issued hy.issued
  · have hsecond := hy.drawsVariables (hlt.trans_le (Nat.add_le_add_right hbefore _))
    rw [hx.supply] at hsecond
    rw [Event.variableNames_append]
    exact (hx.drawsVariables (hy.issued.trans_lt hlt)).append hsecond hx.issued hy.issued

section
variable {names : NameSupply} {nss : List Namespace} {out : Lowered (List Namespace)}
  (h : Accounts names nss out) (hlt : out.names.issued < 2 ^ 32)
include h hlt

theorem callableDraws :
    names.Gives names.callablePrefix out.names.issued (Event.callableNames out.report) :=
  (h.drawsCallables (Nat.lt_add_left _ hlt)).gives hlt

theorem variableDraws :
    names.Gives names.variablePrefix out.names.issued (Event.variableNames out.report) :=
  (h.drawsVariables (Nat.lt_add_left _ hlt)).gives hlt

end

end Accounts

section
variable (primitives : Primitives)

/-- The last event of a namespace names nothing. -/
theorem Event.names_extended (events : List Event) (space : String) (count : Nat) (empty : Bool) :
    let report := if empty then events else events ++ [.extended space count]
    report.filterMap Event.target? = events.filterMap Event.target? ∧
      Event.variableNames report = Event.variableNames events := by
  cases empty <;> simp [Event.variableNames, Event.target?, Event.variable?]

/-- The elements of a namespace are lowered in order, the operations made from their blocks follow,
and the report names these. -/
theorem Namespace.lower_tells (names : NameSupply) (ns : Namespace) :
    ∃ elements p, Chain (fun e p b q => (Element.lower primitives e).run p = (b, q))
        ns.elements { names } elements p ∧
      (∀ c ∈ p.hoisted, ∃ frame : Frame, frame.Makes c) ∧
      Progress.Tells { names } p.report p ∧
      (ns.lower primitives names).result = { ns with elements := elements ++ p.hoisted.map .callable } ∧
      (ns.lower primitives names).names = p.names ∧
      (ns.lower primitives names).report.filterMap Event.target? = p.hoisted.map (·.name) ∧
      Event.variableNames (ns.lower primitives names).report = Event.variableNames p.report := by
  obtain ⟨elements, p, hchain, hmakes, heq⟩ := ns.lower_chain primitives names
  obtain ⟨events, htells⟩ := (hchain.run (Element.lower_tells primitives)).preorder
    (S := fun p q => ∃ events, p.Tells events q) (fun p => ⟨[], .refl p⟩)
    (fun _ _ _ ⟨_, hpq⟩ ⟨_, hqr⟩ => ⟨_, hpq.trans hqr⟩) (fun _ _ _ _ h => h)
  obtain ⟨made, hmade, htargets⟩ := htells.hoisted
  obtain rfl : p.hoisted = made := hmade
  obtain rfl : p.report = events := htells.report
  obtain ⟨htargets', hvariables'⟩ :=
    Event.names_extended p.report ns.name p.hoisted.length p.hoisted.isEmpty
  refine ⟨elements, p, hchain, hmakes, htells, ?_, ?_, ?_, ?_⟩ <;> rw [heq]
  · exact htargets'.trans htargets.symm
  · exact hvariables'

theorem Namespace.lower_avoids (names : NameSupply) (ns : Namespace) :
    ∀ e ∈ (ns.lower primitives names).report, e.Ends names → e.Avoids names := by
  obtain ⟨elements, p, hchain, -, heq⟩ := ns.lower_chain primitives names
  have hspares := (hchain.run (S := fun _ p _ q => p.Spares names q)
    (Element.lower_spares primitives names)).preorder .refl (fun _ _ _ => .trans) fun _ _ _ _ h => h
  obtain ⟨-, events, hevents, havoids⟩ := hspares rfl
  obtain rfl : p.report = events := hevents
  intro e he
  rw [heq] at he
  dsimp only at he
  split at he
  · exact havoids e he
  · obtain he | he := List.mem_append.mp he
    · exact havoids e he
    · obtain rfl := List.mem_singleton.mp he
      exact fun _ => trivial

theorem Namespace.lower_accounts (names : NameSupply) (ns : Namespace) :
    Accounts names [ns] ⟨[(ns.lower primitives names).result], (ns.lower primitives names).names,
      (ns.lower primitives names).report⟩ := by
  obtain ⟨elements, p, hchain, hmakes, htells, hresult, hsupply, htargets, hvariables⟩ :=
    ns.lower_tells primitives names
  obtain ⟨events, hevents, hbinds⟩ :=
    (hchain.run (Element.lower_binds primitives)).binds Element.bindings Element.bindings
      fun _ _ _ _ h => h
  obtain rfl : p.report = events := hevents
  have hnames : elements.flatMap Element.callableNames = ns.elements.flatMap Element.callableNames := by
    rw [List.flatMap_def, (hchain.run (S := fun e _ b _ => b.callableNames = e.callableNames)
      (Element.lower_callableNames primitives)).map_eq _ _ fun _ _ _ _ h => h, ← List.flatMap_def]
  have hmade : (p.hoisted.map Element.callable).flatMap Element.callableNames =
      p.hoisted.map (·.name) := by
    rw [List.flatMap_map, List.map_eq_flatMap]
    rfl
  have hbound : (p.hoisted.map Element.callable).flatMap Element.bindings = [] := by
    refine List.flatMap_eq_nil_iff.mpr fun e he => ?_
    obtain ⟨c, hc, rfl⟩ := List.mem_map.mp he
    obtain ⟨frame, hframe⟩ := hmakes c hc
    exact hframe.bindings
  have hcallables : Event.callableNames (ns.lower primitives names).report =
      Event.callableNames p.report := by
    obtain ⟨made, hmade, hevents⟩ := htells.hoisted
    obtain rfl : p.hoisted = made := hmade
    rw [Event.callableNames, Event.callableNames, htargets, hevents]
  rw [hsupply]
  refine ⟨htells.leads.names, htells.leads.issued, ?_, ?_, ?_, ?_⟩
  · simp only [hresult, List.flatMap_cons, List.flatMap_nil, List.append_nil,
      Namespace.callableNames, List.flatMap_append, hmade, htargets, hnames]
    exact .refl _
  · simp only [hresult, List.flatMap_cons, List.flatMap_nil, List.append_nil, Namespace.bindings,
      List.flatMap_append, hbound, hvariables]
    exact hbinds
  · simpa only [hcallables] using htells.callableDraws
  · simpa only [hvariables] using htells.variableDraws

theorem Namespace.lowerAll_accounts (names : NameSupply) (nss : List Namespace) :
    Accounts names nss (Namespace.lowerAll primitives names nss) := by
  induction nss generalizing names with
  | nil => exact .nil names
  | cons ns nss ih => exact (ns.lower_accounts primitives names).append (ih _)

theorem Namespace.lowerAll_avoids (names : NameSupply) (nss : List Namespace) :
    ∀ e ∈ (Namespace.lowerAll primitives names nss).report, e.Ends names → e.Avoids names := by
  induction nss generalizing names with
  | nil => exact fun e he => (by cases he)
  | cons ns nss ih =>
    intro e he
    obtain he | he := List.mem_append.mp he
    · exact ns.lower_avoids primitives names e he
    · have hrest := ih (ns.lower primitives names).names e he
      rw [(ns.lower_accounts primitives names).supply] at hrest
      cases e <;> exact hrest

end

/-- The operations that were made. -/
def Lowered.targets {α : Type} (out : Lowered α) : List QualifiedName :=
  out.report.filterMap Event.target?

theorem Event.Avoids.target {names : NameSupply} {events : List Event}
    (h : ∀ e ∈ events, e.Avoids names) {q : QualifiedName} (hq : q ∈ events.filterMap Event.target?) :
    q.name ∉ names.reserved := by
  obtain ⟨e, he, hq⟩ := List.mem_filterMap.mp hq
  have havoids := h e he
  cases e with
  | hoisted statements source target captured =>
    obtain rfl := Option.some.inj hq
    exact havoids
  | _ => cases hq

theorem Event.Avoids.variable {names : NameSupply} {events : List Event}
    (h : ∀ e ∈ events, e.Avoids names) {n : String} (hn : n ∈ Event.variableNames events) :
    n ∉ names.reserved := by
  obtain ⟨e, he, hn⟩ := List.mem_filterMap.mp hn
  have havoids := h e he
  cases e with
  | bound ty name =>
    obtain rfl := Option.some.inj hn
    exact havoids
  | _ => cases hn

theorem NameSupply.mem_reserved_foldl {n : String} (names : List String) (s : NameSupply) :
    n ∈ (names.foldl reserve s).reserved ↔ n ∈ names ∨ n ∈ s.reserved := by
  induction names generalizing s with
  | nil => simp
  | cons m names ih =>
    rw [List.foldl_cons, ih, reserve, List.mem_insert_iff, List.mem_cons]
    tauto

theorem NameSupply.callablePrefix_forCompilation (c : Compilation) (settings : Settings) :
    (forCompilation c settings).callablePrefix = settings.callablePrefix := by
  have hfoldl : ∀ (names : List String) (s : NameSupply),
      (names.foldl reserve s).callablePrefix = s.callablePrefix := by
    intro names
    induction names with
    | nil => exact fun s => rfl
    | cons n names ih => exact fun s => ih _
  exact hfoldl c.names (.ofSettings settings)

theorem Compilation.names_reserved {c : Compilation} {ns : Namespace} (hns : ns ∈ c.namespaces)
    {e : Element} (he : e ∈ ns.elements) (settings : Settings) :
    e.names ⊆ (NameSupply.forCompilation c settings).reserved := by
  intro n hn
  refine (NameSupply.mem_reserved_foldl ..).mpr (.inl (List.mem_append_left _ ?_))
  exact List.mem_flatMap.mpr ⟨ns, hns, List.mem_flatMap.mpr ⟨e, he, hn⟩⟩

theorem Compilation.Mentions.mem_reserved {c : Compilation} {n : String} (h : c.Mentions n)
    (settings : Settings) : n ∈ (NameSupply.forCompilation c settings).reserved :=
  (NameSupply.mem_reserved_foldl ..).mpr (.inl (Compilation.mem_names h))

/-- What the program mentions is no operation that was made. -/
theorem Compilation.lower_targets {c : Compilation} {options : Options}
    (hissued : (c.lower options).names.issued < 2 ^ 32)
    {q : QualifiedName}
    (hq : q.name ∈ (NameSupply.forCompilation c options.settings).reserved) :
    q ∉ (c.lower options).targets := by
  have haccounts := Namespace.lowerAll_accounts options.primitives
    (.forCompilation c options.settings) c.namespaces
  exact fun hmem => (haccounts.callableDraws hissued).free _ (List.mem_map_of_mem hmem) hq

/-- **Generated names are fresh.** As long as fewer than `2 ^ 32` numbers are drawn, the operations
that were made have distinct names even without their namespaces, the variables that were bound have
distinct names, and the program mentions none of these names. -/
theorem Compilation.lower_fresh (c : Compilation) (options : Options)
    (h : (c.lower options).names.issued < 2 ^ 32) :
    ((c.lower options).result.callableNames.Perm
        (c.callableNames ++ (c.lower options).report.filterMap Event.target?) ∧
      (c.lower options).result.bindings.Perm
        (c.bindings ++ Event.variableNames (c.lower options).report)) ∧
    (Event.callableNames (c.lower options).report).Nodup ∧
    (Event.variableNames (c.lower options).report).Nodup ∧
    ∀ n, n ∈ Event.callableNames (c.lower options).report ∨
      n ∈ Event.variableNames (c.lower options).report → ¬ c.Mentions n := by
  have haccounts := Namespace.lowerAll_accounts options.primitives
    (.forCompilation c options.settings) c.namespaces
  have hcallables := haccounts.callableDraws h
  have hvariables := haccounts.variableDraws h
  refine ⟨⟨haccounts.callables, haccounts.bindings⟩, hcallables.nodup, hvariables.nodup, ?_⟩
  intro n hn hmentions
  have hreserved := hmentions.mem_reserved options.settings
  exact hn.elim (hcallables.free n · hreserved) (hvariables.free n · hreserved)

namespace Sample

def q : Variable := { name := "q", ty := .qubit }

def r : Variable := { name := "r", ty := .outcome }

/-- The call `name(q)`. -/
def callOn (name : String) (result : Ty) : Expr :=
  .call (.globalName ⟨"Sample", name⟩ none (.operationOf .qubit result)) (.localName "q" .qubit)
    result

def block (name : String) : Scope := ⟨[.expression (callOn name .unit)], [q, r]⟩

/-- `if M(q) == One { X(q); } elif r == Zero { Y(q); } else { Z(q); }`. -/
def body : Scope :=
  ⟨[.conditional
      [(.equals (callOn "M" .outcome) (.outcome .one), block "X"),
        (.equals (.localName "r" .outcome) (.outcome .zero), block "Y")] (some (block "Z"))],
    [q, r]⟩

def operation (name : String) (implementation : Implementation) : Callable :=
  let signature : Signature := { argument := .tupleOf [.qubit, .outcome], result := .unit }
  { kind := .operation
    name := ⟨"Sample", name⟩
    signature
    params := .tuple [q.toParams, r.toParams]
    specializations := [{ kind := .body, parent := ⟨"Sample", name⟩, signature, implementation }] }

/-- The second operation has the first name that would be given to a block of the first. -/
def program : Compilation :=
  { namespaces :=
      [⟨"Sample",
        [.callable (operation "Main" (.provided (.tuple [q.toParams, r.toParams]) body)),
          .callable (operation "_ctrl1_Main" .intrinsic)]⟩] }

end Sample

/-- The taken name is passed over, so six numbers are drawn for five names. -/
theorem Sample.program_fresh :
    (Sample.program.lower {}).names.issued = 6 ∧
      Event.callableNames (Sample.program.lower {}).report =
        ["_ctrl2_Main", "_ctrl3_Main", "_ctrl5_Main", "_ctrl6_Main"] ∧
      Event.variableNames (Sample.program.lower {}).report = ["__classic_ctrl4__"] ∧
      ¬ Sample.program.Mentions "__classic_ctrl4__" := by
  have hissued : (Sample.program.lower {}).names.issued = 6 := by decide +kernel
  have hvariables : Event.variableNames (Sample.program.lower {}).report = ["__classic_ctrl4__"] := by
    decide +kernel
  refine ⟨hissued, by decide +kernel, hvariables, ?_⟩
  refine (Compilation.lower_fresh Sample.program {} (by rw [hissued]; decide)).2.2.2 _ (.inr ?_)
  rw [hvariables]
  exact List.mem_singleton_self _

end OutcomeControl
