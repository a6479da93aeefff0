import OutcomeControl.Proofs.Gathering
import OutcomeControl.Proofs.Yield

/-! Where calls of operations come from.

The pass lowers functions like operations. The calls of operations that a callable has afterwards are
its own, or generated ones that run an operation made from one of its blocks. So a function without such
calls gets one exactly if a block is moved out of it (`Compilation.lower_operationCalls`), and this
happens (`Sample.checking_calls`). -/

namespace OutcomeControl

/-- A call of what has the type of an operation. -/
def Expr.isOperationCall (e : Expr) : Bool := match e.kind with
  | .call callee _ => match callee.ty with
    | .operation _ _ _ => true
    | _ => false
  | _ => false

def Visit.operationCall? : Visit → Option Expr
  | .expression e => if e.isOperationCall then some e else none
  | _ => none

/-- The calls of operations in the bodies of an element. -/
def Element.operationCalls (e : Element) : List Expr := e.gather Visit.operationCall?

theorem Visit.content_operationCall? : Visit.Content Visit.operationCall? where
  callable _ := rfl
  scope _ := rfl
  compound _ _ := rfl
  type _ := rfl
  localName _ := rfl

theorem Visit.generated_operationCall? : Visit.Generated Visit.operationCall? where
  localName _ _ := rfl
  tuple _ := rfl
  unit := rfl

/-! ### Each call is an old one or runs an operation -/

/-- The expression is a generated call in the callable of `frame` that runs one of the operations. -/
def Frame.Runs (frame : Frame) (primitives : Primitives) (operations : List Callable) (e : Expr) : Prop :=
  ∃ outcome condition target captured,
    e = (primitives.forOutcome outcome).controlCall condition target captured frame ∧
      target.name ∈ operations.map (·.name)

theorem Frame.Runs.mono {frame : Frame} {primitives : Primitives} {operations more : List Callable}
    {e : Expr} (h : frame.Runs primitives operations e) (hsub : operations ⊆ more) :
    frame.Runs primitives more e := by
  obtain ⟨outcome, condition, target, captured, he, hmem⟩ := h
  exact ⟨outcome, condition, target, captured, he, List.map_subset _ hsub hmem⟩

/-- Every call is one that was there, one of the `Old` ones, or runs an operation made in between. -/
def Calls (primitives : Primitives) (frame : Frame) (Old : Expr → Prop) (xs : List Expr) (p : Progress)
    (ys : List Expr) (q : Progress) : Prop :=
  ∃ made, q.hoisted = p.hoisted ++ made ∧
    ∀ e ∈ ys, e ∈ xs ∨ Old e ∨ frame.Runs primitives made e

namespace Calls
variable {primitives : Primitives} {frame : Frame} {Old : Expr → Prop} {xs ys zs xs' ys' : List Expr}
  {p q r : Progress}

theorem of_hoisted_eq (h : q.hoisted = p.hoisted) (hys : ∀ e ∈ ys, e ∈ xs ∨ Old e) :
    Calls primitives frame Old xs p ys q :=
  ⟨[], by rw [h, List.append_nil], fun e he => (hys e he).imp id .inl⟩

theorem append (hpq : Calls primitives frame Old xs p xs' q)
    (hqr : Calls primitives frame Old ys q ys' r) :
    Calls primitives frame Old (xs ++ ys) p (xs' ++ ys') r := by
  obtain ⟨made, hmade, hxs⟩ := hpq
  obtain ⟨more, hmore, hys⟩ := hqr
  refine ⟨made ++ more, by rw [hmore, hmade, List.append_assoc], fun e he => ?_⟩
  rcases List.mem_append.mp he with he | he
  · rcases hxs e he with hmem | hold | hruns
    · exact .inl (List.mem_append_left _ hmem)
    · exact .inr (.inl hold)
    · exact .inr (.inr (hruns.mono (List.subset_append_left ..)))
  · rcases hys e he with hmem | hold | hruns
    · exact .inl (List.mem_append_right _ hmem)
    · exact .inr (.inl hold)
    · exact .inr (.inr (hruns.mono (List.subset_append_right ..)))

theorem trans (hpq : Calls primitives frame Old xs p ys q)
    (hqr : Calls primitives frame Old ys q zs r) : Calls primitives frame Old xs p zs r := by
  obtain ⟨made, hmade, hys⟩ := hpq
  obtain ⟨more, hmore, hzs⟩ := hqr
  refine ⟨made ++ more, by rw [hmore, hmade, List.append_assoc], fun e he => ?_⟩
  rcases hzs e he with hmem | hold | hruns
  · rcases hys e hmem with hmem | hold | hruns
    · exact .inl hmem
    · exact .inr (.inl hold)
    · exact .inr (.inr (hruns.mono (List.subset_append_left ..)))
  · exact .inr (.inl hold)
  · exact .inr (.inr (hruns.mono (List.subset_append_right ..)))

/-- A call of a primitive is the one new call, besides those in its condition. -/
theorem mem_controlCall {outcome : Outcome} {condition e : Expr} {target : Target}
    {captured : List Variable}
    (he : e ∈ ((primitives.forOutcome outcome).controlCall condition target captured
      frame).visits.filterMap Visit.operationCall?) :
    e = (primitives.forOutcome outcome).controlCall condition target captured frame ∨
      e ∈ condition.visits.filterMap Visit.operationCall? := by
  rw [Visit.content_operationCall?.controlCall Visit.generated_operationCall?] at he
  rcases List.mem_append.mp he with hcall | hparts
  · exact .inl (List.mem_singleton.mp hcall)
  · rcases List.mem_append.mp hparts with hcallee | hparts
    · cases hcallee
    · rcases List.mem_append.mp hparts with hcondition | htarget
      · exact .inr hcondition
      · cases htarget

theorem gathers (primitives : Primitives) (frame : Frame) (Old : Expr → Prop) :
    Gathers primitives frame Visit.operationCall? (Calls primitives frame Old)
      fun v => ∀ e, v.operationCall? = some e → Old e where
  content := Visit.content_operationCall?
  refl xs p := .of_hoisted_eq rfl fun e he => .inl he
  note xs p event _ := .of_hoisted_eq rfl fun e he => .inl he
  append := Calls.append
  trans := Calls.trans
  localName name ty v hv e he := by
    have hmem := List.mem_filterMap.mpr ⟨v, hv, he⟩
    rw [Visit.content_operationCall?.variableName Visit.generated_operationCall?] at hmem
    cases hmem
  guard e p _ := .of_hoisted_eq rfl nofun
  binding s value p hvalue := by
    refine .of_hoisted_eq rfl fun e he => .inr ?_
    change e ∈ (s.bindingOf _ value).visits.filterMap _ at he
    rw [Statement.bindingOf, Visit.content_operationCall?.statementParts rfl, StatementKind.visits,
      List.filterMap_append, Visit.content_operationCall?.symbols, List.nil_append] at he
    obtain ⟨v, hv, he⟩ := List.mem_filterMap.mp he
    exact hvalue v hv e he
  block s outcome condition body p hcondition _ := by
    refine ⟨[_], rfl, fun e he => ?_⟩
    change e ∈ (s.replacedBy ((primitives.forOutcome outcome).controlCall condition _ _
      frame)).visits.filterMap Visit.operationCall? at he
    rw [Statement.replacedBy, Visit.content_operationCall?.statementParts rfl] at he
    rcases mem_controlCall he with rfl | he
    · exact .inr (.inr ⟨outcome, condition, _, _, rfl, List.mem_singleton_self _⟩)
    · obtain ⟨v, hv, he⟩ := List.mem_filterMap.mp he
      exact .inr (.inl (hcondition v hv e he))

end Calls

/-! ### An operation that is made is called -/

/-- A statement that is a call of an operation. -/
def Statement.isOperationCall (s : Statement) : Bool := match s.kind with
  | .expression e => e.isOperationCall
  | _ => false

def Visit.operationStatement? : Visit → Option Statement
  | .statement s => if s.isOperationCall then some s else none
  | _ => none

theorem Visit.content_operationStatement? : Visit.Content Visit.operationStatement? where
  callable _ := rfl
  scope _ := rfl
  compound s h := by
    obtain ⟨kind, info⟩ := s
    cases kind with
    | expression e => exact absurd trivial h
    | _ => rfl
  type _ := rfl
  localName _ := rfl

theorem Expr.filterMap_operationStatement? (e : Expr) :
    e.visits.filterMap Visit.operationStatement? = [] := by
  refine List.filterMap_eq_nil_iff.mpr fun v hv => ?_
  cases v with
  | statement s => exact absurd hv (e.statement_notMem_visits s)
  | _ => rfl

/-- If calls of operations stand there as statements, some do so afterwards, and if an operation was made
in between, some do so in any case. -/
def Persists (xs : List Statement) (p : Progress) (ys : List Statement) (q : Progress) : Prop :=
  (xs ≠ [] → ys ≠ []) ∧ (q.hoisted ≠ p.hoisted → ys ≠ [])

namespace Persists
variable {xs ys zs xs' ys' : List Statement} {p q r : Progress}

theorem of_hoisted_eq (xs : List Statement) (h : q.hoisted = p.hoisted) : Persists xs p xs q :=
  ⟨id, fun hne => absurd h hne⟩

theorem append (hpq : Persists xs p xs' q) (hqr : Persists ys q ys' r) :
    Persists (xs ++ ys) p (xs' ++ ys') r := by
  constructor
  · intro hne
    rw [Ne, List.append_eq_nil_iff, not_and_or] at hne ⊢
    exact hne.imp hpq.1 hqr.1
  · intro hne
    rw [Ne, List.append_eq_nil_iff, not_and_or]
    by_cases hhoisted : q.hoisted = p.hoisted
    · exact .inr (hqr.2 fun heq => hne (heq.trans hhoisted))
    · exact .inl (hpq.2 hhoisted)

theorem trans (hpq : Persists xs p ys q) (hqr : Persists ys q zs r) : Persists xs p zs r := by
  refine ⟨fun hne => hqr.1 (hpq.1 hne), fun hne => ?_⟩
  by_cases hhoisted : q.hoisted = p.hoisted
  · exact hqr.2 fun heq => hne (heq.trans hhoisted)
  · exact hqr.1 (hpq.2 hhoisted)

theorem gathers (primitives : Primitives) (frame : Frame) :
    Gathers primitives frame Visit.operationStatement? Persists fun _ => True where
  content := Visit.content_operationStatement?
  refl xs p := .of_hoisted_eq xs rfl
  note xs p event _ := .of_hoisted_eq xs rfl
  append := Persists.append
  trans := Persists.trans
  localName _ _ _ _ := trivial
  guard e p _ := by
    rw [e.filterMap_operationStatement?]
    exact .of_hoisted_eq [] rfl
  binding s value p _ := ⟨fun h => absurd rfl h, fun h => absurd rfl h⟩
  block s outcome condition body p _ _ := ⟨fun _ => nofun, fun _ => nofun⟩

end Persists

/-- A call of an operation that is a statement of a body is a call of an operation in it. -/
theorem Element.operationCalls_ne_nil {e : Element} (h : e.gather Visit.operationStatement? ≠ []) :
    e.operationCalls ≠ [] := by
  obtain ⟨s, hs⟩ := List.exists_mem_of_ne_nil _ h
  obtain ⟨body, hbody, hs⟩ := List.mem_flatMap.mp hs
  obtain ⟨v, hv, hs⟩ := List.mem_filterMap.mp hs
  cases v with
  | statement t =>
    obtain ⟨kind, info⟩ := t
    cases kind with
    | expression call =>
      have hcall : call.isOperationCall = true := by
        by_contra hfalse
        simp [Visit.operationStatement?, Statement.isOperationCall, hfalse] at hs
      have hmem : .expression call ∈ body.visits := by
        refine (Scope.of_mem_visits body hv).visits_subset ?_
        simp [Statement.visits, StatementKind.visits, Expr.visits_eq]
      refine List.ne_nil_of_mem (a := call) (List.mem_flatMap.mpr ⟨body, hbody, ?_⟩)
      exact List.mem_filterMap.mpr ⟨_, hmem, if_pos hcall⟩
    | _ => cases hs
  | _ => cases hs

/-! ### Programs -/

section
variable {primitives : Primitives} {p q : Progress} {y : Yield} (h : y.Arises primitives p q)
include h

/-- Each call of an operation was there, or runs an operation made from the callable. -/
theorem Yield.Arises.operationCalls {d : Callable} (hd : y.before = .callable d) :
    ∀ e ∈ y.after.operationCalls, e ∈ y.before.operationCalls ∨
      (Frame.ofCallable d).Runs primitives y.operations e := by
  have hgathers : ∀ c, y.before = .callable c → Gathers primitives (.ofCallable c)
      Visit.operationCall? (Calls primitives (.ofCallable d) (· ∈ y.before.operationCalls))
      fun v => ∀ e, v.operationCall? = some e → e ∈ y.before.operationCalls := by
    intro c hc
    obtain rfl := Element.callable.inj (hd.symm.trans hc)
    exact Calls.gathers primitives (.ofCallable d) _
  have hcalls := Gathers.bodies hgathers (fun xs p => .of_hoisted_eq rfl fun e he => .inl he)
    (fun body hbody v hv e he =>
      List.mem_flatMap.mpr ⟨body, hbody, List.mem_filterMap.mpr ⟨v, hv, he⟩⟩) p
  rw [h.run] at hcalls
  obtain ⟨made, hmade, hcalls⟩ := hcalls
  obtain rfl : y.operations = made := List.append_cancel_left (h.hoisted.symm.trans hmade)
  intro e he
  rcases hcalls e he with hmem | hmem | hruns
  · exact .inl hmem
  · exact .inl hmem
  · exact .inr hruns

/-- Where an operation is made there is a call of an operation. -/
theorem Yield.Arises.operationCalls_ne_nil (hmade : y.operations ≠ []) :
    y.after.operationCalls ≠ [] := by
  have hpersists := Gathers.bodies (e := y.before) (fun c _ => Persists.gathers primitives (.ofCallable c))
    (fun xs p => .of_hoisted_eq xs rfl) (fun _ _ _ _ => trivial) p
  rw [h.run] at hpersists
  refine Element.operationCalls_ne_nil (hpersists.2 fun heq => hmade ?_)
  rw [h.hoisted] at heq
  exact List.append_right_eq_self.mp heq

end

/-- **Functions get calls of operations only for the blocks that are moved out of them.** A callable
keeps its kind and its name. Each call of an operation in its bodies was there before, or it is a generated
call that runs an operation made from one of its blocks. If none was there before, there is one exactly
if an operation was made. -/
theorem Compilation.lower_operationCalls (c : Compilation) (options : Options) :
    ((c.yields options).map (·.map Yield.before) = c.namespaces.map Namespace.elements ∧
      (c.lower options).result.namespaces.map Namespace.elements =
        (c.yields options).map Yield.elements) ∧
    ∀ ys ∈ c.yields options, ∀ y ∈ ys, ∀ d, y.before = .callable d →
      (∃ d', y.after = .callable d' ∧ d'.kind = d.kind ∧ d'.name = d.name) ∧
      (∀ e ∈ y.after.operationCalls, e ∈ y.before.operationCalls ∨
        (Frame.ofCallable d).Runs options.primitives y.operations e) ∧
      (y.before.operationCalls = [] → (y.after.operationCalls ≠ [] ↔ y.operations ≠ [])) := by
  obtain ⟨hbefore, hresult, -⟩ := c.lower_yields options
  refine ⟨⟨hbefore, hresult⟩, fun ys hys y hy d hd => ?_⟩
  obtain ⟨ns, -, -, p, q, harises⟩ := Compilation.of_mem_yields hys hy
  have hcalls := harises.operationCalls hd
  refine ⟨?_, hcalls, fun hnone => ⟨fun hne hmade => ?_, harises.operationCalls_ne_nil⟩⟩
  · have hrun := congrArg Prod.fst harises.run
    rw [hd, Element.lower_callable_run] at hrun
    exact ⟨_, hrun.symm, rfl, rfl⟩
  · obtain ⟨e, he⟩ := List.exists_mem_of_ne_nil _ hne
    rcases hcalls e he with hmem | ⟨_, _, _, _, -, hmem⟩
    · rw [hnone] at hmem
      cases hmem
    · rw [hmade] at hmem
      cases hmem

namespace Sample

/-- A function with the body `if r == One { Note(q); }`, where `Note` is a function. -/
def checking : Compilation :=
  let note : Expr :=
    .call (.globalName ⟨"Sample", "Note"⟩ none (.function .qubit .unit)) (.localName "q" .qubit) .unit
  let body : Scope :=
    ⟨[.conditional [(.equals (.localName "r" .outcome) (.outcome .one), ⟨[.expression note], [q, r]⟩)]
      none], [q, r]⟩
  { namespaces :=
      [⟨"Sample", [.callable
        { operation "Check" (.provided (.tuple [q.toParams, r.toParams]) body) with kind := .function }]⟩] }

end Sample

/-- The function gets a call of a primitive. -/
theorem Sample.checking_calls :
    ∃ ys ∈ Sample.checking.yields {}, ∃ y ∈ ys, ∃ d, y.before = .callable d ∧ d.kind = .function ∧
      y.before.operationCalls = [] ∧ y.after.operationCalls ≠ [] := by
  refine ⟨_, List.mem_cons_self .., _, List.mem_cons_self .., _, rfl, rfl, ?_, ?_⟩
  · rfl
  · exact nofun

/-- All that it calls runs the operation made from its block. -/
theorem Sample.checking_runs :
    ∃ ys ∈ Sample.checking.yields {}, ∃ y ∈ ys, ∃ d, y.before = .callable d ∧ d.kind = .function ∧
      y.before.operationCalls = [] ∧ y.operations.map (·.name) = [⟨"Sample", "_ctrl1_Check"⟩] ∧
      y.after.operationCalls ≠ [] ∧
      ∀ e ∈ y.after.operationCalls, (Frame.ofCallable d).Runs .standard y.operations e := by
  obtain ⟨-, hyields⟩ := Compilation.lower_operationCalls Sample.checking {}
  have hys := hyields _ (List.mem_cons_self ..)
  obtain ⟨-, hcalls, hmade⟩ := hys _ (List.mem_cons_self ..) _ rfl
  refine ⟨_, List.mem_cons_self .., _, List.mem_cons_self .., _, rfl, rfl, rfl, by decide +kernel,
    (hmade rfl).mpr nofun, fun e he => ?_⟩
  rcases hcalls e he with hmem | hruns
  · cases hmem
  · exact hruns

end OutcomeControl
