import Mathlib.Logic.Relation
import OutcomeControl.Proofs.Gathering
import OutcomeControl.Proofs.Yield

/-! The operations that are made form a forest.

Each of them is called once in the whole program: where its block stood, in the callable that the
block comes from, or, if that place was moved out as well, in an operation that was made later. So
following calls from one operation to another the numbers in their names go down, and no operation
comes back to itself (`Compilation.lower_forest`). `Links` is the account that a run keeps of the names
that are referred to. -/

namespace OutcomeControl

/-! ### Operations in the order in which they are made -/

/-- What is found in each operation is known before it, or the name of an earlier one. -/
def Ordered (found : Callable → List QualifiedName) (Known : QualifiedName → Prop) :
    List Callable → Prop
  | [] => True
  | op :: ops => (∀ n ∈ found op, Known n) ∧ Ordered found (fun n => Known n ∨ n = op.name) ops

namespace Ordered
variable {found : Callable → List QualifiedName} {Known More : QualifiedName → Prop}

theorem mono {ops : List Callable} (h : Ordered found Known ops) (hmore : ∀ n, Known n → More n) :
    Ordered found More ops := by
  induction ops generalizing Known More with
  | nil => trivial
  | cons op ops ih => exact ⟨fun n hn => hmore n (h.1 n hn), ih h.2 fun n => Or.imp (hmore n) id⟩

theorem append {ops others : List Callable} (h : Ordered found Known ops)
    (hothers : Ordered found (fun n => Known n ∨ n ∈ ops.map (·.name)) others) :
    Ordered found Known (ops ++ others) := by
  induction ops generalizing Known with
  | nil => exact hothers.mono fun n hn => hn.resolve_right (by simp)
  | cons op ops ih =>
    refine ⟨h.1, ih h.2 (hothers.mono fun n hn => ?_)⟩
    simpa [or_assoc] using hn

/-- An operation has only what is known before it and the names of earlier ones. -/
theorem of_split {earlier later : List Callable} {op : Callable}
    (h : Ordered found Known (earlier ++ op :: later)) :
    ∀ n ∈ found op, Known n ∨ n ∈ earlier.map (·.name) := by
  induction earlier generalizing Known with
  | nil => exact fun n hn => .inl (h.1 n hn)
  | cons e earlier ih =>
    intro n hn
    simpa [or_assoc] using ih h.2 n hn

/-- A new name is found only after the operation that has it. -/
theorem mem_later {earlier later : List Callable} {op other : Callable}
    (h : Ordered found Known (earlier ++ op :: later)) (hnew : ¬ Known op.name)
    (hnodup : ((earlier ++ op :: later).map (·.name)).Nodup)
    (hmem : other ∈ earlier ++ op :: later) (hfound : op.name ∈ found other) : other ∈ later := by
  induction earlier generalizing Known with
  | nil =>
    obtain rfl | hmem := List.mem_cons.mp hmem
    · exact absurd (h.1 _ hfound) hnew
    · exact hmem
  | cons e earlier ih =>
    rw [List.cons_append, List.map_cons, List.nodup_cons] at hnodup
    obtain rfl | hmem := List.mem_cons.mp hmem
    · exact absurd (h.1 _ hfound) hnew
    · refine ih h.2 (fun hknown => ?_) hnodup.2 hmem
      refine hknown.elim hnew fun heq => hnodup.1 ?_
      simp [← heq]

end Ordered

/-! ### What a run does to the names that are found -/

/-- `ys` is found in place of `xs`. A name that is not old is found as often as before and once more for
each operation of this name; and operations have only names that were there before them. -/
def Links (found : Callable → List QualifiedName) (Old : QualifiedName → Prop)
    (xs : List QualifiedName) (p : Progress) (ys : List QualifiedName) (q : Progress) : Prop :=
  ∃ made, q.hoisted = p.hoisted ++ made ∧
    (∀ n, ¬ Old n → ys.count n + (made.flatMap found).count n =
      xs.count n + (made.map (·.name)).count n) ∧
    (∀ n ∈ ys, (Old n ∨ n ∈ xs) ∨ n ∈ made.map (·.name)) ∧
    Ordered found (fun n => Old n ∨ n ∈ xs) made

namespace Links
variable {found : Callable → List QualifiedName} {Old : QualifiedName → Prop}
  {xs ys zs xs' ys' : List QualifiedName} {p q r : Progress}

theorem of_hoisted_eq (xs : List QualifiedName) (h : q.hoisted = p.hoisted) :
    Links found Old xs p xs q :=
  ⟨[], by simp [h], fun _ _ => rfl, fun _ hn => .inl (.inr hn), trivial⟩

/-- Old names may come and go. -/
theorem of_old (hxs : ∀ n ∈ xs, Old n) (hys : ∀ n ∈ ys, Old n) (h : q.hoisted = p.hoisted) :
    Links found Old xs p ys q := by
  refine ⟨[], by simp [h], fun n hn => ?_, fun n hn => .inl (.inl (hys n hn)), trivial⟩
  rw [List.count_eq_zero.mpr fun hmem => hn (hxs n hmem),
    List.count_eq_zero.mpr fun hmem => hn (hys n hmem)]
  rfl

theorem append (hxs : Links found Old xs p xs' q) (hys : Links found Old ys q ys' r) :
    Links found Old (xs ++ ys) p (xs' ++ ys') r := by
  obtain ⟨made, hmade, hcount, hmem, hordered⟩ := hxs
  obtain ⟨more, hmore, hcount', hmem', hordered'⟩ := hys
  refine ⟨made ++ more, by rw [hmore, hmade, List.append_assoc], fun n hn => ?_, fun n hn => ?_, ?_⟩
  · have hfirst := hcount n hn
    have hsecond := hcount' n hn
    simp only [List.flatMap_append, List.map_append, List.count_append]
    omega
  · simp only [List.map_append, List.mem_append] at hn ⊢
    have hfirst := hmem n
    have hsecond := hmem' n
    tauto
  · refine (hordered.mono fun n hn => ?_).append (hordered'.mono fun n hn => ?_)
    · exact hn.imp id fun hn => List.mem_append_left _ hn
    · exact .inl (hn.imp id fun hn => List.mem_append_right _ hn)

theorem trans (hxy : Links found Old xs p ys q) (hyz : Links found Old ys q zs r) :
    Links found Old xs p zs r := by
  obtain ⟨made, hmade, hcount, hmem, hordered⟩ := hxy
  obtain ⟨more, hmore, hcount', hmem', hordered'⟩ := hyz
  refine ⟨made ++ more, by rw [hmore, hmade, List.append_assoc], fun n hn => ?_, fun n hn => ?_, ?_⟩
  · have hfirst := hcount n hn
    have hsecond := hcount' n hn
    simp only [List.flatMap_append, List.map_append, List.count_append]
    omega
  · simp only [List.map_append, List.mem_append]
    have hfirst := hmem n
    have hsecond := hmem' n hn
    tauto
  · exact hordered.append (hordered'.mono fun n hn => hn.elim (.inl ∘ .inl) (hmem n))

end Links

/-- What a run keeps of the names found by `g`, if it is kept for one guard, one binding and one call. -/
theorem Links.gathers {found : Callable → List QualifiedName} {Old : QualifiedName → Prop}
    {N : Visit → Prop} {g : Visit → Option QualifiedName} {primitives : Primitives} {frame : Frame}
    (content : Visit.Content g) (localName : ∀ name ty, ∀ v ∈ (Expr.localName name ty).visits, N v)
    (guard : ∀ e : Expr, (∀ v ∈ e.visits, N v) → ∀ n ∈ e.visits.filterMap g, Old n)
    (binding : ∀ (s : Statement) name (value : Expr), (∀ v ∈ value.visits, N v) →
      ∀ n ∈ (s.bindingOf name value).visits.filterMap g, Old n)
    (call : ∀ (s : Statement) outcome (condition : Expr) target captured,
      (∀ v ∈ condition.visits, N v) → ∀ n, ¬ Old n →
        ((s.replacedBy ((primitives.forOutcome outcome).controlCall condition target captured
          frame)).visits.filterMap g).count n = [target.name].count n)
    (operation : ∀ name body comments,
      found ((frame.operation name body comments).reroute frame.name name) = body.visits.filterMap g) :
    Gathers primitives frame g (Links found Old) N where
  content := content
  refl xs p := .of_hoisted_eq xs rfl
  note xs p event _ := .of_hoisted_eq xs rfl
  append := Links.append
  trans := Links.trans
  localName := localName
  guard e p he := .of_old (guard e he) (by simp) rfl
  binding s value p hvalue := .of_old (by simp) (binding s _ value hvalue) rfl
  block s outcome condition body p hcondition _ := by
    rw [applyBlock_run]
    generalize (p.names.freshCallable frame.name).1 = name
    refine ⟨[_], rfl, fun n hn => ?_, fun n hn => ?_, fun n hn => ?_, trivial⟩
    · rw [call s outcome condition _ _ hcondition n hn, List.flatMap_singleton, operation]
      exact Nat.add_comm ..
    · by_cases hold : Old n
      · exact .inl (.inl hold)
      · have hcount := List.count_pos_iff.mpr hn
        rw [call s outcome condition _ _ hcondition n hold] at hcount
        exact .inr (List.count_pos_iff.mp hcount)
    · rw [operation] at hn
      exact .inr hn

/-! ### References -/

theorem Visit.content_reference? : Visit.Content Visit.reference? where
  callable _ := rfl
  scope _ := rfl
  compound _ _ := rfl
  type _ := rfl
  localName _ := rfl

/-- The callables that an expression refers to, once for each place. -/
def Expr.references (e : Expr) : List QualifiedName := e.visits.filterMap Visit.reference?

def Callable.references (c : Callable) : List QualifiedName := c.visits.filterMap Visit.reference?

def Element.references (e : Element) : List QualifiedName := e.visits.filterMap Visit.reference?

def Compilation.references (c : Compilation) : List QualifiedName :=
  c.namespaces.flatMap fun ns => ns.elements.flatMap Element.references

theorem Visit.generated_reference? : Visit.Generated Visit.reference? where
  localName _ _ := rfl
  tuple _ := rfl
  unit := rfl

theorem Expr.references_localName (name : String) (ty : Ty) :
    (Expr.localName name ty).references = [] :=
  Visit.content_reference?.variableName Visit.generated_reference? name ty

/-- A call of a primitive refers to the primitive and to the operation, besides its condition. -/
theorem Primitive.references_controlCall (p : Primitive) (condition : Expr) (target : Target)
    (captured : List Variable) (frame : Frame) :
    (p.controlCall condition target captured frame).references =
      p.name :: (condition.references ++ [target.name]) :=
  Visit.content_reference?.controlCall Visit.generated_reference? p condition target captured frame

section
variable {primitives : Primitives} {Old : QualifiedName → Prop}

/-- What a run does to references, where the primitives and all that bodies refer to is old. -/
theorem Links.gathers_references (frame : Frame)
    (hprimitives : ∀ o, Old (primitives.forOutcome o).name) :
    Gathers primitives frame Visit.reference? (Links Callable.references Old)
      fun v => ∀ n, v.reference? = some n → Old n := by
  have hguard : ∀ e : Expr, (∀ v ∈ e.visits, ∀ n, v.reference? = some n → Old n) →
      ∀ n ∈ e.references, Old n := by
    intro e he n hn
    obtain ⟨v, hv, hn⟩ := List.mem_filterMap.mp hn
    exact he v hv n hn
  refine Links.gathers Visit.content_reference? (fun name ty v hv n hn => ?_) hguard
    (fun s name value hvalue n hn => ?_) (fun s outcome condition target captured hcondition n hn => ?_)
    fun name body comments => ?_
  · have hmem := List.mem_filterMap.mpr ⟨v, hv, hn⟩
    rw [← Expr.references, Expr.references_localName] at hmem
    cases hmem
  · rw [Statement.bindingOf, Visit.content_reference?.statementParts rfl, StatementKind.visits,
      List.filterMap_append, Visit.content_reference?.symbols, List.nil_append] at hn
    exact hguard value hvalue n hn
  · have hprimitive : ((primitives.forOutcome outcome).name == n) = false :=
      beq_eq_false_iff_ne.mpr fun heq => hn (heq ▸ hprimitives outcome)
    rw [Statement.replacedBy, Visit.content_reference?.statementParts rfl]
    change (Expr.references _).count n = _
    rw [Primitive.references_controlCall, List.count_cons, hprimitive, List.count_append,
      List.count_eq_zero.mpr fun hmem => hn (hguard condition hcondition n hmem)]
    simp
  · have hoperation := Visit.content_reference?.operation (F := id)
      (f := TypeParameter.reroute frame.name name)
      (fun v => by rw [Visit.reference?_mapParameters, Option.map_id]; rfl) frame name body comments
    rw [List.map_id] at hoperation
    exact hoperation

end

/-! ### Calls of the operations -/

/-- The operation that is run by the statement here. -/
def Visit.control? (primitives : Primitives) (v : Visit) : Option QualifiedName :=
  v.leaf?.bind (Statement.controlTarget? primitives)

section
variable {primitives : Primitives} {Old : QualifiedName → Prop}

theorem Visit.content_control? : Visit.Content (Visit.control? primitives) where
  callable _ := rfl
  scope _ := rfl
  compound s h := by rw [Visit.control?, Visit.content_leaf?.compound s h, Option.bind_none]
  type _ := rfl
  localName _ := rfl

theorem Visit.filterMap_control? (vs : List Visit) :
    vs.filterMap (Visit.control? primitives) =
      (vs.filterMap Visit.leaf?).filterMap (Statement.controlTarget? primitives) :=
  List.filterMap_filterMap.symm

theorem Visit.control?_mapParameters (f : TypeParameter → TypeParameter) (v : Visit) :
    (v.mapParameters f).control? primitives = v.control? primitives := by
  rw [Visit.control?, Visit.leaf?_mapParameters, Visit.control?]
  cases v.leaf? with
  | none => rfl
  | some s => exact s.controlTarget?_mapParameters f primitives

theorem Element.of_mem_gather_control? {e : Element} {n : QualifiedName}
    (h : n ∈ e.gather (Visit.control? primitives)) :
    ∃ body ∈ e.bodies, ∃ s, .statement s ∈ body.visits ∧ s.controlTarget? primitives = some n := by
  obtain ⟨body, hbody, hn⟩ := List.mem_flatMap.mp h
  obtain ⟨v, hv, hn⟩ := List.mem_filterMap.mp hn
  obtain ⟨s, hs, hn⟩ := Option.bind_eq_some_iff.mp hn
  obtain ⟨hs, -⟩ := Option.filter_eq_some_iff.mp hs
  cases v with
  | statement t =>
    obtain rfl := Option.some.inj hs
    exact ⟨body, hbody, t, hv, hn⟩
  | _ => cases hs

/-- What a run does to the statements that run operations. -/
theorem Links.gathers_controls (frame : Frame) :
    Gathers primitives frame (Visit.control? primitives)
      (Links (fun op => (Element.callable op).gather (Visit.control? primitives)) Old)
      fun _ => True := by
  refine Links.gathers Visit.content_control? (fun _ _ _ _ => trivial) (fun e _ n hn => ?_)
    (fun s name value _ n hn => ?_) (fun s outcome condition target captured _ n _ => ?_)
    fun name body comments => ?_
  · rw [Visit.filterMap_control?, Visit.filterMap_leaf? fun t => e.statement_notMem_visits t] at hn
    cases hn
  · rw [Visit.filterMap_control?, Statement.filterMap_leaf? (by trivial)] at hn
    cases hn
  · rw [Visit.filterMap_control?, Statement.filterMap_leaf? (by trivial),
      List.filterMap_cons_some (s.controlTarget?_replacedBy ..)]
    rfl
  · change (body.mapParameters _).visits.filterMap (Visit.control? primitives) ++ [] = _
    rw [List.append_nil, Scope.visits_mapParameters, List.filterMap_map]
    exact congrArg (List.filterMap · _) (funext fun v => v.control?_mapParameters _)

end

/-! ### One element -/

/-- What is run by a statement of the bodies is referred to. -/
theorem Element.mem_references {primitives : Primitives} {e : Element} {n : QualifiedName}
    (h : n ∈ e.gather (Visit.control? primitives)) : n ∈ e.references := by
  obtain ⟨body, hbody, s, hs, htarget⟩ := Element.of_mem_gather_control? h
  obtain ⟨v, hv, hn⟩ := Statement.visits_of_controlTarget? htarget
  have hsub : s.visits ⊆ e.visits :=
    List.Subset.trans (Scope.of_mem_visits body hs).visits_subset (Element.visits_body hbody)
  exact List.mem_filterMap.mpr ⟨v, hsub hv, hn⟩

/-- The operations made from one element, where all that it refers to is old. -/
structure Yield.Linked (primitives : Primitives) (Old : QualifiedName → Prop) (y : Yield) : Prop where
  /-- Each name that is not old is referred to once for each operation of this name. -/
  count : ∀ n, ¬ Old n → y.after.references.count n +
    (y.operations.flatMap Callable.references).count n = (y.operations.map (·.name)).count n
  /-- An operation refers to no later one. -/
  ordered : Ordered Callable.references Old y.operations
  /-- An operation is run by a statement that replaced its block. -/
  run : ∀ n, ¬ Old n → n ∈ y.operations.map (·.name) →
    n ∈ y.after.gather (Visit.control? primitives) ∨
      ∃ op ∈ y.operations, n ∈ (Element.callable op).gather (Visit.control? primitives)

theorem Yield.Arises.linked {primitives : Primitives} {Old : QualifiedName → Prop} {p q : Progress}
    {y : Yield} (h : y.Arises primitives p q) (hprimitives : ∀ o, Old (primitives.forOutcome o).name)
    (hold : ∀ n ∈ y.before.references, Old n) : y.Linked primitives Old := by
  have hreferences : Links Callable.references Old y.before.references p y.after.references q := by
    have hvisits := Gathers.visits (e := y.before)
      (fun c _ => Links.gathers_references (.ofCallable c) hprimitives)
      (fun xs p => .of_hoisted_eq xs rfl)
      (fun v hv n hn => hold n (List.mem_filterMap.mpr ⟨v, hv, hn⟩)) p
    rw [h.run] at hvisits
    exact hvisits
  have hcontrols : Links (fun op => (Element.callable op).gather (Visit.control? primitives)) Old
      (y.before.gather (Visit.control? primitives)) p
      (y.after.gather (Visit.control? primitives)) q := by
    have hgathers : ∀ c, y.before = .callable c → Gathers primitives (.ofCallable c)
        (Visit.control? primitives)
        (Links (fun op => (Element.callable op).gather (Visit.control? primitives)) Old)
        fun _ => True := fun c _ => Links.gathers_controls (.ofCallable c)
    have hbodies := Gathers.bodies hgathers (fun xs p => .of_hoisted_eq xs rfl)
      (fun _ _ _ _ => trivial) p
    rw [h.run] at hbodies
    exact hbodies
  obtain ⟨made, hmade, hcount, -, hordered⟩ := hreferences
  obtain rfl : y.operations = made := List.append_cancel_left (h.hoisted.symm.trans hmade)
  obtain ⟨made, hmade, hcount', -, -⟩ := hcontrols
  obtain rfl : y.operations = made := List.append_cancel_left (h.hoisted.symm.trans hmade)
  refine ⟨fun n hn => ?_, hordered.mono fun n hn => hn.elim id (hold n), fun n hn hmem => ?_⟩
  · have hzero : y.before.references.count n = 0 :=
      List.count_eq_zero.mpr fun hmem => hn (hold n hmem)
    have hsum := hcount n hn
    rwa [hzero, Nat.zero_add] at hsum
  · have hpos := List.count_pos_iff.mpr hmem
    have hsum := hcount' n hn
    by_cases hafter : n ∈ y.after.gather (Visit.control? primitives)
    · exact .inl hafter
    · rw [List.count_eq_zero.mpr hafter] at hsum
      have hmade : n ∈ y.operations.flatMap
          fun op => (Element.callable op).gather (Visit.control? primitives) :=
        List.count_pos_iff.mp (by omega)
      exact .inr (List.mem_flatMap.mp hmade)

/-! ### Programs -/

theorem Yield.count_references {n : QualifiedName} {ys : List Yield}
    (h : ∀ y ∈ ys, y.after.references.count n +
      (y.operations.flatMap Callable.references).count n = (y.operations.map (·.name)).count n) :
    ((Yield.elements ys).flatMap Element.references).count n =
      ((ys.flatMap Yield.operations).map (·.name)).count n := by
  have hsplit : (Yield.elements ys).flatMap Element.references =
      ys.flatMap (·.after.references) ++ (ys.flatMap Yield.operations).flatMap Callable.references := by
    rw [Yield.elements, List.flatMap_append, List.flatMap_map, List.flatMap_map]
    rfl
  rw [hsplit]
  clear hsplit
  induction ys with
  | nil => rfl
  | cons y ys ih =>
    have hfirst := h y (List.mem_cons_self ..)
    have hrest := ih fun z hz => h z (List.mem_cons_of_mem _ hz)
    simp only [List.flatMap_cons, List.flatMap_append, List.map_append, List.count_append] at hrest ⊢
    omega

/-- One of the operations refers to another. -/
def Callable.Calls (operations : List Callable) (caller callee : QualifiedName) : Prop :=
  (∃ op ∈ operations, op.name = caller ∧ callee ∈ op.references) ∧
    callee ∈ operations.map (·.name)

section
variable {c : Compilation} {options : Options} (hissued : (c.lower options).names.issued < 2 ^ 32)
include hissued

/-- The names of the operations of a namespace have increasing numbers. -/
theorem Compilation.yields_gives {ys : List Yield} (hys : ys ∈ c.yields options) :
    ∃ s : NameSupply, ∃ last, s.Gives options.settings.callablePrefix last
      ((ys.flatMap Yield.operations).map (·.name.name)) := by
  obtain ⟨ns, -, k, rfl, hle, -⟩ := Namespace.of_mem_yieldsAll options.primitives hys
  have hpre : ({ NameSupply.forCompilation c options.settings with issued := k } :
      NameSupply).callablePrefix = options.settings.callablePrefix :=
    NameSupply.callablePrefix_forCompilation ..
  generalize ({ NameSupply.forCompilation c options.settings with issued := k } : NameSupply) = names
    at hle hpre
  obtain ⟨-, -, htargets⟩ := ns.lower_yields options.primitives names
  have hgives := (ns.lower_accounts options.primitives names).callableDraws
    (Nat.lt_of_le_of_lt hle hissued)
  change names.Gives _ _ ((ns.lower options.primitives names).targets.map (·.name)) at hgives
  rw [hpre, htargets, List.map_map] at hgives
  exact ⟨names, _, hgives⟩

theorem Compilation.operations_pairwise {ys : List Yield} (hys : ys ∈ c.yields options) {y : Yield}
    (hy : y ∈ ys) : y.operations.Pairwise fun a b =>
      NameSupply.Precedes options.settings.callablePrefix a.name.name b.name.name := by
  obtain ⟨s, last, hgives⟩ := Compilation.yields_gives hissued hys
  exact (List.pairwise_flatMap.mp (List.pairwise_map.mp hgives.pairwise)).1 y hy

variable (hprimitives : ∀ o, (options.primitives.forOutcome o).name ∉ (c.lower options).targets)
include hprimitives

theorem Compilation.yields_linked {ys : List Yield} (hys : ys ∈ c.yields options) {y : Yield}
    (hy : y ∈ ys) : y.Linked options.primitives (· ∉ (c.lower options).targets) := by
  obtain ⟨ns, hns, hbefore, p, q, harises⟩ := Compilation.of_mem_yields hys hy
  refine harises.linked hprimitives fun n hn => ?_
  obtain ⟨v, hv, hn⟩ := List.mem_filterMap.mp hn
  exact Compilation.lower_targets hissued (Compilation.names_reserved hns hbefore options.settings
    (Element.mem_names hv (Visit.mem_names_of_reference? hn)))

/-- An operation refers to earlier ones only. -/
theorem Compilation.calls_precedes {caller callee : QualifiedName}
    (h : Callable.Calls ((c.yields options).flatten.flatMap Yield.operations) caller callee) :
    NameSupply.Precedes options.settings.callablePrefix callee.name caller.name := by
  obtain ⟨⟨op, hop, rfl, hreference⟩, hcallee⟩ := h
  obtain ⟨y, hy, hop⟩ := List.mem_flatMap.mp hop
  obtain ⟨ys, hys, hy⟩ := List.mem_flatten.mp hy
  obtain ⟨-, -, htargets⟩ := c.lower_yields options
  obtain ⟨earlier, later, hsplit⟩ := List.append_of_mem hop
  have hearlier : callee ∈ earlier.map (·.name) := by
    have hordered := (Compilation.yields_linked hissued hprimitives hys hy).ordered
    rw [hsplit] at hordered
    exact (hordered.of_split _ hreference).resolve_left (not_not_intro (htargets ▸ hcallee))
  have hpairwise := Compilation.operations_pairwise hissued hys hy
  rw [hsplit] at hpairwise
  obtain ⟨other, hother, rfl⟩ := List.mem_map.mp hearlier
  exact (List.pairwise_append.mp hpairwise).2.2 other hother op (List.mem_cons_self ..)

/-- In the whole program each operation is referred to once. -/
theorem Compilation.count_references {n : QualifiedName} (hn : n ∈ (c.lower options).targets) :
    (c.lower options).result.references.count n = 1 := by
  obtain ⟨-, hresult, htargets⟩ := c.lower_yields options
  have haccounts := Namespace.lowerAll_accounts options.primitives
    (.forCompilation c options.settings) c.namespaces
  have hreferences : (c.lower options).result.references =
      (c.yields options).flatMap fun ys => (Yield.elements ys).flatMap Element.references := by
    rw [Compilation.references, ← List.flatMap_map Namespace.elements, hresult, List.flatMap_map]
  have hnodup : (c.lower options).targets.Nodup := (haccounts.callableDraws hissued).nodup.of_map _
  have hcount : ∀ ys ∈ c.yields options, ((Yield.elements ys).flatMap Element.references).count n =
      ((ys.flatMap Yield.operations).map (·.name)).count n := fun ys hys =>
    Yield.count_references fun y hy =>
      (Compilation.yields_linked hissued hprimitives hys hy).count n (not_not_intro hn)
  calc (c.lower options).result.references.count n
      = ((c.yields options).flatMap fun ys => (ys.flatMap Yield.operations).map (·.name)).count n := by
        rw [hreferences, List.count_flatMap, List.count_flatMap]
        exact congrArg List.sum (List.map_congr_left hcount)
    _ = (c.lower options).targets.count n := by
        rw [htargets, List.flatten_eq_flatMap, List.flatMap_assoc, List.map_flatMap]
        rfl
    _ = 1 := List.count_eq_one_of_mem hnodup hn

/-- The statement that runs an operation is in the callable that the operation was made from, or in a
later operation. -/
theorem Compilation.exists_controlTarget {ys : List Yield} (hys : ys ∈ c.yields options) {y : Yield}
    (hy : y ∈ ys) {earlier later : List Callable} {op : Callable}
    (hsplit : y.operations = earlier ++ op :: later) (hop : op.name ∈ (c.lower options).targets) :
    ∃ body ∈ y.after.bodies ++ later.flatMap Callable.bodies, ∃ s,
      .statement s ∈ body.visits ∧ s.controlTarget? options.primitives = some op.name := by
  have hlinked := Compilation.yields_linked hissued hprimitives hys hy
  have hmem : op ∈ y.operations := by simp [hsplit]
  obtain hafter | ⟨other, hother, htarget⟩ :=
    hlinked.run op.name (not_not_intro hop) (List.mem_map_of_mem hmem)
  · obtain ⟨body, hbody, s, hs, htarget⟩ := Element.of_mem_gather_control? hafter
    exact ⟨body, List.mem_append_left _ hbody, s, hs, htarget⟩
  · have hnodup : (y.operations.map (·.name)).Nodup := by
      refine List.pairwise_map.mpr ((Compilation.operations_pairwise hissued hys hy).imp ?_)
      exact fun hlt heq => (heq ▸ hlt).irrefl
    have hlater : other ∈ later := by
      have hordered := hlinked.ordered
      rw [hsplit] at hordered hnodup hother
      exact hordered.mem_later (not_not_intro hop) hnodup hother (Element.mem_references htarget)
    obtain ⟨body, hbody, s, hs, htarget⟩ := Element.of_mem_gather_control? htarget
    exact ⟨body, List.mem_append_right _ (List.mem_flatMap.mpr ⟨other, hlater, hbody⟩), s, hs, htarget⟩

end

/-- **The operations form a forest.** Suppose that fewer than `2 ^ 32` numbers are drawn and that no
primitive has the name of an operation that was made. Then the operations of a namespace have names
with increasing numbers. Each is referred to once in the whole program, by a statement that calls a
primitive with it, in a body of the callable that it was made from or of an operation made from this
callable later. No operation calls itself, directly or through others. -/
theorem Compilation.lower_forest (c : Compilation) (options : Options)
    (hissued : (c.lower options).names.issued < 2 ^ 32)
    (hprimitives : ∀ o, (options.primitives.forOutcome o).name ∉ (c.lower options).targets) :
    ((c.yields options).map (·.map Yield.before) = c.namespaces.map Namespace.elements ∧
      (c.lower options).result.namespaces.map Namespace.elements =
        (c.yields options).map Yield.elements) ∧
    (∀ ys ∈ c.yields options,
      (∃ tokens, List.Forall₂ (NameSupply.Numbered options.settings.callablePrefix) tokens
          ((ys.flatMap Yield.operations).map (·.name.name)) ∧ tokens.Pairwise (· < ·)) ∧
      ∀ y ∈ ys, ∀ earlier op later, y.operations = earlier ++ op :: later →
        (c.lower options).result.references.count op.name = 1 ∧
        ∃ body ∈ y.after.bodies ++ later.flatMap Callable.bodies, ∃ s,
          .statement s ∈ body.visits ∧ s.controlTarget? options.primitives = some op.name) ∧
    ∀ n, ¬ Relation.TransGen
      (Callable.Calls ((c.yields options).flatten.flatMap Yield.operations)) n n := by
  obtain ⟨hbefore, hresult, htargets⟩ := c.lower_yields options
  refine ⟨⟨hbefore, hresult⟩, fun ys hys => ⟨?_, fun y hy earlier op later hsplit => ?_⟩, fun n hn => ?_⟩
  · obtain ⟨s, last, hgives⟩ := Compilation.yields_gives hissued hys
    obtain ⟨tokens, hnumbered, hlt, -⟩ := hgives.numbered
    exact ⟨tokens, hnumbered, hlt⟩
  · have hmem : op ∈ y.operations := by simp [hsplit]
    have hop : op.name ∈ (c.lower options).targets := by
      rw [htargets]
      exact List.mem_map_of_mem (List.mem_flatMap.mpr ⟨y, List.mem_flatten.mpr ⟨ys, hys, hy⟩, hmem⟩)
    exact ⟨Compilation.count_references hissued hprimitives hop,
      Compilation.exists_controlTarget hissued hprimitives hys hy hsplit hop⟩
  · have hprecedes : ∀ m, Relation.TransGen
        (Callable.Calls ((c.yields options).flatten.flatMap Yield.operations)) n m →
        NameSupply.Precedes options.settings.callablePrefix m.name n.name := by
      intro m hm
      induction hm with
      | single hcall => exact Compilation.calls_precedes hissued hprimitives hcall
      | tail _ hcall ih => exact (Compilation.calls_precedes hissued hprimitives hcall).trans ih
    exact (hprecedes n hn).irrefl

/-- The operations of the inner conditional come first, and then those of the outer one. -/
theorem Sample.program_forest :
    (Sample.program.lower {}).names.issued < 2 ^ 32 ∧
      ∃ ys ∈ Sample.program.yields {}, ∃ y ∈ ys, ∃ op later, y.operations = op :: later ∧
        op.name = ⟨"Sample", "_ctrl2_Main"⟩ ∧
        later.map (·.name) = [⟨"Sample", "_ctrl3_Main"⟩, ⟨"Sample", "_ctrl5_Main"⟩,
          ⟨"Sample", "_ctrl6_Main"⟩] ∧
        (Sample.program.lower {}).result.references.count op.name = 1 ∧
        ∃ body ∈ y.after.bodies ++ later.flatMap Callable.bodies, ∃ s,
          .statement s ∈ body.visits ∧ s.controlTarget? ({} : Options).primitives = some op.name := by
  have hissued : (Sample.program.lower {}).names.issued < 2 ^ 32 := by decide +kernel
  have htargets : (Sample.program.lower {}).targets = [⟨"Sample", "_ctrl2_Main"⟩,
      ⟨"Sample", "_ctrl3_Main"⟩, ⟨"Sample", "_ctrl5_Main"⟩, ⟨"Sample", "_ctrl6_Main"⟩] := by
    decide +kernel
  have hprimitives :
      ∀ o, (({} : Options).primitives.forOutcome o).name ∉ (Sample.program.lower {}).targets := by
    rw [htargets]
    intro o
    cases o <;> decide
  have hoperations : (Sample.program.yields {}).map (·.map (·.operations.map (·.name))) =
      [[(Sample.program.lower {}).targets, []]] := by decide +kernel
  rw [htargets] at hoperations
  obtain ⟨ys, rest, hys, hfirst, -⟩ := List.map_eq_cons_iff.mp hoperations
  obtain ⟨y, others, hy, hnames, -⟩ := List.map_eq_cons_iff.mp hfirst
  obtain ⟨op, later, hsplit, hop, hlater⟩ := List.map_eq_cons_iff.mp hnames
  obtain ⟨-, hall, -⟩ := Compilation.lower_forest Sample.program {} hissued hprimitives
  have hys : ys ∈ Sample.program.yields {} := by simp [hys]
  have hy : y ∈ ys := by simp [hy]
  obtain ⟨hcount, hcontrol⟩ := (hall ys hys).2 y hy [] op later hsplit
  exact ⟨hissued, ys, hys, y, hy, op, later, hsplit, hop, hlater, hcount, hcontrol⟩

end OutcomeControl
