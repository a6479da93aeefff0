import OutcomeControl.Proofs.Freshness
import OutcomeControl.Proofs.Visits

/-! Which operations come from which callable.

The elements of a namespace are lowered one after the other, and each of them yields what stands in
its place and the operations made from its blocks (`Yield`). Together these are the lowered program
(`Compilation.lower_yields`), so what is proved of every yield holds of all of it. -/

namespace OutcomeControl

/-- What became of one element. -/
structure Yield where
  before : Element
  after : Element
  /-- The operations made from its blocks. -/
  operations : List Callable

/-- A namespace has what stands in place of its elements, and then the operations. -/
def Yield.elements (ys : List Yield) : List Element :=
  ys.map Yield.after ++ (ys.flatMap Yield.operations).map Element.callable

def Element.name : Element → QualifiedName
  | .callable c => c.name
  | .customType t => t.name

section
variable (primitives : Primitives)

/-- What the elements yield when they are lowered one after the other. -/
def Element.yields : List Element → Progress → List Yield
  | [], _ => []
  | e :: es, p =>
    let out := (e.lower primitives).run p
    ⟨e, out.1, out.2.hoisted.drop p.hoisted.length⟩ :: Element.yields es out.2

def Namespace.yields (names : NameSupply) (ns : Namespace) : List Yield :=
  Element.yields primitives ns.elements { names }

def Namespace.yieldsAll (names : NameSupply) : List Namespace → List (List Yield)
  | [] => []
  | ns :: rest =>
    ns.yields primitives names :: Namespace.yieldsAll (ns.lower primitives names).names rest

end

/-- What the elements of each namespace yield. -/
def Compilation.yields (options : Options) (c : Compilation) : List (List Yield) :=
  Namespace.yieldsAll options.primitives (.forCompilation c options.settings) c.namespaces

/-! ### One element -/

/-- The yield of an element that is lowered at this point. -/
structure Yield.Arises (primitives : Primitives) (p : Progress) (y : Yield) (q : Progress) : Prop where
  run : (y.before.lower primitives).run p = (y.after, q)
  hoisted : q.hoisted = p.hoisted ++ y.operations

namespace Yield.Arises
variable {primitives : Primitives} {p q : Progress} {y : Yield} (h : y.Arises primitives p q)
include h

theorem tells : ∃ events, p.Tells events q := by
  have htells := y.before.lower_tells primitives p
  rw [h.run] at htells
  exact htells

/-- Every operation was made from a block of the callable. -/
theorem makes :
    ∀ op ∈ y.operations, ∃ c, y.before = .callable c ∧ (Frame.ofCallable c).Makes op := by
  have hadds := y.before.lower_makes primitives p
  rw [h.run] at hadds
  exact hadds.forall_mem h.hoisted

end Yield.Arises

section
variable (primitives : Primitives)

theorem Element.yields_chain (es : List Element) (p : Progress) :
    Chain (fun e p y q => y.before = e ∧ y.Arises primitives p q) es p (Element.yields primitives es p)
      ((es.mapM (Element.lower primitives)).run p).2 := by
  induction es generalizing p with
  | nil => exact .nil p
  | cons e es ih =>
    rw [List.mapM_cons]
    refine .cons ⟨rfl, rfl, ?_⟩ (ih _)
    exact (List.prefix_iff_eq_append.mp (e.lower_leads primitives p).hoisted).symm

theorem Element.map_after_yields (es : List Element) (p : Progress) :
    (Element.yields primitives es p).map Yield.after = ((es.mapM (Element.lower primitives)).run p).1 := by
  induction es generalizing p with
  | nil => rfl
  | cons e es ih =>
    rw [List.mapM_cons]
    exact congrArg (((e.lower primitives).run p).1 :: ·) (ih _)

/-! ### Namespaces -/

theorem Chain.hoisted_eq {es : List Element} {ys : List Yield} {p q : Progress}
    (h : Chain (fun e p y q => y.before = e ∧ y.Arises primitives p q) es p ys q) :
    q.hoisted = p.hoisted ++ ys.flatMap Yield.operations := by
  induction h with
  | nil p => simp
  | cons hab _ ih => rw [ih, hab.2.hoisted, List.flatMap_cons, List.append_assoc]

/-- The run that the yields of a namespace come from. -/
theorem Namespace.yields_run (names : NameSupply) (ns : Namespace) :
    ∃ p, Chain (fun e p y q => y.before = e ∧ y.Arises primitives p q) ns.elements { names }
        (ns.yields primitives names) p ∧
      Progress.Tells { names } p.report p ∧
      p.hoisted = (ns.yields primitives names).flatMap Yield.operations ∧
      (ns.lower primitives names).result.elements = Yield.elements (ns.yields primitives names) ∧
      (ns.lower primitives names).names = p.names ∧
      (ns.lower primitives names).targets = p.report.filterMap Event.target? ∧
      Event.variableNames (ns.lower primitives names).report = Event.variableNames p.report := by
  have hchain := Element.yields_chain primitives ns.elements { names }
  generalize hp : ((ns.elements.mapM (Element.lower primitives)).run { names }).2 = p at hchain
  obtain ⟨events, htells⟩ := hchain.preorder (S := fun p q => ∃ events, p.Tells events q)
    (fun p => ⟨[], .refl p⟩) (fun _ _ _ ⟨_, hpq⟩ ⟨_, hqr⟩ => ⟨_, hpq.trans hqr⟩)
    (fun _ _ _ _ h => h.2.tells)
  obtain rfl : p.report = events := htells.report
  have hhoisted : p.hoisted = (ns.yields primitives names).flatMap Yield.operations :=
    hchain.hoisted_eq primitives
  obtain ⟨htargets, hvariables⟩ :=
    Event.names_extended p.report ns.name p.hoisted.length p.hoisted.isEmpty
  have hreport : (ns.lower primitives names).report =
      if p.hoisted.isEmpty then p.report
      else p.report ++ [.extended ns.name p.hoisted.length] := by
    rw [← hp]
    rfl
  refine ⟨p, hchain, htells, hhoisted, ?_, hp ▸ rfl, ?_, ?_⟩
  · rw [Yield.elements, ← hhoisted, Namespace.yields, Element.map_after_yields, ← hp]
    rfl
  · rw [Lowered.targets, hreport]
    exact htargets
  · rw [hreport]
    exact hvariables

/-- **The yields make up the lowered namespace.** -/
theorem Namespace.lower_yields (names : NameSupply) (ns : Namespace) :
    (ns.yields primitives names).map Yield.before = ns.elements ∧
      (ns.lower primitives names).result.elements = Yield.elements (ns.yields primitives names) ∧
      (ns.lower primitives names).targets =
        ((ns.yields primitives names).flatMap Yield.operations).map (·.name) := by
  obtain ⟨p, hchain, htells, hhoisted, hresult, -, htargets, -⟩ := ns.yields_run primitives names
  obtain ⟨made, hmade, hnames⟩ := htells.hoisted
  obtain rfl : p.hoisted = made := hmade
  refine ⟨?_, hresult, ?_⟩
  · simpa using hchain.map_eq id Yield.before fun e p y q h => h.1
  · rw [htargets, ← hnames, hhoisted]

/-- The run that one yield comes from, at its place in the run of the namespace. -/
theorem Namespace.of_mem_yields {names : NameSupply} {ns : Namespace} {y : Yield}
    (hy : y ∈ ns.yields primitives names) :
    y.before ∈ ns.elements ∧
      ∃ p q, y.Arises primitives p q ∧ p.names = { names with issued := p.names.issued } ∧
        (∀ op ∈ q.hoisted, op.name ∈ (ns.lower primitives names).targets) ∧
        ∀ n ∈ Event.variableNames q.report,
          n ∈ Event.variableNames (ns.lower primitives names).report := by
  obtain ⟨r, hchain, htells, hhoisted, -, -, htargets, hvariables⟩ := ns.yields_run primitives names
  obtain ⟨e, he, p, q, ⟨es, hstart⟩, ⟨rfl, harises⟩, fs, hend⟩ := hchain.of_mem_between
    (S := fun p q => ∃ events, p.Tells events q) (fun p => ⟨[], .refl p⟩)
    (fun _ _ _ ⟨_, hpq⟩ ⟨_, hqr⟩ => ⟨_, hpq.trans hqr⟩) (fun _ _ _ _ h => h.2.tells) hy
  refine ⟨he, p, q, harises, hstart.leads.names, fun op hop => ?_, fun n hn => ?_⟩
  · obtain ⟨made, hmade, hnames⟩ := htells.hoisted
    obtain rfl : r.hoisted = made := hmade
    rw [htargets, ← hnames]
    exact List.mem_map_of_mem (hend.leads.mem_hoisted hop)
  · rw [hvariables, hend.report, Event.variableNames_append]
    exact List.mem_append_left _ hn

/-! ### Programs -/

theorem Namespace.lowerAll_yields (names : NameSupply) (nss : List Namespace) :
    (Namespace.yieldsAll primitives names nss).map (·.map Yield.before) =
        nss.map Namespace.elements ∧
      (Namespace.lowerAll primitives names nss).result.map Namespace.elements =
        (Namespace.yieldsAll primitives names nss).map Yield.elements ∧
      (Namespace.lowerAll primitives names nss).targets =
        ((Namespace.yieldsAll primitives names nss).flatten.flatMap Yield.operations).map (·.name) := by
  induction nss generalizing names with
  | nil => exact ⟨rfl, rfl, rfl⟩
  | cons ns nss ih =>
    obtain ⟨hbefore, hafter, htargets⟩ := ns.lower_yields primitives names
    obtain ⟨hbefores, hafters, htargets'⟩ := ih (ns.lower primitives names).names
    refine ⟨congrArg₂ List.cons hbefore hbefores, congrArg₂ List.cons hafter hafters, ?_⟩
    rw [Namespace.yieldsAll, List.flatten_cons, List.flatMap_append, List.map_append, ← htargets,
      ← htargets']
    exact List.filterMap_append ..

/-- The yields of one namespace, at their place in the run of the program. -/
theorem Namespace.of_mem_yieldsAll {names : NameSupply} {nss : List Namespace} {ys : List Yield}
    (hys : ys ∈ Namespace.yieldsAll primitives names nss) :
    ∃ ns ∈ nss, ∃ k, ys = ns.yields primitives { names with issued := k } ∧
      (ns.lower primitives { names with issued := k }).names.issued ≤
        (Namespace.lowerAll primitives names nss).names.issued ∧
      (ns.lower primitives { names with issued := k }).targets ⊆
        (Namespace.lowerAll primitives names nss).targets := by
  induction nss generalizing names with
  | nil => cases hys
  | cons ns nss ih =>
    have hrest := Namespace.lowerAll_accounts primitives (ns.lower primitives names).names nss
    have htargets : (Namespace.lowerAll primitives names (ns :: nss)).targets =
        (ns.lower primitives names).targets ++
          (Namespace.lowerAll primitives (ns.lower primitives names).names nss).targets :=
      List.filterMap_append ..
    obtain rfl | hys := List.mem_cons.mp hys
    · refine ⟨ns, List.mem_cons_self .., names.issued, rfl, hrest.issued, ?_⟩
      rw [htargets]
      exact List.subset_append_left ..
    · obtain ⟨ns', hns', k, heq, hissued, hsub⟩ := ih hys
      have hnames : ({ (ns.lower primitives names).names with issued := k } : NameSupply) =
          { names with issued := k } := by
        rw [(ns.lower_accounts primitives names).supply]
      rw [hnames] at heq hissued hsub
      refine ⟨ns', List.mem_cons_of_mem _ hns', k, heq, hissued, ?_⟩
      rw [htargets]
      exact List.Subset.trans hsub (List.subset_append_right ..)

end

/-- **The yields make up the lowered program.** -/
theorem Compilation.lower_yields (c : Compilation) (options : Options) :
    (c.yields options).map (·.map Yield.before) = c.namespaces.map Namespace.elements ∧
      (c.lower options).result.namespaces.map Namespace.elements =
        (c.yields options).map Yield.elements ∧
      (c.lower options).targets =
        ((c.yields options).flatten.flatMap Yield.operations).map (·.name) :=
  Namespace.lowerAll_yields options.primitives (.forCompilation c options.settings) c.namespaces

/-- The run that one yield of a program comes from. -/
theorem Compilation.of_mem_yields {c : Compilation} {options : Options} {ys : List Yield}
    (hys : ys ∈ c.yields options) {y : Yield} (hy : y ∈ ys) :
    ∃ ns ∈ c.namespaces, y.before ∈ ns.elements ∧ ∃ p q, y.Arises options.primitives p q := by
  obtain ⟨ns, hns, k, rfl, -, -⟩ := Namespace.of_mem_yieldsAll options.primitives hys
  obtain ⟨hbefore, p, q, harises, -⟩ := Namespace.of_mem_yields options.primitives hy
  exact ⟨ns, hns, hbefore, p, q, harises⟩

end OutcomeControl
