import OutcomeControl.Proofs.Ownership

/-! Callables that are named without being declared or called.

A type parameter names its owner, a specialization the callable it belongs to, and every generated
call one of the two primitives. The supply does not look at these names, so an operation may get one of
them (`Sample.borrowing_captured`). It does so only if the program says the name nowhere else and the
name is numbered like those of operations (`Compilation.lower_uncaptured`). -/

namespace OutcomeControl

/-! ### The form of generated names -/

/-- What an operation made from a block of this callable is called if it gets this number. -/
def QualifiedName.numbered (n : QualifiedName) (callablePrefix : String) (token : UInt32) :
    QualifiedName :=
  n.sibling (callablePrefix ++ toString token.toNat ++ "_" ++ n.name)

/-- Every operation made in between is numbered after one of the sources. -/
def Progress.Numbers (Source : QualifiedName → Prop) (p q : Progress) : Prop :=
  p.Leads q ∧
    p.Adds (fun op => ∃ n token, Source n ∧ op.name = n.numbered p.names.callablePrefix token) q

namespace Progress.Numbers
variable {Source : QualifiedName → Prop} {p q r : Progress}

theorem refl (p : Progress) : p.Numbers Source p := ⟨.refl p, .refl p⟩

theorem trans (hpq : p.Numbers Source q) (hqr : q.Numbers Source r) : p.Numbers Source r := by
  obtain ⟨hleads, hadds⟩ := hpq
  obtain ⟨hleads', hadds'⟩ := hqr
  -- The supply keeps its prefix.
  have hsame : q.names.callablePrefix = p.names.callablePrefix := by rw [hleads.names]
  rw [hsame] at hadds'
  exact ⟨hleads.trans hleads', hadds.trans hadds'⟩

end Progress.Numbers

section
variable (primitives : Primitives) (frame : Frame) {Source : QualifiedName → Prop}
  (hsource : Source frame.name)
include hsource

theorem hoist_numbers (body : Scope) (comments : Comments) (p : Progress) :
    p.Numbers Source ((hoist frame body comments).run p).2 :=
  ⟨hoist_leads frame body comments p, .of_hoisted_eq rfl ⟨frame.name, _, hsource, rfl⟩⟩

theorem applyTest_numbers (s : Statement) (t : OutcomeTest) (p : Progress) :
    p.Numbers Source ((applyTest primitives frame s t).run p).2 := by
  obtain ⟨outcome, condition, body, default⟩ := t
  have hbody := hoist_numbers frame hsource body s.info.comments p
  cases default with
  | none => exact hbody
  | some block => exact hbody.trans (hoist_numbers frame hsource block s.info.comments _)

theorem conclude_numbers (s : Statement) (p : Progress) :
    p.Numbers Source ((conclude primitives frame s).run p).2 := by
  obtain ⟨event, -, heq, -⟩ | ⟨t, -, -, -, heq⟩ | ⟨t, -, -, -, heq⟩ :=
    conclude_cases primitives frame s p
  · rw [heq]
    exact ⟨⟨rfl, Nat.le_refl _, List.prefix_rfl⟩, .refl p⟩
  · rw [heq]
    exact applyTest_numbers primitives frame hsource s t p
  · rw [heq]
    have hbound : p.Numbers Source ((bindCondition s t.condition).run p).2 :=
      ⟨bindCondition_leads s t.condition p, .refl p⟩
    exact hbound.trans (applyTest_numbers primitives frame hsource s _ _)

end

/-- The operations that come from an element are numbered after it. -/
theorem Yield.Arises.numbered {primitives : Primitives} {p q : Progress} {y : Yield}
    (h : y.Arises primitives p q) :
    ∀ op ∈ y.operations, ∃ d token, y.before = .callable d ∧
      op.name = d.name.numbered p.names.callablePrefix token := by
  have hnumbers := y.before.lower_preorder primitives .refl (fun _ _ _ => .trans)
    (R := Progress.Numbers fun n => ∃ d, y.before = .callable d ∧ d.name = n)
    (fun d hd => conclude_numbers primitives (.ofCallable d) ⟨d, hd, rfl⟩) p
  rw [h.run] at hnumbers
  intro op hop
  obtain ⟨_, token, ⟨d, hd, rfl⟩, hname⟩ := hnumbers.2.forall_mem h.hoisted op hop
  exact ⟨d, token, hd, hname⟩

/-- The name is numbered after a callable of the program. -/
def Compilation.Numbers (c : Compilation) (options : Options) (n : QualifiedName) : Prop :=
  ∃ ns ∈ c.namespaces, ∃ d token, .callable d ∈ ns.elements ∧
    n = d.name.numbered options.settings.callablePrefix token

theorem Compilation.numbers_of_mem_targets {c : Compilation} {options : Options} {n : QualifiedName}
    (hn : n ∈ (c.lower options).targets) : c.Numbers options n := by
  rw [(c.lower_yields options).2.2] at hn
  obtain ⟨op, hop, rfl⟩ := List.mem_map.mp hn
  obtain ⟨y, hy, hop⟩ := List.mem_flatMap.mp hop
  obtain ⟨ys, hys, hy⟩ := List.mem_flatten.mp hy
  obtain ⟨ns, hns, k, rfl, -, -⟩ := Namespace.of_mem_yieldsAll options.primitives hys
  obtain ⟨hbefore, p, q, harises, hnames, -⟩ := Namespace.of_mem_yields options.primitives hy
  obtain ⟨d, token, hd, hname⟩ := harises.numbered op hop
  rw [hnames, NameSupply.callablePrefix_forCompilation] at hname
  exact ⟨ns, hns, d, token, hd ▸ hbefore, hname⟩

/-! ### Names that are only alluded to -/

/-- The program, or a call that is generated for it, names a callable without calling it by name: as
the owner of a type parameter, as what a specialization belongs to, or as a primitive. -/
inductive Compilation.Alludes (c : Compilation) (options : Options) : QualifiedName → Prop where
  | owner {ns : Namespace} {e : Element} {n : QualifiedName} :
    ns ∈ c.namespaces → e ∈ ns.elements → n ∈ e.origins → c.Alludes options n
  | parent {ns : Namespace} {d : Callable} {s : Specialization} {n : QualifiedName} :
    ns ∈ c.namespaces → .callable d ∈ ns.elements → s ∈ d.specializations → s.parent = n →
    c.Alludes options n
  | primitive (o : Outcome) : c.Alludes options (options.primitives.forOutcome o).name

/-- **Names that are only alluded to are free where something else guards them.** Suppose that drawing
names comes to an end. Operations get names that the program mentions nowhere and that are numbered
after its callables. So if the program mentions the owners of type parameters, the callables of
specializations and the primitives, or they are not numbered so, no operation is called like one of
them. -/
theorem Compilation.lower_uncaptured (c : Compilation) (options : Options)
    (hends : ∀ e ∈ (c.lower options).report, e.Ends (.forCompilation c options.settings)) :
    (∀ n ∈ (c.lower options).targets, ¬ c.Mentions n.name ∧ c.Numbers options n) ∧
      ((∀ n, c.Alludes options n → c.Mentions n.name ∨ ¬ c.Numbers options n) →
        ∀ n ∈ (c.lower options).targets, ¬ c.Alludes options n) := by
  have hfree : ∀ n ∈ (c.lower options).targets, ¬ c.Mentions n.name := by
    intro n hn hmentions
    refine Event.Avoids.target (fun e he => ?_) hn (hmentions.mem_reserved options.settings)
    exact Namespace.lowerAll_avoids options.primitives (.forCompilation c options.settings)
      c.namespaces e he (hends e he)
  refine ⟨fun n hn => ⟨hfree n hn, Compilation.numbers_of_mem_targets hn⟩, ?_⟩
  intro hguarded n hn halludes
  exact (hguarded n halludes).elim (hfree n hn) (· (Compilation.numbers_of_mem_targets hn))

/-- All type parameters and specializations of the program belong to `Main`, and the primitives stand in
another namespace. -/
theorem Sample.generic_uncaptured :
    (Compilation.lower {} ⟨[Sample.genericSpace], []⟩).targets =
        [⟨"Sample", "_ctrl1_Main"⟩, ⟨"Sample", "_ctrl3_Main"⟩, ⟨"Sample", "_ctrl4_Main"⟩] ∧
      ∀ n ∈ (Compilation.lower {} ⟨[Sample.genericSpace], []⟩).targets,
        ¬ Compilation.Alludes ⟨[Sample.genericSpace], []⟩ {} n := by
  refine ⟨by decide +kernel, ?_⟩
  refine (Compilation.lower_uncaptured ⟨[Sample.genericSpace], []⟩ {}
    fun e _ => e.ends_of_length_lt (by decide +kernel)).2 fun n hn => ?_
  have hmain : Compilation.Mentions "Main" ⟨[Sample.genericSpace], []⟩ :=
    .callable (List.mem_cons_self ..) (List.mem_cons_self ..) (.name rfl)
  cases hn with
  | @owner ns e _ hns he hn =>
    obtain rfl := List.mem_singleton.mp hns
    obtain rfl := List.mem_singleton.mp he
    have howners : ∀ m ∈ (Element.callable Sample.generic).origins, m = ⟨"Sample", "Main"⟩ := by
      decide +kernel
    rw [howners n hn]
    exact .inl hmain
  | @parent ns d s _ hns hd hs hn =>
    obtain rfl := List.mem_singleton.mp hns
    obtain rfl := Element.callable.inj (List.mem_singleton.mp hd)
    obtain rfl := List.mem_singleton.mp hs
    rw [← hn]
    exact .inl hmain
  | primitive o =>
    refine .inr ?_
    rintro ⟨ns, hns, d, token, hd, hname⟩
    obtain rfl := List.mem_singleton.mp hns
    obtain rfl := Element.callable.inj (List.mem_singleton.mp hd)
    have hspace : (Primitives.standard.forOutcome o).name.space = "Sample" :=
      congrArg QualifiedName.space hname
    cases o <;> exact absurd hspace (by decide)

namespace Sample

/-- `operation Main(x : T, r : Outcome)` with the body `if r == One { X(x); }`. -/
def borrowing (parent : QualifiedName) (ty : Ty) : Compilation :=
  let x : Variable := { name := "x", ty }
  let params : Params := .tuple [x.toParams, r.toParams]
  let signature : Signature := { argument := .tupleOf [ty, .outcome], result := .unit }
  let call : Expr :=
    .call (.globalName ⟨"Sample", "X"⟩ none (.operationOf ty .unit)) (.localName "x" ty) .unit
  { namespaces :=
      [⟨"Sample",
        [.callable
          { kind := .operation
            name := ⟨"Sample", "Main"⟩
            signature
            params
            specializations :=
              [{ kind := .body
                 parent
                 signature
                 implementation := .provided params
                   ⟨[.conditional [(.equals (.localName "r" .outcome) (.outcome .one),
                      ⟨[.expression call], [x, r]⟩)] none], [x, r]⟩ }] }]⟩] }

def taken : QualifiedName := ⟨"Sample", "_ctrl1_Main"⟩

end Sample

/-- The first operation gets the name that a type parameter's owner has, or that a specialization
belongs to, or that the primitive for `One` has. -/
theorem Sample.borrowing_captured :
    let owned := Sample.borrowing ⟨"Sample", "Main"⟩ (.parameterOf Sample.taken "T")
    let misplaced := Sample.borrowing Sample.taken .qubit
    let plain := Sample.borrowing ⟨"Sample", "Main"⟩ .qubit
    (owned.Alludes {} Sample.taken ∧ Sample.taken ∈ (owned.lower {}).targets) ∧
      (misplaced.Alludes {} Sample.taken ∧ Sample.taken ∈ (misplaced.lower {}).targets) ∧
      (plain.Alludes Sample.namesake Sample.taken ∧
        Sample.taken ∈ (plain.lower Sample.namesake).targets) := by
  refine ⟨⟨.owner (List.mem_cons_self ..) (List.mem_cons_self ..) ?_, ?_⟩,
    ⟨.parent (List.mem_cons_self ..) (List.mem_cons_self ..) (List.mem_cons_self ..) rfl, ?_⟩,
    .primitive .one, ?_⟩ <;> decide +kernel

end OutcomeControl
