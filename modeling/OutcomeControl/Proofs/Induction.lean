import OutcomeControl.Lowering.Pass

/-! How the pass runs, and what a proof about every run has to check.

A run only draws numbers and adds operations (`Progress.Leads`). What takes the place of a
conditional is said once (`conclude_cases`), and `lower_induction` turns a fact about each kind of
statement into one about whole bodies: `P` is about a statement and what replaces it, `L` about a
list of statements, `Q` about a chain of guarded blocks. Each of them also sees the progress before
and after. -/

namespace OutcomeControl

/-! ### What a run does to the progress -/

/-- Later in the same run: more numbers may have been drawn and more operations made. -/
structure Progress.Leads (p q : Progress) : Prop where
  names : q.names = { p.names with issued := q.names.issued }
  issued : p.names.issued ≤ q.names.issued
  hoisted : p.hoisted <+: q.hoisted

namespace Progress.Leads

theorem refl (p : Progress) : p.Leads p := ⟨rfl, Nat.le_refl _, List.prefix_rfl⟩

theorem trans {p q r : Progress} (hpq : p.Leads q) (hqr : q.Leads r) : p.Leads r := by
  refine ⟨?_, Nat.le_trans hpq.issued hqr.issued, hpq.hoisted.trans hqr.hoisted⟩
  rw [hqr.names, hpq.names]

theorem reserved {p q : Progress} (h : p.Leads q) : q.names.reserved = p.names.reserved := by
  rw [h.names]

theorem mem_hoisted {p q : Progress} (h : p.Leads q) {c : Callable} (hc : c ∈ p.hoisted) :
    c ∈ q.hoisted := h.hoisted.subset hc

end Progress.Leads

/-- Every operation made in between has the property `X`. -/
def Progress.Adds (X : Callable → Prop) (p q : Progress) : Prop :=
  ∃ made, q.hoisted = p.hoisted ++ made ∧ ∀ c ∈ made, X c

namespace Progress.Adds
variable {X Y : Callable → Prop} {p q r : Progress}

theorem refl (p : Progress) : p.Adds X p := ⟨[], by simp⟩

theorem trans (hpq : p.Adds X q) (hqr : q.Adds X r) : p.Adds X r := by
  obtain ⟨made, hmade, hX⟩ := hpq
  obtain ⟨more, hmore, hX'⟩ := hqr
  refine ⟨made ++ more, by rw [hmore, hmade, List.append_assoc], fun c hc => ?_⟩
  exact (List.mem_append.mp hc).elim (hX c) (hX' c)

theorem imp (h : p.Adds X q) (hXY : ∀ c, X c → Y c) : p.Adds Y q :=
  Exists.imp (fun _ ⟨hmade, hX⟩ => ⟨hmade, fun c hc => hXY c (hX c hc)⟩) h

theorem of_hoisted_eq {c : Callable} (h : q.hoisted = p.hoisted ++ [c]) (hc : X c) :
    p.Adds X q := ⟨[c], h, List.forall_mem_singleton.mpr hc⟩

/-- What is said of the operations made in between, by the list of them. -/
theorem forall_mem (h : p.Adds X q) {made : List Callable} (hmade : q.hoisted = p.hoisted ++ made) :
    ∀ c ∈ made, X c := by
  obtain ⟨made', hmade', hX⟩ := h
  rw [hmade, List.append_cancel_left_eq] at hmade'
  exact hmade' ▸ hX

end Progress.Adds

theorem NameSupply.lt_search (wanted : UInt32 → String) (reserved : List String) (n k : Nat) :
    k < search wanted reserved n k := by
  induction n generalizing k with
  | zero => exact Nat.lt_succ_self k
  | succ n ih =>
    unfold search
    split
    · exact Nat.lt_trans (Nat.lt_succ_self k) (ih (k + 1))
    · exact Nat.lt_succ_self k

/-! ### One conditional -/

/-- The event of a conditional that is not replaced. -/
def Event.Stays : Event → Prop
  | .untested _ | .kept _ _ => True
  | _ => False

/-- An outcome test has one guard, and its blocks are those of the conditional. -/
theorem Statement.of_outcomeTest {s : Statement} {t : OutcomeTest} (h : s.outcomeTest? = some t) :
    ∃ guard block rest info, s = ⟨.conditional (.arm guard block rest), info⟩ ∧ rest.arms = [] ∧
      guard.outcomeComparison? = some (t.outcome, t.condition) ∧ t.body = block.body ∧
      t.default = rest.default?.map (·.body) := by
  obtain ⟨kind, info⟩ := s
  cases kind with
  | conditional branches =>
    cases branches with
    | arm guard block rest =>
      cases hrest : rest.arms with
      | nil =>
        simp only [Statement.outcomeTest?, Branches.arms, hrest] at h
        obtain ⟨⟨outcome, condition⟩, hguard, rfl⟩ := Option.map_eq_some_iff.mp h
        exact ⟨guard, block, rest, info, rfl, hrest, hguard, rfl, rfl⟩
      | cons a as => simp [Statement.outcomeTest?, Branches.arms, hrest] at h
    | done => cases h
    | otherwise block => cases h
  | _ => cases h

/-- The blocks of a test. -/
def OutcomeTest.bodies (t : OutcomeTest) : List Scope := t.body :: t.default.toList

/-- The blocks of a chain. -/
def Branches.blocks : Branches → List Block
  | .done => []
  | .otherwise block => [block]
  | .arm _ block rest => block :: rest.blocks

/-- The blocks of a test that is taken apart are blocks of the chain, and its condition is compared
in a guard. -/
theorem Statement.of_separable {below : Branches} {info : StatementInfo} {t : OutcomeTest}
    (ht : outcomeTest? ⟨.conditional below, info⟩ = some t) (hsep : t.isSeparable = true) :
    (∀ b ∈ t.bodies, b.isCallSequence = true ∧ ∃ block ∈ below.blocks, block.body = b) ∧
      ∃ arm ∈ below.arms, arm.1.outcomeComparison? = some (t.outcome, t.condition) := by
  obtain ⟨guard, block, rest, info', heq, harms, hguard, hbody, hdefault⟩ :=
    Statement.of_outcomeTest ht
  injection heq with heq
  injection heq with heq
  subst heq
  simp only [OutcomeTest.isSeparable, Bool.and_eq_true] at hsep
  refine ⟨List.forall_mem_cons.mpr ⟨⟨hsep.1, block, List.mem_cons_self .., hbody.symm⟩, ?_⟩,
    (guard, block), List.mem_cons_self .., hguard⟩
  rw [hdefault] at hsep ⊢
  cases rest with
  | done => exact fun b hb => (by cases hb)
  | otherwise other =>
    exact List.forall_mem_singleton.mpr
      ⟨hsep.2, other, List.mem_cons_of_mem _ (List.mem_singleton_self _), rfl⟩
  | arm c b r => simp [Branches.arms] at harms

theorem Statement.of_isUnitCall {s : Statement} (h : s.isUnitCall = true) :
    ∃ callee argument info, s.kind = .expression ⟨.call callee argument, info⟩ := by
  obtain ⟨kind, info⟩ := s
  cases kind with
  | expression e =>
    obtain ⟨kind, info⟩ := e
    cases kind with
    | call callee argument => exact ⟨callee, argument, info, rfl⟩
    | _ => simp [Statement.isUnitCall] at h
  | _ => cases h

theorem Scope.of_isCallSequence {s : Scope} (h : s.isCallSequence = true) {t : Statement}
    (ht : t ∈ s.statements) : t.isUnitCall = true := List.all_eq_true.mp h t ht

theorem Statement.isUnitCall_mapParameters (f : TypeParameter → TypeParameter) (s : Statement)
    (h : s.isUnitCall = true) : (s.mapParameters f).isUnitCall = true := by
  obtain ⟨kind, info⟩ := s
  cases kind with
  | expression e =>
    obtain ⟨ekind, einfo⟩ := e
    simp only [Statement.isUnitCall, Bool.and_eq_true] at h
    obtain ⟨hty, hcall⟩ := h
    have hty' : (einfo.ty.mapParameters f).isUnit = true := by
      change einfo.ty.isUnit = true at hty
      cases hunit : einfo.ty <;> rw [hunit] at hty <;> first | rfl | cases hty
    cases ekind with
    | call callee argument =>
      change ((einfo.ty.mapParameters f).isUnit && true) = true
      rw [hty', Bool.and_true]
    | _ => cases hcall
  | _ => cases h

theorem Scope.isCallSequence_mapParameters (f : TypeParameter → TypeParameter) (s : Scope)
    (h : s.isCallSequence = true) : (s.mapParameters f).isCallSequence = true := by
  obtain ⟨statements, known⟩ := s
  change statements.all Statement.isUnitCall = true at h
  change (Statement.mapParametersList f statements).all Statement.isUnitCall = true
  induction statements with
  | nil => rfl
  | cons s ss ih =>
    simp only [List.all_cons, Bool.and_eq_true] at h
    simp only [Statement.mapParametersList, List.all_cons, Bool.and_eq_true]
    exact ⟨s.isUnitCall_mapParameters f h.1, ih h.2⟩

/-- An operation that a block of calls in the callable of `frame` was moved to. -/
def Frame.Makes (frame : Frame) (c : Callable) : Prop :=
  ∃ name body comments, body.isCallSequence = true ∧
    c = (frame.operation name body comments).reroute frame.name name

section
variable (primitives : Primitives) (frame : Frame)

theorem bindCondition_run (s : Statement) (value : Expr) (p : Progress) :
    (bindCondition s value).run p =
      let name := p.names.freshVariable.1
      ((s.bindingOf name value, .localName name value.ty),
        { names := p.names.freshVariable.2
          hoisted := p.hoisted
          report := p.report ++ [.bound value.ty name] }) := rfl

theorem applyBlock_run (s : Statement) (outcome : Outcome) (condition : Expr) (body : Scope)
    (p : Progress) :
    (applyBlock primitives frame s outcome condition body).run p =
      let name := (p.names.freshCallable frame.name).1
      (s.replacedBy ((primitives.forOutcome outcome).controlCall condition
          ⟨name, .tupleOf (body.known.map (·.ty))⟩ body.known frame),
        { names := (p.names.freshCallable frame.name).2
          hoisted := p.hoisted ++
            [(frame.operation name body s.info.comments).reroute frame.name name]
          report := p.report ++
            [.hoisted body.statements.length frame.name name body.known.length] }) := rfl

theorem hoist_leads (body : Scope) (comments : Comments) (p : Progress) :
    p.Leads ((hoist frame body comments).run p).2 :=
  ⟨rfl, Nat.le_of_lt (NameSupply.lt_search ..), List.prefix_append ..⟩

theorem bindCondition_leads (s : Statement) (value : Expr) (p : Progress) :
    p.Leads ((bindCondition s value).run p).2 :=
  ⟨rfl, Nat.le_of_lt (NameSupply.lt_search ..), List.prefix_rfl⟩

/-- A conditional stays, or its blocks are called in its place, after a binding of the condition
where that is more than a name. -/
theorem conclude_cases (s : Statement) (p : Progress) :
    (∃ event : Event, event.Stays ∧
      (conclude primitives frame s).run p = ([s], { p with report := p.report ++ [event] }) ∧
      ∀ t, s.outcomeTest? = some t → t.isSeparable = false) ∨
    (∃ t, s.outcomeTest? = some t ∧ t.isSeparable = true ∧ t.condition.isName = true ∧
      (conclude primitives frame s).run p = (applyTest primitives frame s t).run p) ∨
    (∃ t, s.outcomeTest? = some t ∧ t.isSeparable = true ∧ t.condition.isName = false ∧
      (conclude primitives frame s).run p =
        let bound := (bindCondition s t.condition).run p
        let calls := (applyTest primitives frame s { t with condition := bound.1.2 }).run bound.2
        (bound.1.1 :: calls.1, calls.2)) := by
  unfold conclude
  cases htest : s.outcomeTest? with
  | none => exact .inl ⟨.untested frame.name, trivial, rfl, fun t ht => by cases ht⟩
  | some t =>
    cases hsep : t.isSeparable with
    | false =>
      refine .inl ⟨.kept frame.name t.condition, trivial, ?_, fun u hu => by cases hu; exact hsep⟩
      simp [hsep]
      rfl
    | true =>
      cases hname : t.condition.isName with
      | true => exact .inr (.inl ⟨t, rfl, hsep, hname, by simp [hsep, hname]⟩)
      | false => exact .inr (.inr ⟨t, rfl, hsep, hname, by simp [hsep, hname]; rfl⟩)

section
variable {R : Progress → Progress → Prop} (trans : ∀ p q r, R p q → R q r → R p r)
  (hoists : ∀ body comments p, R p ((hoist frame body comments).run p).2)
include trans hoists

theorem applyTest_preorder (s : Statement) (t : OutcomeTest) (p : Progress) :
    R p ((applyTest primitives frame s t).run p).2 := by
  obtain ⟨outcome, condition, body, default⟩ := t
  have hyes := hoists body s.info.comments p
  cases default with
  | none => exact hyes
  | some block => exact trans _ _ _ hyes (hoists block s.info.comments _)

/-- A relation between progress that a note, an operation made and a condition bound keep is kept by
every concluded conditional. -/
theorem conclude_preorder
    (stays : ∀ p event, event.Stays → R p { p with report := p.report ++ [event] })
    (binds : ∀ s value p, R p ((bindCondition s value).run p).2) (s : Statement) (p : Progress) :
    R p ((conclude primitives frame s).run p).2 := by
  obtain ⟨event, hstays, heq, -⟩ | ⟨t, -, -, -, heq⟩ | ⟨t, -, -, -, heq⟩ :=
    conclude_cases primitives frame s p
  · rw [heq]
    exact stays p event hstays
  · rw [heq]
    exact applyTest_preorder primitives frame trans hoists s t p
  · rw [heq]
    exact trans _ _ _ (binds s t.condition p) (applyTest_preorder primitives frame trans hoists s _ _)

end

theorem applyTest_leads (s : Statement) (t : OutcomeTest) (p : Progress) :
    p.Leads ((applyTest primitives frame s t).run p).2 :=
  applyTest_preorder primitives frame (fun _ _ _ => .trans) (hoist_leads frame) s t p

theorem conclude_leads (s : Statement) (p : Progress) :
    p.Leads ((conclude primitives frame s).run p).2 :=
  conclude_preorder primitives frame (fun _ _ _ => .trans) (hoist_leads frame)
    (fun _ _ _ => ⟨rfl, Nat.le_refl _, List.prefix_rfl⟩) bindCondition_leads s p

end

/-! ### A whole body -/

/-- A statement without blocks. -/
def StatementKind.IsLeaf : StatementKind → Prop
  | .expression _ | .returns _ | .fails _ | .binding _ | .update _ _ => True
  | _ => False

/-- The block as it is described, around other statements. -/
def Block.holding (b : Block) (statements : List Statement) : Block :=
  ⟨⟨statements, b.body.known⟩, b.location, b.comments⟩

@[simp] theorem Scope.mk_statements_known (s : Scope) : (⟨s.statements, s.known⟩ : Scope) = s := by
  cases s
  rfl

@[simp] theorem Block.holding_statements (b : Block) : b.holding b.body.statements = b := by
  obtain ⟨⟨statements, known⟩, location, comments⟩ := b
  rfl

section
variable (primitives : Primitives) (frame : Frame)

theorem Scope.lower_run (s : Scope) (p : Progress) :
    (s.lower primitives frame).run p =
      (⟨((Statement.lowerList primitives frame s.statements).run p).1, s.known⟩,
        ((Statement.lowerList primitives frame s.statements).run p).2) := by
  obtain ⟨statements, known⟩ := s
  rfl

/-- The second guard of a chain starts a conditional of its own, which is concluded at once. -/
theorem Branches.lower_nested {info : StatementInfo} {condition c : Expr} {block b : Block}
    {rest r : Branches} {p q : Progress}
    (h : (rest.lower primitives frame info).run ((block.lower primitives frame).run p).2 =
      (.arm c b r, q)) :
    ((Branches.arm condition block rest).lower primitives frame info).run p =
      (.arm condition ((block.lower primitives frame).run p).1
        (.otherwise (b.holding
          ((conclude primitives frame ⟨.conditional (.arm c b r), info⟩).run q).1)),
        ((conclude primitives frame ⟨.conditional (.arm c b r), info⟩).run q).2) := by
  rw [Branches.lower, StateT.run_bind]
  change (rest.lower primitives frame info >>= _).run ((block.lower primitives frame).run p).2 = _
  rw [StateT.run_bind, h]
  rfl

/-- Without a second guard the chain keeps its form. -/
theorem Branches.lower_last {info : StatementInfo} {condition : Expr} {block : Block}
    {rest below : Branches} {p q : Progress}
    (h : (rest.lower primitives frame info).run ((block.lower primitives frame).run p).2 =
      (below, q)) (hbelow : below.arms = []) :
    ((Branches.arm condition block rest).lower primitives frame info).run p =
      (.arm condition ((block.lower primitives frame).run p).1 below, q) := by
  rw [Branches.lower, StateT.run_bind]
  change (rest.lower primitives frame info >>= _).run ((block.lower primitives frame).run p).2 = _
  rw [StateT.run_bind, h]
  cases below with
  | done => rfl
  | otherwise b => rfl
  | arm c b r => simp [Branches.arms] at hbelow

/-- **What holds for each kind of statement holds for every body.** The cases may use that the
progress only grows. -/
theorem lower_induction {P : Statement → Progress → List Statement → Progress → Prop}
    {L : List Statement → Progress → List Statement → Progress → Prop}
    {Q : StatementInfo → Branches → Progress → Branches → Progress → Prop}
    (nil : ∀ p, L [] p [] p)
    (cons : ∀ s ss p out q outs r, p.Leads q → q.Leads r → P s p out q → L ss q outs r →
      L (s :: ss) p (out ++ outs) r)
    (leaf : ∀ kind info p, kind.IsLeaf → P ⟨kind, info⟩ p [⟨kind, info⟩] p)
    (forEach : ∀ symbols itemTy iterable body info p out q, p.Leads q →
      L body.statements p out q →
      P ⟨.forEach symbols itemTy iterable body, info⟩ p
        [⟨.forEach symbols itemTy iterable ⟨out, body.known⟩, info⟩] q)
    (whileLoop : ∀ condition body info p out q, p.Leads q → L body.statements p out q →
      P ⟨.whileLoop condition body, info⟩ p [⟨.whileLoop condition ⟨out, body.known⟩, info⟩] q)
    (repeatUntil : ∀ block success fixup info p out q outs r, p.Leads q → q.Leads r →
      L block.body.statements p out q → L fixup.body.statements q outs r →
      P ⟨.repeatUntil block success fixup, info⟩ p
        [⟨.repeatUntil (block.holding out) success (fixup.holding outs), info⟩] r)
    (qubits : ∀ kind binding body info p out q, p.Leads q → L body.statements p out q →
      P ⟨.qubits kind binding body, info⟩ p [⟨.qubits kind binding ⟨out, body.known⟩, info⟩] q)
    (conditional : ∀ branches info p below q, p.Leads q → Q info branches p below q →
      P ⟨.conditional branches, info⟩ p
        ((conclude primitives frame ⟨.conditional below, info⟩).run q).1
        ((conclude primitives frame ⟨.conditional below, info⟩).run q).2)
    (done : ∀ info p, Q info .done p .done p)
    (otherwise : ∀ block info p out q, p.Leads q → L block.body.statements p out q →
      Q info (.otherwise block) p (.otherwise (block.holding out)) q)
    (last : ∀ condition block rest info p out q below r, p.Leads q → q.Leads r →
      L block.body.statements p out q → Q info rest q below r → below.arms = [] →
      Q info (.arm condition block rest) p (.arm condition (block.holding out) below) r)
    (nested : ∀ condition block rest info p out q c b below r, p.Leads q → q.Leads r →
      L block.body.statements p out q → Q info rest q (.arm c b below) r →
      Q info (.arm condition block rest) p
        (.arm condition (block.holding out) (.otherwise (b.holding
          ((conclude primitives frame ⟨.conditional (.arm c b below), info⟩).run r).1)))
        ((conclude primitives frame ⟨.conditional (.arm c b below), info⟩).run r).2) :
    (∀ (s : Statement) (p : Progress), p.Leads ((s.lower primitives frame).run p).2 ∧
      P s p ((s.lower primitives frame).run p).1 ((s.lower primitives frame).run p).2) ∧
    (∀ (ss : List Statement) (p : Progress),
      p.Leads ((Statement.lowerList primitives frame ss).run p).2 ∧
      L ss p ((Statement.lowerList primitives frame ss).run p).1
        ((Statement.lowerList primitives frame ss).run p).2) ∧
    (∀ (info : StatementInfo) (b : Branches) (p : Progress),
      p.Leads ((b.lower primitives frame info).run p).2 ∧
      Q info b p ((b.lower primitives frame info).run p).1
        ((b.lower primitives frame info).run p).2) := by
  -- A block and a scope hold a list of statements, so `L` speaks for them.
  obtain ⟨hstatement, -, -, hlist, hbranches⟩ := Statement.lower.mutual_induct
    (fun s => ∀ p, p.Leads ((s.lower primitives frame).run p).2 ∧
      P s p ((s.lower primitives frame).run p).1 ((s.lower primitives frame).run p).2)
    (fun b => ∀ p, p.Leads ((b.lower primitives frame).run p).2 ∧
      ∃ out, ((b.lower primitives frame).run p).1 = b.holding out ∧
        L b.body.statements p out ((b.lower primitives frame).run p).2)
    (fun s => ∀ p, p.Leads ((s.lower primitives frame).run p).2 ∧
      ∃ out, ((s.lower primitives frame).run p).1 = ⟨out, s.known⟩ ∧
        L s.statements p out ((s.lower primitives frame).run p).2)
    (fun ss => ∀ p, p.Leads ((Statement.lowerList primitives frame ss).run p).2 ∧
      L ss p ((Statement.lowerList primitives frame ss).run p).1
        ((Statement.lowerList primitives frame ss).run p).2)
    (fun info b => ∀ p, p.Leads ((b.lower primitives frame info).run p).2 ∧
      Q info b p ((b.lower primitives frame info).run p).1
        ((b.lower primitives frame info).run p).2)
    (fun branches info ih p => ⟨(ih p).1.trans (conclude_leads primitives frame _ _),
      conditional branches info p _ _ (ih p).1 (ih p).2⟩)
    (fun symbols itemTy iterable body info ih p => by
      obtain ⟨hleads, out, hout, hL⟩ := ih p
      have hp := forEach symbols itemTy iterable body info p out _ hleads hL
      rw [← hout] at hp
      exact ⟨hleads, hp⟩)
    (fun condition body info ih p => by
      obtain ⟨hleads, out, hout, hL⟩ := ih p
      have hp := whileLoop condition body info p out _ hleads hL
      rw [← hout] at hp
      exact ⟨hleads, hp⟩)
    (fun block success fixup info hblock hfixup p => by
      obtain ⟨hleads, out, hout, hL⟩ := hblock p
      obtain ⟨hleads', outs, houts, hL'⟩ := hfixup ((block.lower primitives frame).run p).2
      have hp := repeatUntil block success fixup info p out _ outs _ hleads hleads' hL hL'
      rw [← hout, ← houts] at hp
      exact ⟨hleads.trans hleads', hp⟩)
    (fun kind binding body info ih p => by
      obtain ⟨hleads, out, hout, hL⟩ := ih p
      have hp := qubits kind binding body info p out _ hleads hL
      rw [← hout] at hp
      exact ⟨hleads, hp⟩)
    (fun e info p => ⟨.refl p, leaf _ info p trivial⟩)
    (fun e info p => ⟨.refl p, leaf _ info p trivial⟩)
    (fun e info p => ⟨.refl p, leaf _ info p trivial⟩)
    (fun b info p => ⟨.refl p, leaf _ info p trivial⟩)
    (fun lhs rhs info p => ⟨.refl p, leaf _ info p trivial⟩)
    (fun info condition block rest hblock hrest p => by
      obtain ⟨hleads, out, hout, hL⟩ := hblock p
      obtain ⟨hleads', hQ⟩ := hrest ((block.lower primitives frame).run p).2
      cases hbelow : (rest.lower primitives frame info).run
          ((block.lower primitives frame).run p).2 with
      | mk below q =>
        rw [hbelow] at hleads' hQ
        by_cases harms : below.arms = []
        · rw [Branches.lower_last primitives frame hbelow harms, hout]
          exact ⟨hleads.trans hleads',
            last condition block rest info p out _ below q hleads hleads' hL hQ harms⟩
        · obtain _ | _ | ⟨c, b, r⟩ := below
          · exact absurd rfl harms
          · exact absurd rfl harms
          · rw [Branches.lower_nested primitives frame hbelow, hout]
            exact ⟨(hleads.trans hleads').trans (conclude_leads primitives frame _ _),
              nested condition block rest info p out _ c b r q hleads hleads' hL hQ⟩)
    (fun info block ih p => by
      obtain ⟨hleads, out, hout, hL⟩ := ih p
      have hq := otherwise block info p out _ hleads hL
      rw [← hout] at hq
      exact ⟨hleads, hq⟩)
    (fun info p => ⟨.refl p, done info p⟩)
    (fun body location comments ih p => by
      obtain ⟨hleads, out, hout, hL⟩ := ih p
      exact ⟨hleads, out, congrArg (Block.mk · location comments) hout, hL⟩)
    (fun statements known ih p => ⟨(ih p).1, _, rfl, (ih p).2⟩)
    (fun p => ⟨.refl p, nil p⟩)
    (fun s ss hs hss p => ⟨(hs p).1.trans (hss _).1,
      cons s ss p _ _ _ _ (hs p).1 (hss _).1 (hs p).2 (hss _).2⟩)
  exact ⟨hstatement, hlist, hbranches⟩

section
variable {R : Progress → Progress → Prop} (refl : ∀ p, R p p)
  (trans : ∀ p q r, R p q → R q r → R p r)
  (step : ∀ s p, R p ((conclude primitives frame s).run p).2)
include refl trans step

/-- A relation between progress that every concluded conditional keeps is kept by every statement. -/
theorem lower_preorder :
    (∀ (s : Statement) p, R p ((s.lower primitives frame).run p).2) ∧
    (∀ ss p, R p ((Statement.lowerList primitives frame ss).run p).2) ∧
    ∀ info (b : Branches) p, R p ((b.lower primitives frame info).run p).2 := by
  have hall := lower_induction primitives frame (P := fun _ p _ q => R p q)
    (L := fun _ p _ q => R p q) (Q := fun _ _ p _ q => R p q) ?nil ?cons ?leaf ?forEach ?whileLoop
    ?repeatUntil ?qubits ?conditional ?done ?otherwise ?last ?nested
  · exact ⟨fun s p => (hall.1 s p).2, fun ss p => (hall.2.1 ss p).2, fun info b p => (hall.2.2 info b p).2⟩
  case nil => exact refl
  case cons => exact fun _ _ p _ q _ r _ _ hs hss => trans p q r hs hss
  case leaf => exact fun _ _ p _ => refl p
  case forEach => exact fun _ _ _ _ _ _ _ _ _ h => h
  case whileLoop => exact fun _ _ _ _ _ _ _ h => h
  case repeatUntil => exact fun _ _ _ _ p _ q _ r _ _ hb hf => trans p q r hb hf
  case qubits => exact fun _ _ _ _ _ _ _ _ h => h
  case conditional => exact fun _ _ p _ q _ h => trans p q _ h (step _ q)
  case done => exact fun _ p => refl p
  case otherwise => exact fun _ _ _ _ _ _ h => h
  case last => exact fun _ _ _ _ p _ q _ r _ _ hb hr _ => trans p q r hb hr
  case nested =>
    exact fun _ _ _ _ p _ q _ _ _ r _ _ hb hr => trans p r _ (trans p q r hb hr) (step _ r)

theorem Scope.lower_preorder (scope : Scope) (p : Progress) :
    R p ((scope.lower primitives frame).run p).2 := by
  rw [Scope.lower_run]
  exact (OutcomeControl.lower_preorder primitives frame refl trans step).2.1 scope.statements p

end

theorem applyTest_makes (s : Statement) (t : OutcomeTest) (ht : t.isSeparable = true)
    (p : Progress) : p.Adds frame.Makes ((applyTest primitives frame s t).run p).2 := by
  obtain ⟨outcome, condition, body, default⟩ := t
  simp only [OutcomeTest.isSeparable, Bool.and_eq_true] at ht
  have hbody : p.Adds frame.Makes ((hoist frame body s.info.comments).run p).2 :=
    .of_hoisted_eq rfl ⟨_, body, s.info.comments, ht.1, rfl⟩
  cases default with
  | none => exact hbody
  | some block => exact hbody.trans (.of_hoisted_eq rfl ⟨_, block, s.info.comments, ht.2, rfl⟩)

theorem conclude_makes (s : Statement) (p : Progress) :
    p.Adds frame.Makes ((conclude primitives frame s).run p).2 := by
  obtain ⟨event, -, heq, -⟩ | ⟨t, -, hsep, -, heq⟩ | ⟨t, -, hsep, -, heq⟩ :=
    conclude_cases primitives frame s p
  · rw [heq]
    exact .refl p
  · rw [heq]
    exact applyTest_makes primitives frame s t hsep p
  · rw [heq]
    exact applyTest_makes primitives frame s
      { t with condition := ((bindCondition s t.condition).run p).1.2 } hsep _

end

/-! ### A whole program -/

/-- Each item of a list makes the step `R`, in order. -/
inductive Chain {α β : Type} (R : α → Progress → β → Progress → Prop) :
    List α → Progress → List β → Progress → Prop where
  | nil (p : Progress) : Chain R [] p [] p
  | cons {a : α} {as : List α} {b : β} {bs : List β} {p q r : Progress} :
    R a p b q → Chain R as q bs r → Chain R (a :: as) p (b :: bs) r

namespace Chain
variable {α β : Type} {R : α → Progress → β → Progress → Prop}

theorem mapM (f : α → Pass β) (as : List α) (p : Progress) :
    Chain (fun a p b q => (f a).run p = (b, q)) as p ((as.mapM f).run p).1
      ((as.mapM f).run p).2 := by
  induction as generalizing p with
  | nil => exact .nil p
  | cons a as ih =>
    rw [List.mapM_cons]
    exact .cons rfl (ih _)

theorem imp {S : α → Progress → β → Progress → Prop} {as : List α} {bs : List β}
    {p q : Progress} (h : Chain R as p bs q)
    (hRS : ∀ a ∈ as, ∀ p b q, R a p b q → S a p b q) : Chain S as p bs q := by
  induction h with
  | nil p => exact .nil p
  | cons hab _ ih =>
    exact .cons (hRS _ (List.mem_cons_self ..) _ _ _ hab)
      (ih fun a ha => hRS a (List.mem_cons_of_mem _ ha))

/-- What every step of a pass does, the steps of a chain of such steps do. -/
theorem run {f : α → Pass β} {S : α → Progress → β → Progress → Prop} {as : List α} {bs : List β}
    {p q : Progress} (h : Chain (fun a p b q => (f a).run p = (b, q)) as p bs q)
    (hS : ∀ a p, S a p ((f a).run p).1 ((f a).run p).2) : Chain S as p bs q := by
  refine h.imp fun a _ p b q hrun => ?_
  have hstep := hS a p
  rw [hrun] at hstep
  exact hstep

theorem preorder {S : Progress → Progress → Prop} {as : List α} {bs : List β} {p q : Progress}
    (h : Chain R as p bs q) (refl : ∀ p, S p p) (trans : ∀ p q r, S p q → S q r → S p r)
    (hR : ∀ a p b q, R a p b q → S p q) : S p q := by
  induction h with
  | nil p => exact refl p
  | cons hab _ ih => exact trans _ _ _ (hR _ _ _ _ hab) ih

theorem map_eq {γ : Type} {as : List α} {bs : List β} {p q : Progress} (f : α → γ) (g : β → γ)
    (h : Chain R as p bs q) (hR : ∀ a p b q, R a p b q → g b = f a) : bs.map g = as.map f := by
  induction h with
  | nil p => rfl
  | cons hab _ ih => rw [List.map_cons, List.map_cons, hR _ _ _ _ hab, ih]

/-- Every result comes from an item, at some point of the run. -/
theorem of_mem {as : List α} {bs : List β} {p q : Progress} (h : Chain R as p bs q) {b : β}
    (hb : b ∈ bs) : ∃ a ∈ as, ∃ p q, R a p b q := by
  induction h with
  | nil p => cases hb
  | @cons a as b' bs p q r hab _ ih =>
    obtain rfl | hb := List.mem_cons.mp hb
    · exact ⟨a, List.mem_cons_self .., p, q, hab⟩
    · obtain ⟨a', ha', p', q', h'⟩ := ih hb
      exact ⟨a', List.mem_cons_of_mem _ ha', p', q', h'⟩

/-- Every result comes from an item, with the steps before it and those after it. -/
theorem of_mem_between {S : Progress → Progress → Prop} {as : List α} {bs : List β} {p q : Progress}
    (h : Chain R as p bs q) (refl : ∀ p, S p p) (trans : ∀ p q r, S p q → S q r → S p r)
    (hR : ∀ a p b q, R a p b q → S p q) {b : β} (hb : b ∈ bs) :
    ∃ a ∈ as, ∃ p' q', S p p' ∧ R a p' b q' ∧ S q' q := by
  induction h with
  | nil p => cases hb
  | @cons a as b' bs p q r hab hrest ih =>
    obtain rfl | hb := List.mem_cons.mp hb
    · exact ⟨a, List.mem_cons_self .., p, q, refl p, hab, hrest.preorder refl trans hR⟩
    · obtain ⟨a', ha', p', q', hbefore, hstep, hafter⟩ := ih hb
      exact ⟨a', List.mem_cons_of_mem _ ha', p', q', trans _ _ _ (hR _ _ _ _ hab) hbefore, hstep, hafter⟩

end Chain

section
variable (primitives : Primitives)

/-- Only the statements of a body that has some change. -/
theorem Specialization.lower_cases (frame : Frame) (s : Specialization) (p : Progress) :
    (∃ params scope, s.kind = .body ∧ s.implementation = .provided params scope ∧
      (s.lower primitives frame).run p =
        ({ s with implementation := .provided params ((scope.lower primitives frame).run p).1 },
          ((scope.lower primitives frame).run p).2)) ∨
    ((∀ params scope, s.kind = .body → s.implementation ≠ .provided params scope) ∧
      (s.lower primitives frame).run p = (s, p)) := by
  obtain ⟨kind, parent, sourceFile, location, typeArguments, signature, implementation,
    documentation, comments⟩ := s
  cases kind with
  | body =>
    cases implementation with
    | provided params scope => exact .inl ⟨params, scope, rfl, rfl, rfl⟩
    | intrinsic => exact .inr ⟨fun _ _ _ h => (nomatch h), rfl⟩
    | external => exact .inr ⟨fun _ _ _ h => (nomatch h), rfl⟩
    | generated directive => exact .inr ⟨fun _ _ _ h => (nomatch h), rfl⟩
  | adjoint => exact .inr ⟨fun _ _ h => (nomatch h), rfl⟩
  | controlled => exact .inr ⟨fun _ _ h => (nomatch h), rfl⟩
  | controlledAdjoint => exact .inr ⟨fun _ _ h => (nomatch h), rfl⟩

theorem Specialization.lower_preorder (frame : Frame) {R : Progress → Progress → Prop}
    (refl : ∀ p, R p p) (trans : ∀ p q r, R p q → R q r → R p r)
    (step : ∀ s p, R p ((conclude primitives frame s).run p).2) (s : Specialization)
    (p : Progress) : R p ((s.lower primitives frame).run p).2 := by
  obtain ⟨params, scope, -, -, heq⟩ | ⟨-, heq⟩ := s.lower_cases primitives frame p
  · rw [heq]
    exact scope.lower_preorder primitives frame refl trans step p
  · rw [heq]
    exact refl p

theorem Specialization.lower_leads (frame : Frame) (s : Specialization) (p : Progress) :
    p.Leads ((s.lower primitives frame).run p).2 :=
  s.lower_preorder primitives frame .refl (fun _ _ _ => .trans) (conclude_leads primitives frame) p

theorem Element.lower_callable_run (c : Callable) (p : Progress) :
    ((Element.callable c).lower primitives).run p =
      (.callable { c with
        specializations :=
          ((c.specializations.mapM (Specialization.lower primitives (.ofCallable c))).run p).1 },
        ((c.specializations.mapM (Specialization.lower primitives (.ofCallable c))).run p).2) := rfl

/-- What every concluded conditional of its bodies keeps, an element keeps. -/
theorem Element.lower_preorder {R : Progress → Progress → Prop} (refl : ∀ p, R p p)
    (trans : ∀ p q r, R p q → R q r → R p r) (e : Element)
    (step : ∀ c, e = .callable c → ∀ s p, R p ((conclude primitives (.ofCallable c) s).run p).2)
    (p : Progress) : R p ((e.lower primitives).run p).2 := by
  cases e with
  | customType t => exact refl p
  | callable c =>
    exact ((Chain.mapM (Specialization.lower primitives (.ofCallable c)) c.specializations p).run
      (S := fun _ p _ q => R p q) (Specialization.lower_preorder primitives (.ofCallable c) refl trans
        (step c rfl))).preorder refl trans fun _ _ _ _ h => h

theorem Element.lower_leads (e : Element) (p : Progress) :
    p.Leads ((e.lower primitives).run p).2 :=
  e.lower_preorder primitives .refl (fun _ _ _ => .trans)
    (fun c _ => conclude_leads primitives (.ofCallable c)) p

theorem Element.lower_makes (e : Element) (p : Progress) :
    p.Adds (fun op => ∃ c, e = .callable c ∧ (Frame.ofCallable c).Makes op)
      ((e.lower primitives).run p).2 :=
  e.lower_preorder primitives .refl (fun _ _ _ => .trans)
    (fun c hc s p => (conclude_makes primitives (.ofCallable c) s p).imp fun _ h => ⟨c, hc, h⟩) p

/-- The elements are lowered in order, and the operations made from their blocks follow. -/
theorem Namespace.lower_chain (names : NameSupply) (ns : Namespace) :
    ∃ elements p, Chain (fun e p b q => (Element.lower primitives e).run p = (b, q))
        ns.elements { names } elements p ∧
      (∀ c ∈ p.hoisted, ∃ frame : Frame, frame.Makes c) ∧
      ns.lower primitives names =
        { result := { ns with elements := elements ++ p.hoisted.map Element.callable }
          names := p.names
          report :=
            if p.hoisted.isEmpty then p.report
            else p.report ++ [.extended ns.name p.hoisted.length] } := by
  have hchain := Chain.mapM (Element.lower primitives) ns.elements { names }
  refine ⟨_, _, hchain, fun c hc => ?_, rfl⟩
  have hadds := (hchain.run (S := fun _ p _ q => p.Adds (fun c => ∃ frame : Frame, frame.Makes c) q)
    fun e p => (e.lower_makes primitives p).imp fun _ ⟨c, _, h⟩ => ⟨.ofCallable c, h⟩).preorder
      .refl (fun _ _ _ => .trans) (fun _ _ _ _ h => h)
  exact hadds.forall_mem rfl c hc

end

theorem Compilation.lower_eq (options : Options) (c : Compilation) :
    c.lower options =
      let out :=
        Namespace.lowerAll options.primitives (.forCompilation c options.settings) c.namespaces
      ⟨{ c with namespaces := out.result }, out.names, out.report⟩ := rfl

end OutcomeControl
