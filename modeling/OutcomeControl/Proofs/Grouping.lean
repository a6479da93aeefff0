import OutcomeControl.Program.Text
import OutcomeControl.Text.Letter
import OutcomeControl.Text.Numeral

/-! What the text of an expression shows of its grouping.

A `Formula` is an expression of variables, operators, indices and calls without what is known about
it. An operand that is an operator of two or three operands stands in parentheses, but what is
indexed or called is written as it is. So a sum that is indexed has the text of a sum whose last
summand is indexed (`Sample.grouping_lost`), and where no operator is indexed or called, the text
determines the formula (`Expr.text_eq_text_iff`).

The proof reads two texts side by side. A formula is followed by nothing or by a closing bracket, an
operand also by a blank, and each ends where the other does. -/

namespace OutcomeControl

/-! ### Formulas -/

def isWordChar (c : Char) : Bool := Text.isLetter c || Text.isNumeral c

/-- Letters and numerals that start with a letter and are no operator. -/
def isWord (n : String) : Bool :=
  n.toList.head?.any Text.isLetter && n.toList.all isWordChar && ["not", "and", "or"].all (n != ·)

abbrev Word := { n : String // isWord n }

inductive Formula where
  | word (w : Word)
  | binary (op : BinaryOp) (lhs rhs : Formula)
  | unary (op : UnaryOp) (operand : Formula)
  | item (array index : Formula)
  | choice (condition yes no : Formula)
  | call (callee argument : Formula)
deriving DecidableEq

mutual
/-- The formula that an expression is, if its names are words and it has no other parts. -/
def Expr.formula? : Expr → Option Formula
  | ⟨kind, _⟩ => kind.formula?
def ExprKind.formula? : ExprKind → Option Formula
  | .name (.ofVariable n) none => if h : isWord n then some (.word ⟨n, h⟩) else none
  | .binary op lhs rhs => do return .binary op (← lhs.formula?) (← rhs.formula?)
  | .unary op operand => do return .unary op (← operand.formula?)
  | .item array index => do return .item (← array.formula?) (← index.formula?)
  | .choice condition yes no => do
    return .choice (← condition.formula?) (← yes.formula?) (← no.formula?)
  | .call callee argument => do return .call (← callee.formula?) (← argument.formula?)
  | _ => none
end

namespace Formula

/-- The expression of a formula where all is of one type. -/
def toExpr (ty : Ty) : Formula → Expr
  | .word w => .localName w.1 ty
  | .binary op lhs rhs => .binary op (lhs.toExpr ty) (rhs.toExpr ty) ty
  | .unary op operand => .plain (.unary op (operand.toExpr ty)) ty
  | .item array index => .plain (.item (array.toExpr ty) (index.toExpr ty)) ty
  | .choice condition yes no =>
    .plain (.choice (condition.toExpr ty) (yes.toExpr ty) (no.toExpr ty)) ty
  | .call callee argument => .call (callee.toExpr ty) (argument.toExpr ty) ty

theorem formula?_toExpr (ty : Ty) (t : Formula) : (t.toExpr ty).formula? = some t := by
  induction t with
  | word w => exact dif_pos w.2
  | binary op lhs rhs ihlhs ihrhs =>
    simp [toExpr, Expr.binary, Expr.plain, Expr.formula?, ExprKind.formula?, ihlhs, ihrhs]
  | unary op operand ih => simp [toExpr, Expr.plain, Expr.formula?, ExprKind.formula?, ih]
  | item array index iharray ihindex =>
    simp [toExpr, Expr.plain, Expr.formula?, ExprKind.formula?, iharray, ihindex]
  | choice condition yes no ihcondition ihyes ihno =>
    simp [toExpr, Expr.plain, Expr.formula?, ExprKind.formula?, ihcondition, ihyes, ihno]
  | call callee argument ihcallee ihargument =>
    simp [toExpr, Expr.call, Expr.formula?, ExprKind.formula?, ihcallee, ihargument]

def isGrouped : Formula → Bool
  | .binary .. | .choice .. => true
  | _ => false

def isOperator : Formula → Bool
  | .binary .. | .unary .. | .choice .. => true
  | _ => false

/-- No operator is indexed or called. -/
def simpleHeads : Formula → Bool
  | .word _ => true
  | .binary _ lhs rhs => lhs.simpleHeads && rhs.simpleHeads
  | .unary _ operand => operand.simpleHeads
  | .item array index => !array.isOperator && array.simpleHeads && index.simpleHeads
  | .choice condition yes no => condition.simpleHeads && yes.simpleHeads && no.simpleHeads
  | .call callee argument => !callee.isOperator && callee.simpleHeads && argument.simpleHeads

/-! ### The text of a formula -/

def enclosed (grouped : Bool) (cs : List Char) : List Char :=
  if grouped then '(' :: (cs ++ [')']) else cs

def chars : Formula → List Char
  | .word w => w.1.toList
  | .binary op lhs rhs => enclosed lhs.isGrouped lhs.chars ++
    ' ' :: (op.symbol.toList ++ ' ' :: enclosed rhs.isGrouped rhs.chars)
  | .unary op operand => op.symbol.toList ++ enclosed operand.isGrouped operand.chars
  | .item array index => array.chars ++ '[' :: (index.chars ++ [']'])
  | .choice condition yes no => enclosed condition.isGrouped condition.chars ++
    ' ' :: '?' :: ' ' :: (enclosed yes.isGrouped yes.chars ++
      ' ' :: '|' :: ' ' :: enclosed no.isGrouped no.chars)
  | .call callee argument => callee.chars ++ '(' :: (argument.chars ++ [')'])

def operand (t : Formula) : List Char := enclosed t.isGrouped t.chars

end Formula

/-- The three ways in which an expression is written. -/
structure Expr.Writes (e : Expr) (t : Formula) : Prop where
  text : e.text.toList = t.chars
  operand : e.operand.toList = t.operand
  argument : e.argumentText.toList = '(' :: (t.chars ++ [')'])

structure ExprKind.Writes (k : ExprKind) (t : Formula) : Prop where
  text : k.text.toList = t.chars
  isGrouped : k.isGrouped = t.isGrouped
  isParenthesized : k.isParenthesized = false

theorem ExprKind.Writes.expr {k : ExprKind} {t : Formula} (h : k.Writes t) (info : ExprInfo) :
    Expr.Writes ⟨k, info⟩ t where
  text := h.text
  operand := by
    rw [Expr.operand, h.isGrouped, Formula.operand, Formula.enclosed]
    split <;> simp [h.text]
  argument := by
    rw [Expr.argumentText, h.isParenthesized]
    simp [h.text]

mutual
theorem Expr.writes : (e : Expr) → (t : Formula) → e.formula? = some t → e.Writes t
  | ⟨kind, info⟩, t, h => (kind.writes t h).expr info
theorem ExprKind.writes : (k : ExprKind) → (t : Formula) → k.formula? = some t → k.Writes t
  | .name (.ofVariable n) none, t, h => by
    simp only [ExprKind.formula?, Option.dite_none_right_eq_some, Option.some.injEq] at h
    obtain ⟨hn, rfl⟩ := h
    exact ⟨by simp [ExprKind.text, Identifier.text, typeArgumentsText, Formula.chars], rfl, rfl⟩
  | .binary op lhs rhs, t, h => by
    simp only [ExprKind.formula?, Option.bind_eq_bind, Option.bind_eq_some_iff, Option.pure_def,
      Option.some.injEq] at h
    obtain ⟨l, hl, r, hr, rfl⟩ := h
    refine ⟨?_, rfl, rfl⟩
    simp [ExprKind.text, (lhs.writes l hl).operand, (rhs.writes r hr).operand, Formula.operand,
      Formula.chars]
  | .unary op operand, t, h => by
    simp only [ExprKind.formula?, Option.bind_eq_bind, Option.bind_eq_some_iff, Option.pure_def,
      Option.some.injEq] at h
    obtain ⟨u, hu, rfl⟩ := h
    refine ⟨?_, rfl, rfl⟩
    simp [ExprKind.text, (operand.writes u hu).operand, Formula.operand, Formula.chars]
  | .item array index, t, h => by
    simp only [ExprKind.formula?, Option.bind_eq_bind, Option.bind_eq_some_iff, Option.pure_def,
      Option.some.injEq] at h
    obtain ⟨a, ha, i, hi, rfl⟩ := h
    refine ⟨?_, rfl, rfl⟩
    simp [ExprKind.text, (array.writes a ha).text, (index.writes i hi).text, Formula.chars]
  | .choice condition yes no, t, h => by
    simp only [ExprKind.formula?, Option.bind_eq_bind, Option.bind_eq_some_iff, Option.pure_def,
      Option.some.injEq] at h
    obtain ⟨c, hc, y, hy, n, hn, rfl⟩ := h
    refine ⟨?_, rfl, rfl⟩
    simp [ExprKind.text, (condition.writes c hc).operand, (yes.writes y hy).operand,
      (no.writes n hn).operand, Formula.operand, Formula.chars]
  | .call callee argument, t, h => by
    simp only [ExprKind.formula?, Option.bind_eq_bind, Option.bind_eq_some_iff, Option.pure_def,
      Option.some.injEq] at h
    obtain ⟨f, hf, x, hx, rfl⟩ := h
    refine ⟨?_, rfl, rfl⟩
    simp [ExprKind.text, (callee.writes f hf).text, (argument.writes x hx).argument, Formula.chars]
end

/-! ### Where a text ends -/

/-- What can stand behind a formula. -/
def Closes (rest : List Char) : Prop := ∀ c ∈ rest.head?, c = ')' ∨ c = ']'

/-- What can stand behind an operand. -/
def Ends (rest : List Char) : Prop := ∀ c ∈ rest.head?, c = ')' ∨ c = ']' ∨ c = ' '

theorem Closes.ends {rest : List Char} (h : Closes rest) : Ends rest := by
  intro c hc
  rcases h c hc with rfl | rfl <;> simp

theorem closes_nil : Closes [] := by simp [Closes]

@[simp] theorem closes_cons {c : Char} {cs : List Char} : Closes (c :: cs) ↔ c = ')' ∨ c = ']' := by
  simp [Closes]

@[simp] theorem ends_cons {c : Char} {cs : List Char} :
    Ends (c :: cs) ↔ c = ')' ∨ c = ']' ∨ c = ' ' := by
  simp [Ends]

/-- Two runs of a class of characters that both stop are the same run. -/
theorem append_inj_of_stop {p : Char → Bool} {w w' rest rest' : List Char}
    (hw : ∀ c ∈ w, p c) (hw' : ∀ c ∈ w', p c) (hrest : ∀ c ∈ rest.head?, p c = false)
    (hrest' : ∀ c ∈ rest'.head?, p c = false) (h : w ++ rest = w' ++ rest') :
    w = w' ∧ rest = rest' := by
  have hstop : ∀ {cs : List Char}, (∀ c ∈ cs.head?, p c = false) → cs.takeWhile p = [] := by
    intro cs hcs
    cases cs with
    | nil => rfl
    | cons c cs => exact List.takeWhile_cons_of_neg (by simpa using hcs c rfl)
  have htake := congrArg (List.takeWhile p) h
  rw [List.takeWhile_append_of_pos hw, List.takeWhile_append_of_pos hw', hstop hrest, hstop hrest',
    List.append_nil, List.append_nil] at htake
  subst htake
  exact ⟨rfl, List.append_cancel_left h⟩

/-! ### Words and symbols -/

theorem Word.all_isWordChar (w : Word) : ∀ c ∈ w.1.toList, isWordChar c := by
  have h := w.2
  simp only [isWord, Bool.and_eq_true, List.all_eq_true] at h
  exact h.1.2

theorem Word.ne_not (w : Word) : w.1 ≠ "not" := by
  have h := w.2
  simp only [isWord, Bool.and_eq_true] at h
  intro heq
  simp [heq] at h

/-- A word starts with a letter. -/
theorem Word.exists_letter (w : Word) : ∃ c cs, w.1.toList = c :: cs ∧ Text.isLetter c := by
  have h := w.2
  simp only [isWord, Bool.and_eq_true] at h
  cases hcs : w.1.toList with
  | nil => simp [hcs] at h
  | cons c cs => exact ⟨c, cs, rfl, by simpa [hcs] using h.1.1⟩

/-- What can stand behind a word. -/
def Stops (rest : List Char) : Prop := ∀ c ∈ rest.head?, isWordChar c = false

@[simp] theorem stops_cons {c : Char} {cs : List Char} :
    Stops (c :: cs) ↔ isWordChar c = false := by
  simp [Stops]

theorem Ends.stops {rest : List Char} (h : Ends rest) : Stops rest := by
  intro c hc
  rcases h c hc with rfl | rfl | rfl <;> decide +kernel

theorem Word.append_inj {w w' : Word} {rest rest' : List Char} (hrest : Stops rest)
    (hrest' : Stops rest') (h : w.1.toList ++ rest = w'.1.toList ++ rest') :
    w = w' ∧ rest = rest' := by
  obtain ⟨hw, hrest⟩ := append_inj_of_stop w.all_isWordChar w'.all_isWordChar hrest hrest' h
  exact ⟨Subtype.ext (String.toList_inj.mp hw), hrest⟩

/-- What starts with a word does not start with an operator of one operand. -/
theorem Word.append_ne_symbol {w : Word} {rest cs : List Char} (hrest : Stops rest) (op : UnaryOp) :
    w.1.toList ++ rest ≠ op.symbol.toList ++ cs := by
  intro h
  cases op with
  | not =>
    have hblank : Stops (' ' :: cs) := by
      rw [stops_cons]
      decide +kernel
    have hnot : "not".toList.all isWordChar := by decide +kernel
    obtain ⟨hw, -⟩ := append_inj_of_stop w.all_isWordChar (List.all_eq_true.mp hnot) hrest hblank h
    exact w.ne_not (String.toList_inj.mp hw)
  | neg =>
    obtain ⟨c, cs', hw, hc⟩ := w.exists_letter
    rw [hw] at h
    obtain rfl : c = '-' := (List.cons.inj h).1
    revert hc
    decide +kernel

theorem BinaryOp.symbol_injective {op op' : BinaryOp} (h : op.symbol = op'.symbol) : op = op' := by
  cases op <;> cases op' <;> first | rfl | (revert h; decide)

theorem BinaryOp.blank_notMem_symbol (op : BinaryOp) : ∀ c ∈ op.symbol.toList, c != ' ' := by
  have hall : op.symbol.toList.all (· != ' ') := by cases op <;> decide
  exact List.all_eq_true.mp hall

theorem BinaryOp.symbol_append_inj {op op' : BinaryOp} {cs cs' : List Char}
    (h : op.symbol.toList ++ ' ' :: cs = op'.symbol.toList ++ ' ' :: cs') :
    op = op' ∧ cs = cs' := by
  obtain ⟨hsymbol, hcs⟩ := append_inj_of_stop op.blank_notMem_symbol op'.blank_notMem_symbol
    (by simp) (by simp) h
  exact ⟨symbol_injective (String.toList_inj.mp hsymbol), (List.cons.inj hcs).2⟩

theorem BinaryOp.symbol_append_ne (op : BinaryOp) {cs cs' : List Char} :
    op.symbol.toList ++ ' ' :: cs ≠ '?' :: cs' := by
  cases op <;> simp [BinaryOp.symbol]

namespace Formula

/-! ### Indices and arguments -/

/-- What is written behind an array or a callee. -/
inductive Suffix where
  | index (inner : Formula)
  | argument (inner : Formula)

namespace Suffix

def inner : Suffix → Formula
  | .index t | .argument t => t

def opening : Suffix → Char
  | .index _ => '['
  | .argument _ => '('

def closing : Suffix → Char
  | .index _ => ']'
  | .argument _ => ')'

def chars (s : Suffix) : List Char := s.opening :: (s.inner.chars ++ [s.closing])

theorem closes (s : Suffix) (rest : List Char) : Closes (s.closing :: rest) := by
  cases s <;> simp [closing]

theorem not_ends (s : Suffix) (rest : List Char) : ¬ Ends (s.opening :: rest) := by
  cases s <;> simp [opening]

theorem stops (s : Suffix) (rest : List Char) : Stops (s.opening :: rest) := by
  rw [stops_cons]
  cases s with
  | index => exact (by decide +kernel : isWordChar '[' = false)
  | argument => exact (by decide +kernel : isWordChar '(' = false)

/-- The bracket says which of the two it is. -/
theorem ext_of_opening {s s' : Suffix} (hopening : s.opening = s'.opening)
    (hinner : s.inner = s'.inner) : s = s' := by
  cases s <;> cases s' <;> simp_all [opening, inner]

end Suffix

/-- The formula without its outer indices and arguments. -/
def root : Formula → Formula
  | .item array _ => array.root
  | .call callee _ => callee.root
  | t => t

/-- The outer indices and arguments in order. -/
def suffixes : Formula → List Suffix
  | .item array index => array.suffixes ++ [.index index]
  | .call callee argument => callee.suffixes ++ [.argument argument]
  | _ => []

def attach (t : Formula) : Suffix → Formula
  | .index i => .item t i
  | .argument x => .call t x

theorem foldl_attach (t : Formula) : t.suffixes.foldl attach t.root = t := by
  induction t with
  | item array index iharray =>
    simp only [suffixes, root, List.foldl_append, iharray, List.foldl_cons, List.foldl_nil, attach]
  | call callee argument ihcallee =>
    simp only [suffixes, root, List.foldl_append, ihcallee, List.foldl_cons, List.foldl_nil, attach]
  | word | binary | unary | choice => rfl

theorem chars_eq_suffixes (t : Formula) :
    t.chars = t.root.chars ++ t.suffixes.flatMap Suffix.chars := by
  induction t with
  | item array index iharray => simp [chars, suffixes, root, iharray, Suffix.chars, Suffix.opening,
      Suffix.inner, Suffix.closing]
  | call callee argument ihcallee => simp [chars, suffixes, root, ihcallee, Suffix.chars,
      Suffix.opening, Suffix.inner, Suffix.closing]
  | word | binary | unary | choice => simp [suffixes, root]

theorem exists_root {t : Formula} (ht : t.simpleHeads) (hoperator : t.isOperator = false) :
    ∃ w, t.root = .word w := by
  induction t with
  | item array index iharray =>
    simp only [simpleHeads, Bool.and_eq_true, Bool.not_eq_true'] at ht
    exact iharray ht.1.2 ht.1.1
  | call callee argument ihcallee =>
    simp only [simpleHeads, Bool.and_eq_true, Bool.not_eq_true'] at ht
    exact ihcallee ht.1.2 ht.1.1
  | word w => exact ⟨w, rfl⟩
  | binary | unary | choice => cases hoperator

theorem simpleHeads_suffixes {t : Formula} (ht : t.simpleHeads) :
    ∀ s ∈ t.suffixes, s.inner.simpleHeads := by
  induction t with
  | item array index iharray =>
    simp only [simpleHeads, Bool.and_eq_true] at ht
    simpa [suffixes, or_imp, forall_and, Suffix.inner] using ⟨iharray ht.1.2, ht.2⟩
  | call callee argument ihcallee =>
    simp only [simpleHeads, Bool.and_eq_true] at ht
    simpa [suffixes, or_imp, forall_and, Suffix.inner] using ⟨ihcallee ht.1.2, ht.2⟩
  | word | binary | unary | choice => simp [suffixes]

/-! ### The first operand -/

def first : Formula → Formula
  | .binary _ lhs _ => lhs
  | .choice condition _ _ => condition
  | t => t

/-- What is written behind the first operand. -/
def afterFirst : Formula → List Char
  | .binary op _ rhs => ' ' :: (op.symbol.toList ++ ' ' :: rhs.operand)
  | .choice _ yes no => ' ' :: '?' :: ' ' :: (yes.operand ++ ' ' :: '|' :: ' ' :: no.operand)
  | _ => []

theorem chars_eq_first (t : Formula) : t.chars = t.first.operand ++ t.afterFirst := by
  cases t with
  | binary | choice => rfl
  | word | unary | item | call => exact (List.append_nil _).symm

theorem simpleHeads_first {t : Formula} (ht : t.simpleHeads) : t.first.simpleHeads := by
  cases t <;> simp_all [first, simpleHeads]

theorem ends_afterFirst (t : Formula) {rest : List Char} (h : Closes rest) :
    Ends (t.afterFirst ++ rest) := by
  cases t <;> simp [afterFirst, h.ends]

/-- Two operands are not a formula of one. -/
theorem first_eq_self {t : Formula} {rest : List Char} (h : Closes (t.afterFirst ++ rest)) :
    t.first = t ∧ t.afterFirst = [] := by
  cases t <;> simp_all [first, afterFirst]

/-! ### Reading -/

/-- Where a formula and another one are written, followed by what can follow them, and the texts are
the same, the formulas are the same. -/
def Reads (t : Formula) : Prop :=
  ∀ (t' : Formula) (rest rest' : List Char), t'.simpleHeads → Closes rest → Closes rest' →
    t.chars ++ rest = t'.chars ++ rest' → t = t' ∧ rest = rest'

def ReadsOperand (t : Formula) : Prop :=
  ∀ (t' : Formula) (rest rest' : List Char), t'.simpleHeads → Ends rest → Ends rest' →
    t.operand ++ rest = t'.operand ++ rest' → t = t' ∧ rest = rest'

theorem suffixes_inj {ss ss' : List Suffix} {rest rest' : List Char}
    (hss : ∀ s ∈ ss, s.inner.Reads) (hss' : ∀ s ∈ ss', s.inner.simpleHeads) (hrest : Ends rest)
    (hrest' : Ends rest')
    (h : ss.flatMap Suffix.chars ++ rest = ss'.flatMap Suffix.chars ++ rest') :
    ss = ss' ∧ rest = rest' := by
  induction ss generalizing ss' with
  | nil =>
    cases ss' with
    | nil => exact ⟨rfl, h⟩
    | cons s' ss' =>
      obtain rfl : rest = s'.opening :: _ := h
      exact absurd hrest (s'.not_ends _)
  | cons s ss ih =>
    cases ss' with
    | nil =>
      obtain rfl : s.opening :: _ = rest' := h
      exact absurd hrest' (s.not_ends _)
    | cons s' ss' =>
      simp only [List.flatMap_cons, Suffix.chars, List.cons_append, List.append_assoc,
        List.nil_append, List.cons.injEq] at h
      obtain ⟨hopening, h⟩ := h
      obtain ⟨hinner, h⟩ := hss s List.mem_cons_self _ _ _ (hss' s' List.mem_cons_self)
        (s.closes _) (s'.closes _) h
      obtain ⟨rfl, hrest⟩ := ih (fun u hu => hss u (List.mem_cons_of_mem _ hu))
        (fun u hu => hss' u (List.mem_cons_of_mem _ hu)) (List.cons.inj h).2
      exact ⟨by rw [Suffix.ext_of_opening hopening hinner], hrest⟩

theorem stops_suffixes (ss : List Suffix) {rest : List Char} (hrest : Ends rest) :
    Stops (ss.flatMap Suffix.chars ++ rest) := by
  cases ss with
  | nil => exact hrest.stops
  | cons s ss => exact s.stops _

/-- What is no operator starts with a word. -/
theorem exists_chars_append {t : Formula} (ht : t.simpleHeads) (hoperator : t.isOperator = false)
    {rest : List Char} (hrest : Ends rest) :
    ∃ (w : Word) (tail : List Char), t.chars ++ rest = w.1.toList ++ tail ∧ Stops tail := by
  obtain ⟨w, hw⟩ := exists_root ht hoperator
  refine ⟨w, _, ?_, stops_suffixes t.suffixes hrest⟩
  rw [t.chars_eq_suffixes, hw, chars, List.append_assoc]

/-- Only an operand in parentheses starts with one. -/
theorem chars_append_ne {t : Formula} (ht : t.simpleHeads) (hgrouped : t.isGrouped = false)
    {rest : List Char} (hrest : Ends rest) (cs : List Char) : t.chars ++ rest ≠ '(' :: cs := by
  intro h
  cases hoperator : t.isOperator with
  | false =>
    obtain ⟨w, tail, hw, -⟩ := exists_chars_append ht hoperator hrest
    obtain ⟨c, ds, hc, hletter⟩ := w.exists_letter
    rw [hw, hc] at h
    obtain rfl : c = '(' := (List.cons.inj h).1
    revert hletter
    decide +kernel
  | true =>
    cases t with
    | unary op u => cases op <;> simp [chars, UnaryOp.symbol] at h
    | binary | choice => cases hgrouped
    | word | item | call => cases hoperator

theorem isGrouped_of_not_isOperator {t : Formula} (h : t.isOperator = false) :
    t.isGrouped = false := by
  cases t <;> first | rfl | cases h

theorem operand_of_not_isGrouped {t : Formula} (h : t.isGrouped = false) : t.operand = t.chars := by
  simp [operand, enclosed, h]

theorem operand_of_isGrouped {t : Formula} (h : t.isGrouped) :
    t.operand = '(' :: (t.chars ++ [')']) := by
  simp [operand, enclosed, h]

/-- An operand in parentheses is no other operand. -/
theorem isGrouped_eq {t t' : Formula} {rest rest' : List Char} (ht : t.simpleHeads)
    (ht' : t'.simpleHeads) (hrest : Ends rest) (hrest' : Ends rest')
    (h : t.operand ++ rest = t'.operand ++ rest') : t.isGrouped = t'.isGrouped := by
  cases hgrouped : t.isGrouped <;> cases hgrouped' : t'.isGrouped
  · rfl
  · rw [operand_of_not_isGrouped hgrouped, operand_of_isGrouped hgrouped'] at h
    exact absurd h (chars_append_ne ht hgrouped hrest _)
  · rw [operand_of_isGrouped hgrouped, operand_of_not_isGrouped hgrouped'] at h
    exact absurd h.symm (chars_append_ne ht' hgrouped' hrest' _)
  · rfl

/-- Of those without parentheses, what starts with a symbol is an operator. -/
theorem chars_append_ne_symbol {t : Formula} {rest : List Char} (ht : t.simpleHeads)
    (hoperator : t.isOperator = false) (hrest : Ends rest) (op : UnaryOp) (cs : List Char) :
    t.chars ++ rest ≠ op.symbol.toList ++ cs := by
  obtain ⟨w, tail, hw, htail⟩ := exists_chars_append ht hoperator hrest
  rw [hw]
  exact Word.append_ne_symbol htail op

theorem readsOperand_of_isGrouped {t : Formula} (ht : t.simpleHeads) (hgrouped : t.isGrouped)
    (h : t.Reads) : t.ReadsOperand := by
  intro t' rest rest' ht' hrest hrest' heq
  have hgrouped' := (isGrouped_eq ht ht' hrest hrest' heq).symm.trans hgrouped
  rw [operand_of_isGrouped hgrouped, operand_of_isGrouped hgrouped'] at heq
  simp only [List.cons_append, List.append_assoc, List.nil_append, List.cons.injEq, true_and] at heq
  obtain ⟨rfl, hclosing⟩ := h t' _ _ ht' (by simp) (by simp) heq
  exact ⟨rfl, (List.cons.inj hclosing).2⟩

theorem readsOperand_unary {t : Formula} (ht : t.simpleHeads) (h : t.ReadsOperand) (op : UnaryOp) :
    (unary op t).ReadsOperand := by
  intro t' rest rest' ht' hrest hrest' heq
  have hgrouped' : false = t'.isGrouped := isGrouped_eq (t := unary op t) ht ht' hrest hrest' heq
  rw [operand_of_not_isGrouped (t := unary op t) rfl,
    operand_of_not_isGrouped hgrouped'.symm] at heq
  cases t' with
  | unary op' t' =>
    simp only [chars, List.append_assoc] at heq
    obtain ⟨rfl, hoperand⟩ : op = op' ∧ t.operand ++ rest = t'.operand ++ rest' := by
      cases op <;> cases op' <;> simp_all [UnaryOp.symbol, operand]
    obtain ⟨rfl, hrest⟩ := h t' _ _ ht' hrest hrest' hoperand
    exact ⟨rfl, hrest⟩
  | word | item | call =>
    rw [chars.eq_def (unary op t), List.append_assoc] at heq
    exact absurd heq.symm (chars_append_ne_symbol ht' rfl hrest' op _)
  | binary | choice => cases hgrouped'

theorem readsOperand_of_not_isOperator {t : Formula} (ht : t.simpleHeads)
    (hoperator : t.isOperator = false) (hsuffixes : ∀ s ∈ t.suffixes, s.inner.Reads) :
    t.ReadsOperand := by
  intro t' rest rest' ht' hrest hrest' heq
  have hgrouped := isGrouped_of_not_isOperator hoperator
  have hgrouped' := (isGrouped_eq ht ht' hrest hrest' heq).symm.trans hgrouped
  rw [operand_of_not_isGrouped hgrouped, operand_of_not_isGrouped hgrouped'] at heq
  cases hoperator' : t'.isOperator with
  | true =>
    cases t' with
    | unary op u =>
      rw [chars.eq_def (unary op u), List.append_assoc] at heq
      exact absurd heq (chars_append_ne_symbol ht hoperator hrest op _)
    | binary | choice => cases hgrouped'
    | word | item | call => cases hoperator'
  | false =>
    obtain ⟨w, hw⟩ := exists_root ht hoperator
    obtain ⟨w', hw'⟩ := exists_root ht' hoperator'
    rw [t.chars_eq_suffixes, t'.chars_eq_suffixes, hw, hw', chars, chars, List.append_assoc,
      List.append_assoc] at heq
    obtain ⟨rfl, hbehind⟩ := Word.append_inj (stops_suffixes _ hrest) (stops_suffixes _ hrest') heq
    obtain ⟨hss, hrest⟩ := suffixes_inj hsuffixes (simpleHeads_suffixes ht') hrest hrest' hbehind
    refine ⟨?_, hrest⟩
    rw [← t.foldl_attach, ← t'.foldl_attach, hss, hw, hw']

/-- A formula is read by its first operand and what stands behind it. -/
theorem reads_of_first {t : Formula} (hfirst : t.first.ReadsOperand)
    (hafter : ∀ (t' : Formula) (rest rest' : List Char), t'.simpleHeads → Closes rest →
      Closes rest' → t.first = t'.first → t.afterFirst ++ rest = t'.afterFirst ++ rest' →
      t = t' ∧ rest = rest') : t.Reads := by
  intro t' rest rest' ht' hrest hrest' heq
  rw [t.chars_eq_first, t'.chars_eq_first, List.append_assoc, List.append_assoc] at heq
  obtain ⟨hsame, heq⟩ := hfirst _ _ _ (simpleHeads_first ht') (t.ends_afterFirst hrest)
    (t'.ends_afterFirst hrest') heq
  exact hafter t' rest rest' ht' hrest hrest' hsame heq

theorem reads_of_not_isGrouped {t : Formula} (hgrouped : t.isGrouped = false)
    (h : t.ReadsOperand) : t.Reads := by
  obtain ⟨hself, hnil⟩ : t.first = t ∧ t.afterFirst = [] := by
    cases t <;> simp_all [first, afterFirst, isGrouped]
  refine reads_of_first (hself.symm ▸ h) fun t' rest rest' _ hrest _ hsame heq => ?_
  rw [hnil, List.nil_append] at heq
  obtain ⟨hself', hnil'⟩ := first_eq_self (heq ▸ hrest)
  rw [hself, hself'] at hsame
  rw [hnil', List.nil_append] at heq
  exact ⟨hsame, heq⟩

theorem reads_binary {lhs rhs : Formula} (hlhs : lhs.ReadsOperand) (hrhs : rhs.ReadsOperand)
    (op : BinaryOp) : (binary op lhs rhs).Reads := by
  refine reads_of_first hlhs fun t' rest rest' ht' hrest hrest' hsame heq => ?_
  cases t' with
  | binary op' lhs' rhs' =>
    simp only [simpleHeads, Bool.and_eq_true] at ht'
    simp only [afterFirst, List.cons_append, List.append_assoc, List.cons.injEq, true_and] at heq
    obtain ⟨rfl, hoperand⟩ := BinaryOp.symbol_append_inj heq
    obtain ⟨rfl, hrest⟩ := hrhs rhs' _ _ ht'.2 hrest.ends hrest'.ends hoperand
    obtain rfl : lhs = lhs' := hsame
    exact ⟨rfl, hrest⟩
  | choice condition yes no =>
    simp only [afterFirst, List.cons_append, List.append_assoc, List.cons.injEq, true_and] at heq
    exact absurd heq op.symbol_append_ne
  | word | unary | item | call =>
    obtain rfl : ' ' :: _ = rest' := heq
    simp at hrest'

theorem reads_choice {condition yes no : Formula} (hcondition : condition.ReadsOperand)
    (hyes : yes.ReadsOperand) (hno : no.ReadsOperand) : (choice condition yes no).Reads := by
  refine reads_of_first hcondition fun t' rest rest' ht' hrest hrest' hsame heq => ?_
  cases t' with
  | choice condition' yes' no' =>
    simp only [simpleHeads, Bool.and_eq_true] at ht'
    simp only [afterFirst, List.cons_append, List.append_assoc, List.cons.injEq, true_and] at heq
    obtain ⟨rfl, hbar⟩ := hyes yes' _ _ ht'.1.2 (by simp) (by simp) heq
    simp only [List.cons.injEq, true_and] at hbar
    obtain ⟨rfl, hrest⟩ := hno no' _ _ ht'.2 hrest.ends hrest'.ends hbar
    obtain rfl : condition = condition' := hsame
    exact ⟨rfl, hrest⟩
  | binary op lhs rhs =>
    simp only [afterFirst, List.cons_append, List.append_assoc, List.cons.injEq, true_and] at heq
    exact absurd heq.symm op.symbol_append_ne
  | word | unary | item | call =>
    obtain rfl : ' ' :: _ = rest' := heq
    simp at hrest'

theorem reads_of_not_isOperator {t : Formula} (ht : t.simpleHeads)
    (hoperator : t.isOperator = false) (hsuffixes : ∀ s ∈ t.suffixes, s.inner.Reads) :
    t.Reads ∧ t.ReadsOperand ∧ ∀ s ∈ t.suffixes, s.inner.Reads := by
  have hoperand := readsOperand_of_not_isOperator ht hoperator hsuffixes
  have hreads := reads_of_not_isGrouped (isGrouped_of_not_isOperator hoperator) hoperand
  exact ⟨hreads, hoperand, hsuffixes⟩

/-- **A formula where no operator is indexed or called can be read back**, alone or as an operand.
The outer indices and arguments go with it, since the induction meets an array and a callee only
without what stands behind them. -/
theorem reads (t : Formula) (ht : t.simpleHeads) :
    t.Reads ∧ t.ReadsOperand ∧ ∀ s ∈ t.suffixes, s.inner.Reads := by
  induction t with
  | word w => exact reads_of_not_isOperator ht rfl (by simp [suffixes])
  | binary op lhs rhs ihlhs ihrhs =>
    have hparts := ht
    simp only [simpleHeads, Bool.and_eq_true] at hparts
    have hreads := reads_binary (ihlhs hparts.1).2.1 (ihrhs hparts.2).2.1 op
    exact ⟨hreads, readsOperand_of_isGrouped ht rfl hreads, by simp [suffixes]⟩
  | unary op t ih =>
    have hoperand := readsOperand_unary (t := t) ht (ih ht).2.1 op
    exact ⟨reads_of_not_isGrouped rfl hoperand, hoperand, by simp [suffixes]⟩
  | item array index iharray ihindex =>
    have hparts := ht
    simp only [simpleHeads, Bool.and_eq_true] at hparts
    refine reads_of_not_isOperator ht rfl ?_
    simpa [suffixes, or_imp, forall_and, Suffix.inner] using
      ⟨(iharray hparts.1.2).2.2, (ihindex hparts.2).1⟩
  | choice condition yes no ihcondition ihyes ihno =>
    have hparts := ht
    simp only [simpleHeads, Bool.and_eq_true] at hparts
    have hreads := reads_choice (ihcondition hparts.1.1).2.1 (ihyes hparts.1.2).2.1
      (ihno hparts.2).2.1
    exact ⟨hreads, readsOperand_of_isGrouped ht rfl hreads, by simp [suffixes]⟩
  | call callee argument ihcallee ihargument =>
    have hparts := ht
    simp only [simpleHeads, Bool.and_eq_true] at hparts
    refine reads_of_not_isOperator ht rfl ?_
    simpa [suffixes, or_imp, forall_and, Suffix.inner] using
      ⟨(ihcallee hparts.1.2).2.2, (ihargument hparts.2).1⟩

end Formula

/-! ### The text of an expression -/

/-- **Where no operator is indexed or called, two expressions have one text just if they are one
formula**, whatever their types are and wherever they stand. -/
theorem Expr.text_eq_text_iff {e e' : Expr} {t t' : Formula} (he : e.formula? = some t)
    (he' : e'.formula? = some t') (ht : t.simpleHeads) (ht' : t'.simpleHeads) :
    e.text = e'.text ↔ t = t' := by
  rw [← String.toList_inj, (e.writes t he).text, (e'.writes t' he').text]
  constructor
  · intro h
    exact ((t.reads ht).1 t' [] [] ht' closes_nil closes_nil (congrArg (· ++ []) h)).1
  · exact congrArg Formula.chars

namespace Sample

def a : Formula := .word ⟨"a", by decide +kernel⟩

def b : Formula := .word ⟨"b", by decide +kernel⟩

def f : Formula := .word ⟨"f", by decide +kernel⟩

/-- `f(a)[b]`. -/
def entry : Formula := .item (.call f a) b

/-- `(-f(a)[b]) * (a ? b | f)`. -/
def negatedFactor : Formula := .binary .mul (.unary .neg entry) (.choice a b f)

/-- `-(f(a)[b] * (a ? b | f))`. -/
def negatedProduct : Formula := .unary .neg (.binary .mul entry (.choice a b f))

end Sample

theorem Sample.negation_grouped :
    let factor := Sample.negatedFactor.toExpr .int
    let product := Sample.negatedProduct.toExpr .int
    factor.text = "-f(a)[b] * (a ? b | f)" ∧ product.text = "-(f(a)[b] * (a ? b | f))" ∧
      factor.text ≠ product.text ∧ factor.text = (Sample.negatedFactor.toExpr .double).text := by
  intro factor product
  have hfactor : factor.formula? = some Sample.negatedFactor := Formula.formula?_toExpr ..
  have hproduct : product.formula? = some Sample.negatedProduct := Formula.formula?_toExpr ..
  refine ⟨by decide +kernel, by decide +kernel, fun h => ?_, ?_⟩
  · have hsame := (Expr.text_eq_text_iff hfactor hproduct rfl rfl).mp h
    cases hsame
  · exact (Expr.text_eq_text_iff hfactor (Formula.formula?_toExpr ..) rfl rfl).mpr rfl

/-- A sum that is indexed has the text of a sum with an indexed summand, and a negation that is
called that of a negated call. -/
theorem Sample.grouping_lost :
    (∃ e e' : Expr, ∃ t t' : Formula, e.formula? = some t ∧ e'.formula? = some t' ∧
      t = .item (.binary .add Sample.a Sample.b) Sample.f ∧
      t' = .binary .add Sample.a (.item Sample.b Sample.f) ∧ t ≠ t' ∧
      e.text = "a + b[f]" ∧ e'.text = "a + b[f]") ∧
    ∃ e e' : Expr, ∃ t t' : Formula, e.formula? = some t ∧ e'.formula? = some t' ∧
      t = .call (.unary .not Sample.f) Sample.a ∧ t' = .unary .not (.call Sample.f Sample.a) ∧
      t ≠ t' ∧ e.text = "not f(a)" ∧ e'.text = "not f(a)" := by
  have hformula := Formula.formula?_toExpr .int
  refine ⟨⟨_, _, _, _, hformula _, hformula _, rfl, rfl, ?_⟩,
    ⟨_, _, _, _, hformula _, hformula _, rfl, rfl, ?_⟩⟩
  all_goals decide +kernel

end OutcomeControl
