import LoxLang.Proofs.ExpressionSound
import LoxLang.Proofs.ParserRuns

/-!
The rules for expressions read all of the grammar.  A piece of the grammar is read to its end when
nothing follows that could belong to it, and the tree is that of the piece but for its numbers.
-/

set_option autoImplicit false
set_option relaxedAutoImplicit false

namespace LoxLang

namespace Grammar

def continuing (tiers : List Tier) : List Kind :=
  [.leftParen, .dot] ++ tiers.flatMap Tier.operators

def Stops (tiers : List Tier) (rest : List Token) : Prop :=
  ∀ t ∈ rest.head?, t.kind ∉ continuing tiers

def Ends (rest : List Token) : Prop :=
  ∀ t ∈ rest.head?, t.kind ∉ .equal :: continuing tiers

private theorem Stops.tighter {tier : Tier} {tighter : List Tier} {rest : List Token}
    (h : Stops (tier :: tighter) rest) : Stops tighter rest := by
  intro t ht member
  refine h t ht ?_
  simp only [continuing, List.flatMap_cons, List.mem_append] at member ⊢
  tauto

private theorem Ends.stops {rest : List Token} (h : Ends rest) : Stops tiers rest :=
  fun t ht member => h t ht (List.mem_cons_of_mem _ member)

theorem Ends.cons {t : Token} {rest : List Token} (h : t.kind ∉ .equal :: continuing tiers) :
    Ends (t :: rest) := by
  rintro _ ⟨⟩
  exact h

def Ordered : List Tier → Prop
  | [] => True
  | tier :: tighter => (∀ k ∈ tier.operators, k ∉ continuing tighter) ∧ Ordered tighter

private theorem ordered_tiers : Ordered tiers :=
  ⟨by decide, by decide, by decide, by decide, by decide, by decide, trivial⟩

private theorem Tier.erased_node (tier : Tier) (operator : Token) (left right : Expr) :
    erased (tier.node operator left right) =
      tier.node operator (erased left) (erased right) := by
  cases tier <;> rfl

private theorem Chain.stops {tier : Tier} {tighter : List Tier} {left e : Expr}
    {mid rest : List Token}
    (apart : ∀ k ∈ tier.operators, k ∉ continuing tighter) (h : Chain tier tighter left mid e rest)
    (stops : Stops (tier :: tighter) rest) : Stops tighter mid := by
  cases h with
  | done => exact stops.tighter
  | step kind _ _ =>
    rintro _ ⟨⟩
    exact apart _ kind

end Grammar

namespace Parse

open Grammar

def Completes {α : Type} [Renumberable α] (rule : ParseM α) (G : List Token → α → List Token → Prop)
    (Follow : List Token → Prop) (bound : Nat) : Prop :=
  ∀ ⦃ts a rest⦄, G ts a rest → Follow rest → ts.length ≤ bound → ∀ ⦃s⦄, s.ahead = ts →
    Gives rule s (Same a) rest

variable {inner : ParseM Expr} {B : Nat}

private theorem gives_primary (h : Completes inner Expression Ends B) :
    Completes (primary inner) Primary (fun _ => True) (B + 1) := by
  intro ts e rest derivation _ short s ahead
  unfold primary
  cases derivation with
  | number kind | string kind | trueWord kind | falseWord kind | nilWord kind =>
    refine (Gives.acceptAny ahead (by simp [kind])).bind ?_
    rintro _ s' rfl ahead'
    simp only [kind]
    exact .pure rfl ahead'
  | this kind | name kind =>
    refine (Gives.acceptAny ahead (by simp [kind])).bind ?_
    rintro _ s' rfl ahead'
    simp only [kind]
    exact (Gives.freshExpr ahead').bind fun id s'' _ ahead'' => .pure rfl ahead''
  | super kind dot method =>
    refine (Gives.acceptAny ahead (by simp [kind])).bind ?_
    rintro _ s₁ rfl ahead₁
    simp only [kind]
    refine (Gives.expect ahead₁ dot).bind ?_
    rintro _ s₂ rfl ahead₂
    refine (Gives.expect ahead₂ method).bind ?_
    rintro _ s₃ rfl ahead₃
    exact (Gives.freshExpr ahead₃).bind fun id s₄ _ ahead₄ => .pure rfl ahead₄
  | grouping kind value right =>
    refine (Gives.acceptAny ahead (by simp [kind])).bind ?_
    rintro _ s₁ rfl ahead₁
    simp only [kind]
    have close : Ends (_ :: rest) := .cons (by rw [right]; decide)
    refine (h value close (Nat.le_of_succ_le_succ short) ahead₁).bind ?_
    intro e' s₂ same ahead₂
    refine (Gives.expect ahead₂ right).bind ?_
    rintro _ s₃ rfl ahead₃
    exact .pure (congrArg Expr.grouping same) ahead₃

private theorem gives_argumentsFrom (h : Completes inner Expression Ends B) (bound count : Nat)
    {ts rest : List Token} {args : List Expr} {right : Token}
    (derivation : ArgumentList ts args (right :: rest)) (close : right.kind = .rightParen)
    (short : ts.length ≤ bound) (within : ts.length ≤ B)
    (limit : count + args.length ≤ maxArity) {s : ParseState} (ahead : s.ahead = ts) :
    Gives (argumentsFrom inner bound count) s (Same args)
      (right :: rest) := by
  induction bound generalizing count ts args s with
  | zero =>
    have some := derivation.behind.2
    omega
  | succ bound ih =>
    rw [argumentsFrom_succ]
    cases derivation with
    | one value =>
      have ends : Ends (right :: rest) := .cons (by rw [close]; decide)
      refine (Gives.noteFull limit ahead).bind fun _ s₁ _ ahead₁ => ?_
      refine (h value ends within ahead₁).bind fun e' s₂ same ahead₂ => ?_
      refine (Gives.acceptAny_none [.comma] ahead₂ (by simp [close])).bind ?_
      rintro _ s₃ rfl ahead₃
      exact .pure (congrArg (fun a => [a]) same) ahead₃
    | more value comma others =>
      rename_i mid e commaToken args
      simp only [List.length_cons] at limit
      have ends : Ends (commaToken :: mid) := .cons (by rw [comma]; decide)
      have shorter := value.behind.tail.2
      refine (Gives.noteFull (by omega) ahead).bind fun _ s₁ _ ahead₁ => ?_
      refine (h value ends within ahead₁).bind fun e' s₂ same ahead₂ => ?_
      refine (Gives.acceptAny ahead₂ (by simp [comma])).bind ?_
      rintro _ s₃ rfl ahead₃
      refine (ih (count + 1) others (by omega) (by omega) (by omega) ahead₃).bind ?_
      intro others' s₄ same' ahead₄
      exact .pure (congrArg₂ List.cons same same') ahead₄

private theorem gives_arguments (h : Completes inner Expression Ends B) {bound : Nat}
    {ts rest : List Token} {args : List Expr} {right : Token}
    (derivation : Arguments ts args (right :: rest)) (close : right.kind = .rightParen)
    (short : ts.length ≤ bound) (within : ts.length ≤ B) (limit : args.length ≤ maxArity)
    {s : ParseState} (ahead : s.ahead = ts) :
    Gives (arguments inner bound) s (Same args)
      (right :: rest) := by
  unfold arguments
  cases derivation with
  | none =>
    refine (Gives.check ahead).bind ?_
    rintro _ s₁ rfl ahead₁
    simp only [List.head?_cons, Option.any_some, close, decide_true, if_true]
    exact .pure rfl ahead₁
  | some list =>
    refine (Gives.check ahead).bind ?_
    rintro _ s₁ rfl ahead₁
    obtain ⟨t, us, rfl, start⟩ := list.starts
    have other : t.kind ≠ .rightParen := by
      rintro equal
      rw [equal] at start
      exact absurd start (by decide)
    simp only [List.head?_cons, Option.any_some, other, decide_false]
    exact gives_argumentsFrom h bound 0 list close short within (by omega) ahead₁

private theorem gives_callsFrom (h : Completes inner Expression Ends B) (bound : Nat)
    {e e' left : Expr}
    {ts rest : List Token} (derivation : Suffixes e ts e' rest) (stops : Stops [] rest)
    (short : ts.length ≤ bound) (within : ts.length ≤ B + 1) (same : Same e left)
    {s : ParseState} (ahead : s.ahead = ts) :
    Gives (callsFrom inner bound left) s (Same e') rest := by
  induction bound generalizing e left ts s with
  | zero =>
    cases derivation with
    | done => exact .pure same ahead
    | _ => simp at short
  | succ bound ih =>
    unfold callsFrom
    cases derivation with
    | done =>
      refine (Gives.acceptAny_none _ ahead stops).bind ?_
      rintro _ s₁ rfl ahead₁
      exact .pure same ahead₁
    | call hleft args hright limit suffixes =>
      rename_i leftToken right ts mid args'
      simp only [List.length_cons] at short within
      refine (Gives.acceptAny ahead (by simp [hleft])).bind ?_
      rintro _ s₁ rfl ahead₁
      simp only [hleft, if_true]
      refine (gives_arguments h args hright (by omega) (by omega) limit ahead₁).bind ?_
      intro args'' s₂ same' ahead₂
      refine (Gives.expect ahead₂ hright).bind ?_
      rintro right s₃ rfl ahead₃
      have shorter := args.suffix.length_le
      simp only [List.length_cons] at shorter
      refine ih suffixes (by omega) (by omega) ?_ ahead₃
      exact congrArg₂ (fun callee args => Expr.call callee right args) same same'
    | property hdot hname suffixes =>
      rename_i dot name ts
      simp only [List.length_cons] at short within
      refine (Gives.acceptAny ahead (by simp [hdot])).bind ?_
      rintro _ s₁ rfl ahead₁
      simp only [hdot, reduceCtorEq, if_false]
      refine (Gives.expect ahead₁ hname).bind ?_
      rintro name s₂ rfl ahead₂
      refine ih suffixes (by omega) (by omega) ?_ ahead₂
      exact congrArg (Expr.get · name) same

private theorem gives_unary (h : Completes inner Expression Ends B) (bound : Nat)
    {ts rest : List Token} {e : Expr} (derivation : Unary ts e rest) (stops : Stops [] rest)
    (short : ts.length ≤ bound) (within : ts.length ≤ B + 1) {s : ParseState}
    (ahead : s.ahead = ts) : Gives (unary inner bound) s (Same e) rest := by
  induction bound generalizing e ts s with
  | zero =>
    have some := derivation.behind.2
    omega
  | succ bound ih =>
    unfold unary
    cases derivation with
    | operator kind operand =>
      simp only [List.length_cons] at short within
      refine (Gives.acceptAny ahead (by simpa using kind)).bind ?_
      rintro _ s₁ rfl ahead₁
      refine (ih operand (by omega) (by omega) ahead₁).bind fun e' s₂ same ahead₂ => ?_
      exact .pure (congrArg (Expr.unary _) same) ahead₂
    | call derivation =>
      have noOperator := derivation.starts.disjoint [.bang, .minus] (by decide)
      obtain ⟨primary, suffixes⟩ := derivation
      refine (Gives.acceptAny_none _ ahead noOperator).bind ?_
      rintro _ s₁ rfl ahead₁
      refine (gives_primary h primary trivial within ahead₁).bind fun e' s₂ same ahead₂ => ?_
      have shorter := primary.behind.2
      exact gives_callsFrom h bound suffixes stops (by omega) (by omega) same ahead₂

private theorem gives_chainFrom {level : Level} {tier : Tier} {tighter : List Tier}
    {operand : ParseM Expr} (hlevel : level.Matches tier)
    (apart : ∀ k ∈ tier.operators, k ∉ continuing tighter)
    (h : Completes operand (Operation tighter) (Stops tighter) B) (bound : Nat)
    {left left' e : Expr} {ts rest : List Token} (derivation : Chain tier tighter left ts e rest)
    (stops : Stops (tier :: tighter) rest) (short : ts.length ≤ bound) (within : ts.length ≤ B)
    (same : Same left left') {s : ParseState} (ahead : s.ahead = ts) :
    Gives (chainFrom level operand bound left') s (Same e) rest := by
  obtain ⟨kinds, node, -⟩ := hlevel
  induction bound generalizing left left' ts s with
  | zero =>
    cases derivation with
    | done => exact .pure same ahead
    | step => simp at short
  | succ bound ih =>
    unfold chainFrom
    cases derivation with
    | done =>
      have ended : ∀ t ∈ rest.head?, t.kind ∉ level.kinds := by
        intro t ht member
        rw [kinds] at member
        exact stops t ht (by simp [continuing, member])
      refine (Gives.acceptAny_none _ ahead ended).bind ?_
      rintro _ s₁ rfl ahead₁
      exact .pure same ahead₁
    | step kind right chain =>
      rename_i right' operator ts mid
      simp only [List.length_cons] at short within
      refine (Gives.acceptAny ahead (kinds ▸ kind)).bind ?_
      rintro _ s₁ rfl ahead₁
      refine (h right (chain.stops apart stops) (by omega) ahead₁).bind ?_
      intro e' s₂ same' ahead₂
      have shorter := right.behind.2
      refine ih chain (by omega) (by omega) ?_ ahead₂
      rw [node]
      calc erased (tier.node operator left' e')
          = tier.node operator (erased left') (erased e') := Tier.erased_node ..
        _ = tier.node operator (erased left) (erased right') :=
            congrArg₂ (tier.node operator) same same'
        _ = erased (tier.node operator left right') := (Tier.erased_node ..).symm

private theorem completes_ofLevels (h : Completes inner Expression Ends B) {bound : Nat}
    (short : B + 1 ≤ bound) {levels : List Level} {tiers : List Tier}
    (hlevels : List.Forall₂ Level.Matches levels tiers) (ordered : Ordered tiers) :
    Completes (ofLevels inner bound levels) (Operation tiers) (Stops tiers) (B + 1) := by
  induction hlevels with
  | nil =>
    rintro ts e rest ⟨derivation⟩ stops within s ahead
    exact gives_unary h bound derivation stops (by omega) within ahead
  | cons hlevel _ ih =>
    obtain ⟨apart, ordered⟩ := ordered
    intro ts e rest derivation stops within s ahead
    cases derivation with
    | level first chain =>
      refine (ih ordered first (chain.stops apart stops) within ahead).bind ?_
      intro left s₁ same ahead₁
      have shorter := first.behind.2
      exact gives_chainFrom hlevel apart (ih ordered) bound chain stops (by omega) (by omega) same
        ahead₁

private theorem eq_variable {id : ExprId} {name : Token} {e : Expr}
    (h : Same (.variable id name) e) :
    ∃ id', e = .variable id' name := by
  cases e <;> simp_all [Same, erased, Renumberable.renumber, Expr.renumber]

private theorem eq_property {object e : Expr} {name : Token} (h : Same (.get object name) e) :
    ∃ object', e = .get object' name ∧ Same object object' := by
  cases e <;> simp_all [Same, erased, Renumberable.renumber, Expr.renumber]

private theorem completes_assignment (h : Completes inner Expression Ends B) {bound : Nat}
    (short : B + 1 ≤ bound) : Completes (assignment inner bound) Expression Ends (B + 1) := by
  have operand := completes_ofLevels h short levels_match ordered_tiers
  intro ts e rest derivation ends within s ahead
  unfold assignment
  cases derivation with
  | operation derivation =>
    refine (operand derivation ends.stops within ahead).bind fun target s₁ same ahead₁ => ?_
    have noEqual : ∀ t ∈ rest.head?, t.kind ∉ [Kind.equal] := by
      intro t ht member
      exact ends t ht (List.mem_singleton.mp member ▸ List.mem_cons_self)
    refine (Gives.acceptAny_none _ ahead₁ noEqual).bind ?_
    rintro _ s₂ rfl ahead₂
    exact .pure same ahead₂
  | assign hname hequals value =>
    rename_i id name equals ts e
    simp only [List.length_cons] at within
    have target : Call (name :: equals :: ts) (.variable id name) (equals :: ts) :=
      .intro (.name hname) .done
    have stops : Stops tiers (equals :: ts) := by
      rintro _ ⟨⟩
      rw [hequals]
      decide
    refine (operand (target.operation tiers) stops ?_ ahead).bind fun e' s₁ same ahead₁ => ?_
    · simpa using within
    obtain ⟨id', rfl⟩ := eq_variable same
    refine (Gives.acceptAny ahead₁ (by simp [hequals])).bind ?_
    rintro _ s₂ rfl ahead₂
    refine (h value ends (by omega) ahead₂).bind fun value' s₃ same' ahead₃ => ?_
    exact (Gives.freshExpr ahead₃).bind fun _ s₄ _ ahead₄ =>
      .pure (congrArg (Expr.assign 0 name) same') ahead₄
  | set front hdot hname hequals value =>
    rename_i object e dot name equals ts
    have target := front.append_property hdot hname
    have shorter := target.behind.2
    simp only [List.length_cons] at shorter
    have stops : Stops tiers (equals :: ts) := by
      rintro _ ⟨⟩
      rw [hequals]
      decide
    refine (operand (target.operation tiers) stops within ahead).bind fun e' s₁ same ahead₁ => ?_
    obtain ⟨object', rfl, sameObject⟩ := eq_property same
    refine (Gives.acceptAny ahead₁ (by simp [hequals])).bind ?_
    rintro _ s₂ rfl ahead₂
    refine (h value ends (by omega) ahead₂).bind fun value' s₃ same' ahead₃ => ?_
    exact .pure (congrArg₂ (Expr.set · name ·) sameObject same') ahead₃

/-- An expression of the grammar that nothing goes on with is read to its end. -/
theorem completes_expression (bound : Nat) :
    Completes (expression bound) Expression Ends bound := by
  induction bound with
  | zero =>
    intro ts e rest derivation _ within
    have some := derivation.behind.2
    omega
  | succ bound ih =>
    unfold expression
    exact completes_assignment ih (Nat.le_refl _)

end Parse

end LoxLang
