import LoxLang.Proofs.GrammarShape
import LoxLang.Proofs.ParserLogic
import LoxLang.Proofs.RuleParts
import Mathlib.Data.List.Forall2

/-!
What the rules for expressions accept is in the grammar: a rule that ends well without noting an
error has read a piece of the grammar, and the tree it gives is the one that the piece denotes,
with numbers of its own.
-/

set_option autoImplicit false
set_option relaxedAutoImplicit false

namespace LoxLang

namespace Parse

open Grammar

def Reads {α : Type} [Labelled α] (G : List Token → α → List Token → Prop) (s : ParseState)
    (a : α) (s' : ParseState) : Prop :=
  G s.ahead a s'.ahead ∧ Numbered s.labels (Labelled.labels a) s'.labels

variable {inner : ParseM Expr}

private theorem yields_primary (h : Yields inner (Reads Expression)) :
    Yields (primary inner) (Reads Primary) := by
  unfold primary
  refine Yields.choice ((Yields.fail _).mono fun _ _ _ h => h.elim) fun t member => ?_
  have literal : ∀ v, (∀ ts, Primary (t :: ts) (.literal v) ts) →
      Yields (pure (.literal v)) fun s e s' => Primary (t :: s.ahead) e s'.ahead ∧
        Numbered s.labels e.labels s'.labels := by
    intro v hv
    refine (Yields.pure _).mono ?_
    rintro s _ _ ⟨rfl, rfl⟩
    exact ⟨hv _, .nil Labels.le_rfl⟩
  dsimp only
  split
  · rename_i kind
    exact literal _ fun ts => .falseWord kind
  · rename_i kind
    exact literal _ fun ts => .trueWord kind
  · rename_i kind
    exact literal _ fun ts => .nilWord kind
  · rename_i kind
    exact literal _ fun ts => .number kind
  · rename_i kind
    exact literal _ fun ts => .string kind
  · rename_i kind
    refine (Yields.freshExpr.bind fun id => Yields.pure _).mono ?_
    rintro s _ s' ⟨id, _, ⟨ahead, numbered⟩, rfl, rfl⟩
    exact ⟨ahead ▸ .this kind, numbered⟩
  · rename_i kind
    refine ((Yields.expect _ _).bind fun dot => (Yields.expect _ _).bind fun method =>
      Yields.freshExpr.bind fun id => Yields.pure _).mono ?_
    rintro s _ s' ⟨dot, s₁, ⟨hdot, ahead₁, labels₁⟩, method, s₂, ⟨hmethod, ahead₂, labels₂⟩,
      id, _, ⟨ahead, numbered⟩, rfl, rfl⟩
    rw [labels₂, labels₁] at numbered
    refine ⟨?_, numbered⟩
    rw [ahead₁, ahead₂, ahead]
    exact .super kind hdot hmethod
  · rename_i kind
    refine (Yields.freshExpr.bind fun id => Yields.pure _).mono ?_
    rintro s _ s' ⟨id, _, ⟨ahead, numbered⟩, rfl, rfl⟩
    exact ⟨ahead ▸ .name kind, numbered⟩
  · refine (h.bind fun e => (Yields.expect _ _).bind fun right => Yields.pure _).mono ?_
    rintro s _ s' ⟨e, s₁, ⟨he, numbered⟩, right, _, ⟨hright, ahead, labels⟩, rfl, rfl⟩
    have kind : t.kind = .leftParen := by simp_all
    exact ⟨.grouping kind (ahead ▸ he) hright, labels ▸ numbered⟩

theorem yields_noteFull (count : Nat) (f : SyntaxFault) :
    Yields (noteFull count f) fun s _ s' => s' = s ∧ count < maxArity := by
  unfold noteFull
  split
  · refine (Yields.peek.bind fun t => Yields.report _).mono ?_
    rintro s _ s' ⟨_, _, _, impossible⟩
    exact impossible.elim
  · rename_i within
    exact (Yields.pure _).mono fun s _ s' h => ⟨h.2, Nat.not_le.mp within⟩

private theorem yields_argumentsFrom (h : Yields inner (Reads Expression)) (bound count : Nat) :
    Yields (argumentsFrom inner bound count) fun s args s' =>
      Reads ArgumentList s args s' ∧ count + args.length ≤ maxArity := by
  induction bound generalizing count with
  | zero =>
    unfold argumentsFrom
    exact (Yields.fail _).mono fun _ _ _ h => h.elim
  | succ bound ih =>
    rw [argumentsFrom_succ]
    refine ((yields_noteFull _ _).bind fun _ => h.bind fun e => Yields.choice
      (R := fun s args s' => ∀ s₀, Reads Expression s₀ e s → count < maxArity →
        Reads ArgumentList s₀ args s' ∧ count + args.length ≤ maxArity)
      ((Yields.pure _).mono ?_) fun t comma => ?_).mono ?_
    · rintro s _ _ ⟨rfl, rfl⟩ _ s₀ ⟨he, numbered⟩ within
      refine ⟨⟨.one he, ?_⟩, within⟩
      simpa [Labelled.labels, Expr.labelsAll] using numbered
    · refine ((ih (count + 1)).bind fun others => Yields.pure _).mono ?_
      rintro s _ s' ⟨others, _, ⟨⟨hothers, numbered'⟩, limit⟩, rfl, rfl⟩ s₀ ⟨he, numbered⟩ within
      refine ⟨⟨.more he (List.mem_singleton.mp comma) hothers, numbered.append numbered'⟩, ?_⟩
      simp only [List.length_cons]
      omega
    · rintro s args s' ⟨_, _, ⟨rfl, within⟩, e, s₁, read, behind⟩
      exact behind _ read within

private theorem yields_arguments (h : Yields inner (Reads Expression)) (bound : Nat) :
    Yields (arguments inner bound) fun s args s' =>
      Reads Arguments s args s' ∧ args.length ≤ maxArity := by
  unfold arguments
  refine ((Yields.check _).bind (R := fun _ s args s' => Reads Arguments s args s' ∧
    args.length ≤ maxArity) fun empty => ?_).mono ?_
  · cases empty with
    | true =>
      refine (Yields.pure _).mono ?_
      rintro s _ _ ⟨rfl, rfl⟩
      exact ⟨⟨.none, .nil Labels.le_rfl⟩, Nat.zero_le _⟩
    | false =>
      refine (yields_argumentsFrom h bound 0).mono ?_
      rintro s args s' ⟨⟨list, numbered⟩, limit⟩
      exact ⟨⟨.some list, numbered⟩, by omega⟩
  · rintro s args s' ⟨_, _, ⟨rfl, _⟩, read⟩
    exact read

private theorem yields_callsFrom (h : Yields inner (Reads Expression)) (bound : Nat) (e : Expr) :
    Yields (callsFrom inner bound e) fun s e' s' => Suffixes e s.ahead e' s'.ahead ∧
      ∀ lo, Numbered lo e.labels s.labels → Numbered lo e'.labels s'.labels := by
  induction bound generalizing e with
  | zero =>
    unfold callsFrom
    refine (Yields.pure _).mono ?_
    rintro s _ _ ⟨rfl, rfl⟩
    exact ⟨.done, fun _ numbered => numbered⟩
  | succ bound ih =>
    unfold callsFrom
    refine Yields.choice ((Yields.pure _).mono ?_) fun t member => ?_
    · rintro s _ _ ⟨rfl, rfl⟩ _
      exact ⟨.done, fun _ numbered => numbered⟩
    · dsimp only
      split
      · rename_i kind
        refine ((yields_arguments h bound).bind fun args => (Yields.expect _ _).bind fun paren =>
          ih _).mono ?_
        rintro s e' s' ⟨args, s₁, ⟨⟨hargs, numbered⟩, limit⟩, paren, s₂,
          ⟨hparen, ahead, labels⟩, suffixes, later⟩
        refine ⟨.call kind (ahead ▸ hargs) hparen limit suffixes, fun lo before => later lo ?_⟩
        exact before.append (labels ▸ numbered)
      · rename_i other
        refine ((Yields.expect _ _).bind fun name => ih _).mono ?_
        rintro s e' s' ⟨name, s₁, ⟨hname, ahead, labels⟩, suffixes, later⟩
        have kind : t.kind = .dot := by simpa [other] using member
        exact ⟨ahead ▸ .property kind hname suffixes, fun lo before => later lo (labels ▸ before)⟩

private theorem yields_unary (h : Yields inner (Reads Expression)) (bound : Nat) :
    Yields (unary inner bound) (Reads Unary) := by
  induction bound with
  | zero =>
    unfold unary
    exact (Yields.fail _).mono fun _ _ _ h => h.elim
  | succ bound ih =>
    unfold unary
    refine Yields.choice (((yields_primary h).bind fun e => yields_callsFrom h bound e).mono ?_)
      fun t member => (ih.bind fun e => Yields.pure _).mono ?_
    · rintro s e' s' ⟨e, s₁, ⟨primary, numbered⟩, suffixes, later⟩ _
      exact ⟨.call (.intro primary suffixes), later _ numbered⟩
    · rintro s _ s' ⟨e, _, ⟨operand, numbered⟩, rfl, rfl⟩
      exact ⟨.operator (by simpa using member) operand, numbered⟩

def Level.Matches (level : Level) (tier : Tier) : Prop :=
  level.kinds = tier.operators ∧ level.node = tier.node ∧
    ∀ operator left right, (level.node operator left right).labels = left.labels ++ right.labels

private theorem yields_chainFrom {level : Level} {tier : Tier} {tighter : List Tier}
    {operand : ParseM Expr} (hlevel : level.Matches tier)
    (h : Yields operand (Reads (Operation tighter))) (bound : Nat) (left : Expr) :
    Yields (chainFrom level operand bound left) fun s e s' =>
      Chain tier tighter left s.ahead e s'.ahead ∧
        ∀ lo, Numbered lo left.labels s.labels → Numbered lo e.labels s'.labels := by
  obtain ⟨kinds, node, nodeLabels⟩ := hlevel
  induction bound generalizing left with
  | zero =>
    unfold chainFrom
    refine (Yields.pure _).mono ?_
    rintro s _ _ ⟨rfl, rfl⟩
    exact ⟨.done, fun _ numbered => numbered⟩
  | succ bound ih =>
    unfold chainFrom
    refine Yields.choice ((Yields.pure _).mono ?_)
      fun t member => (h.bind fun right => ih _).mono ?_
    · rintro s _ _ ⟨rfl, rfl⟩ _
      exact ⟨.done, fun _ numbered => numbered⟩
    · rintro s e s' ⟨right, s₁, ⟨hright, numbered⟩, chain, later⟩
      refine ⟨.step (kinds ▸ member) hright (node ▸ chain), fun lo before => later lo ?_⟩
      rw [nodeLabels]
      exact before.append numbered

private theorem yields_ofLevels (h : Yields inner (Reads Expression)) (bound : Nat)
    {levels : List Level} {tiers : List Tier} (hlevels : List.Forall₂ Level.Matches levels tiers) :
    Yields (ofLevels inner bound levels) (Reads (Operation tiers)) := by
  induction hlevels with
  | nil =>
    refine (yields_unary h bound).mono ?_
    rintro s e s' ⟨hu, numbered⟩
    exact ⟨.unary hu, numbered⟩
  | cons hlevel _ ih =>
    refine (ih.bind fun left => yields_chainFrom hlevel ih bound left).mono ?_
    rintro s e s' ⟨left, s₁, ⟨hleft, numbered⟩, chain, later⟩
    exact ⟨.level hleft chain, later _ numbered⟩

/-- The levels of the parser are those of the grammar. -/
theorem levels_match : List.Forall₂ Level.Matches levels tiers := by
  simp [levels, tiers, Level.Matches, Tier.operators, Expr.labels]
  refine ⟨?_, ?_, ?_, ?_, ?_, ?_⟩ <;> rfl

private theorem yields_assigned (h : Yields inner (Reads Expression)) (target : Expr)
    (equals : Token) :
    Yields (do
      let value ← inner
      match target with
      | .variable _ name => return .assign (← freshExpr) name value
      | .get object name => pure (.set object name value)
      | other =>
        report ⟨equals, .invalidAssignmentTarget⟩
        pure other) fun s e s' => ∃ value s₁, Reads Expression s value s₁ ∧ s'.ahead = s₁.ahead ∧
          ((∃ old id name, target = .variable old name ∧ e = .assign id name value ∧
              Numbered s₁.labels [.expr id] s'.labels) ∨
            ∃ object name, target = .get object name ∧ e = .set object name value ∧
              s'.labels = s₁.labels) := by
  refine (h.bind (R := fun value s₁ e s' => s'.ahead = s₁.ahead ∧
    ((∃ old id name, target = .variable old name ∧ e = .assign id name value ∧
        Numbered s₁.labels [.expr id] s'.labels) ∨
      ∃ object name, target = .get object name ∧ e = .set object name value ∧
        s'.labels = s₁.labels)) fun value => ?_).mono ?_
  · split
    · rename_i old name
      refine (Yields.freshExpr.bind fun id => Yields.pure _).mono ?_
      rintro s _ s' ⟨id, _, ⟨ahead, numbered⟩, rfl, rfl⟩
      exact ⟨ahead, .inl ⟨old, id, name, rfl, rfl, numbered⟩⟩
    · rename_i object name
      refine (Yields.pure _).mono ?_
      rintro s _ _ ⟨rfl, rfl⟩
      exact ⟨rfl, .inr ⟨object, name, rfl, rfl, rfl⟩⟩
    · refine ((Yields.report _).bind fun _ => Yields.pure target).mono ?_
      rintro s e s' ⟨_, _, impossible, _⟩
      exact impossible.elim
  · rintro s e s' ⟨value, s₁, read, rest⟩
    exact ⟨value, s₁, read, rest⟩

private theorem yields_assignment (h : Yields inner (Reads Expression)) (bound : Nat) :
    Yields (assignment inner bound) (Reads Expression) := by
  unfold assignment
  refine ((yields_ofLevels h bound levels_match).bind fun target => Yields.choice
    (R := fun s e s' => ∀ s₀, Reads (Operation tiers) s₀ target s → Reads Expression s₀ e s')
    ((Yields.pure _).mono ?_) fun equals member => (yields_assigned h target equals).mono ?_).mono ?_
  · rintro s _ _ ⟨rfl, rfl⟩ _ s₀ ⟨operation, numbered⟩
    exact ⟨.operation operation, numbered⟩
  · rintro s e s' ⟨value, s₁, ⟨hvalue, numbered'⟩, ahead, made⟩ s₀ ⟨operation, numbered⟩
    rw [← ahead] at hvalue
    have hequals := List.mem_singleton.mp member
    rcases made with ⟨old, id, name, rfl, rfl, fresh⟩ | ⟨object, name, rfl, rfl, labels'⟩
    · obtain ⟨hname, tokens⟩ := (operation.call_of_bare trivial).variable
      refine ⟨?_, (numbered'.append fresh).of_le numbered.le⟩
      rw [tokens]
      exact .assign hname hequals hvalue
    · obtain ⟨dot, hdot, hname, front⟩ := (operation.call_of_bare trivial).property
      refine ⟨.set front hdot hname hequals hvalue, ?_⟩
      rw [labels']
      exact numbered.append numbered'
  · rintro s e s' ⟨target, s₁, read, behind⟩
    exact behind s read

theorem yields_expression (bound : Nat) : Yields (expression bound) (Reads Expression) := by
  induction bound with
  | zero =>
    unfold expression
    exact (Yields.fail _).mono fun _ _ _ h => h.elim
  | succ bound ih =>
    unfold expression
    exact yields_assignment ih _

end Parse

end LoxLang
