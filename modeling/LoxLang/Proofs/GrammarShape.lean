import LoxLang.Proofs.Grammar

/-!
What a derivation tells of the tokens and of the tree: a piece takes at least one token from the
front and leaves the others, and an operand that is a variable or a property is just that.
-/

set_option autoImplicit false
set_option relaxedAutoImplicit false

namespace LoxLang

namespace Grammar

def Behind (rest ts : List Token) : Prop := rest <:+ ts ∧ rest.length < ts.length

namespace Behind

variable {t : Token} {ts mid rest : List Token}

private theorem cons (h : rest <:+ ts) : Behind rest (t :: ts) :=
  ⟨h.trans (List.suffix_cons t ts), Nat.lt_succ_of_le h.length_le⟩

theorem tail (h : Behind (t :: rest) ts) : Behind rest ts := by
  refine ⟨(List.suffix_cons t rest).trans h.1, ?_⟩
  have shorter := h.2
  simp only [List.length_cons] at shorter
  omega

private theorem trans_le (h : rest <:+ mid) (h' : Behind mid ts) : Behind rest ts :=
  ⟨h.trans h'.1, Nat.lt_of_le_of_lt h.length_le h'.2⟩

private theorem le_trans (h : Behind rest mid) (h' : mid <:+ ts) : Behind rest ts :=
  ⟨h.1.trans h', Nat.lt_of_lt_of_le h.2 h'.length_le⟩

end Behind

mutual

theorem Expression.behind : ∀ {ts e rest}, Expression ts e rest → Behind rest ts
  | _, _, _, .assign _ _ value => .cons (value.behind.1.trans (List.suffix_cons _ _))
  | _, _, _, .set object _ _ _ value =>
    have inner := object.behind
    value.behind.le_trans inner.tail.tail.tail.1
  | _, _, _, .operation operation => operation.behind

theorem Operation.behind : ∀ {tiers ts e rest}, Operation tiers ts e rest → Behind rest ts
  | _, _, _, _, .unary unary => unary.behind
  | _, _, _, _, .level first chain => .trans_le chain.suffix first.behind

private theorem Chain.suffix : ∀ {tier tighter left ts e rest},
    Chain tier tighter left ts e rest → rest <:+ ts
  | _, _, _, _, _, _, .done => List.suffix_rfl
  | _, _, _, _, _, _, .step _ right chain =>
    chain.suffix.trans (right.behind.1.trans (List.suffix_cons _ _))

theorem Unary.behind : ∀ {ts e rest}, Unary ts e rest → Behind rest ts
  | _, _, _, .operator _ operand => .cons operand.behind.1
  | _, _, _, .call call => call.behind

theorem Call.behind : ∀ {ts e rest}, Call ts e rest → Behind rest ts
  | _, _, _, .intro primary suffixes => .trans_le suffixes.suffix primary.behind

private theorem Suffixes.suffix : ∀ {e ts e' rest}, Suffixes e ts e' rest → rest <:+ ts
  | _, _, _, _, .done => List.suffix_rfl
  | _, _, _, _, .call _ args _ _ suffixes =>
    suffixes.suffix.trans ((List.suffix_cons _ _).trans
      (args.suffix.trans (List.suffix_cons _ _)))
  | _, _, _, _, .property _ _ suffixes =>
    suffixes.suffix.trans ((List.suffix_cons _ _).trans (List.suffix_cons _ _))

theorem Arguments.suffix : ∀ {ts args rest}, Arguments ts args rest → rest <:+ ts
  | _, _, _, .none => List.suffix_rfl
  | _, _, _, .some args => args.behind.1

theorem ArgumentList.behind : ∀ {ts args rest}, ArgumentList ts args rest → Behind rest ts
  | _, _, _, .one e => e.behind
  | _, _, _, .more e _ args => args.behind.le_trans e.behind.tail.1

theorem Primary.behind : ∀ {ts e rest}, Primary ts e rest → Behind rest ts
  | _, _, _, .number _ | _, _, _, .string _ | _, _, _, .trueWord _ | _, _, _, .falseWord _
  | _, _, _, .nilWord _ | _, _, _, .this _ | _, _, _, .name _ => .cons List.suffix_rfl
  | _, _, _, .grouping _ inner _ => .cons inner.behind.tail.1
  | _, _, _, .super _ _ _ => .cons ((List.suffix_cons _ _).trans (List.suffix_cons _ _))

end

theorem OptionalExpression.suffix {ts e rest} :
    OptionalExpression ts e rest → rest <:+ ts
  | .none => List.suffix_rfl
  | .some e => e.behind.1

private theorem ExpressionStatement.behind {ts s rest} :
    ExpressionStatement ts s rest → Behind rest ts
  | .intro e _ => e.behind.tail

private theorem VarDeclaration.behind {ts s rest} : VarDeclaration ts s rest → Behind rest ts
  | .bare _ _ _ => .cons ((List.suffix_cons _ _).trans (List.suffix_cons _ _))
  | .initialized _ _ _ e _ =>
    .cons (e.behind.tail.1.trans ((List.suffix_cons _ _).trans (List.suffix_cons _ _)))

theorem ForInitializer.behind {ts s rest} : ForInitializer ts s rest → Behind rest ts
  | .none _ => .cons List.suffix_rfl
  | .var decl => decl.behind
  | .expression statement => statement.behind

theorem ParameterList.behind : ∀ {ts params rest}, ParameterList ts params rest → Behind rest ts
  | _, _, _, .one _ => .cons List.suffix_rfl
  | _, _, _, .more _ _ params => .cons (params.behind.1.trans (List.suffix_cons _ _))

theorem Parameters.suffix {ts params rest} : Parameters ts params rest → rest <:+ ts
  | .none => List.suffix_rfl
  | .some params => params.behind.1

mutual

theorem Statement.behind {rule} : ∀ {dangling ts s rest},
    Statement rule dangling ts s rest → Behind rest ts
  | _, _, _, _, .expression statement => statement.behind
  | _, _, _, _, .print _ e _ => .cons e.behind.tail.1
  | _, _, _, _, .ret _ value _ => .cons ((List.suffix_cons _ _).trans value.suffix)
  | _, _, _, _, .loop _ _ condition _ body =>
    .cons (body.behind.1.trans (condition.behind.tail.1.trans (List.suffix_cons _ _)))
  | _, _, _, _, .ifThen _ _ condition _ thenBranch =>
    .cons (thenBranch.behind.1.trans (condition.behind.tail.1.trans (List.suffix_cons _ _)))
  | _, _, _, _, .ifElse _ _ condition _ thenBranch _ _ elseBranch =>
    .cons (elseBranch.behind.1.trans (thenBranch.behind.tail.1.trans
      (condition.behind.tail.1.trans (List.suffix_cons _ _))))
  | _, _, _, _, .forLoop _ _ initializer condition _ increment _ body =>
    .cons (body.behind.1.trans ((List.suffix_cons _ _).trans (increment.suffix.trans
      ((List.suffix_cons _ _).trans (condition.suffix.trans
        (initializer.behind.1.trans (List.suffix_cons _ _)))))))
  | _, _, _, _, .block _ body _ => .cons ((List.suffix_cons _ _).trans body.suffix)

theorem Declaration.behind {rule} : ∀ {ts s rest}, Declaration rule ts s rest → Behind rest ts
  | _, _, _, .classDecl _ _ _ methods _ =>
    .cons ((List.suffix_cons _ _).trans (methods.suffix.trans
      ((List.suffix_cons _ _).trans (List.suffix_cons _ _))))
  | _, _, _, .subclass _ _ _ _ _ methods _ =>
    .cons ((List.suffix_cons _ _).trans (methods.suffix.trans ((List.suffix_cons _ _).trans
      ((List.suffix_cons _ _).trans ((List.suffix_cons _ _).trans (List.suffix_cons _ _))))))
  | _, _, _, .function _ function => .cons function.behind.1
  | _, _, _, .var decl => decl.behind
  | _, _, _, .statement statement => statement.behind

private theorem Declarations.suffix {rule} : ∀
    {ts ss rest}, Declarations rule ts ss rest → rest <:+ ts
  | _, _, _, .nil => List.suffix_rfl
  | _, _, _, .cons first others => others.suffix.trans first.behind.1

theorem Function.behind {rule} : ∀ {ts decl rest}, Function rule ts decl rest → Behind rest ts
  | _, _, _, .intro _ _ params _ _ _ body _ =>
    .cons ((List.suffix_cons _ _).trans (body.suffix.trans ((List.suffix_cons _ _).trans
      ((List.suffix_cons _ _).trans (params.suffix.trans (List.suffix_cons _ _))))))

theorem Methods.suffix {rule} : ∀ {ts decls rest}, Methods rule ts decls rest → rest <:+ ts
  | _, _, _, .nil => List.suffix_rfl
  | _, _, _, .cons first others => others.suffix.trans first.behind.1

end

def StartsWith (kinds : List Kind) (ts : List Token) : Prop :=
  ∃ t us, ts = t :: us ∧ t.kind ∈ kinds

private theorem StartsWith.mono {kinds kinds' : List Kind} {ts : List Token}
    (h : StartsWith kinds ts) (sub : kinds ⊆ kinds') : StartsWith kinds' ts := by
  obtain ⟨t, us, rfl, member⟩ := h
  exact ⟨t, us, rfl, sub member⟩

theorem StartsWith.disjoint {kinds : List Kind} {ts : List Token} (h : StartsWith kinds ts)
    (kinds' : List Kind) (apart : ∀ k ∈ kinds, k ∉ kinds') :
    ∀ t ∈ ts.head?, t.kind ∉ kinds' := by
  obtain ⟨t, us, rfl, member⟩ := h
  rintro _ ⟨⟩
  exact apart _ member

def callStarts : List Kind :=
  [.falseWord, .trueWord, .nilWord, .number, .string, .thisWord, .superWord, .identifier,
    .leftParen]

def expressionStarts : List Kind := [.bang, .minus] ++ callStarts

private theorem Primary.starts {ts e rest} (h : Primary ts e rest) : StartsWith callStarts ts := by
  cases h <;> exact ⟨_, _, rfl, by simp [callStarts, *]⟩

theorem Call.starts {ts e rest} : Call ts e rest → StartsWith callStarts ts
  | .intro primary _ => primary.starts

private theorem Unary.starts {ts e rest} : Unary ts e rest → StartsWith expressionStarts ts
  | .operator kind _ =>
    ⟨_, _, rfl, List.mem_append_left _ (by simpa using kind)⟩
  | .call bare => bare.starts.mono (List.subset_append_right _ _)

private theorem Operation.starts : ∀ {tiers ts e rest}, Operation tiers ts e rest →
    StartsWith expressionStarts ts
  | _, _, _, _, .unary operand => operand.starts
  | _, _, _, _, .level first _ => first.starts

theorem Expression.starts {ts e rest} : Expression ts e rest → StartsWith expressionStarts ts
  | .assign kind _ _ => ⟨_, _, rfl, by simp [expressionStarts, callStarts, kind]⟩
  | .set object _ _ _ _ => object.starts.mono (List.subset_append_right _ _)
  | .operation value => value.starts

theorem ArgumentList.starts {ts args rest} :
    ArgumentList ts args rest → StartsWith expressionStarts ts
  | .one e => e.starts
  | .more e _ _ => e.starts

def statementStarts : List Kind :=
  [.forWord, .ifWord, .printWord, .returnWord, .whileWord, .leftBrace] ++ expressionStarts

theorem ExpressionStatement.starts {ts s rest} :
    ExpressionStatement ts s rest → StartsWith expressionStarts ts
  | .intro e _ => e.starts

theorem Statement.starts {rule dangling ts s rest} (h : Statement rule dangling ts s rest) :
    StartsWith statementStarts ts := by
  cases h with
  | expression statement => exact statement.starts.mono (List.subset_append_right _ _)
  | _ => exact ⟨_, _, rfl, by simp [statementStarts, *]⟩

def declarationStarts : List Kind := [.classWord, .funWord, .varWord] ++ statementStarts

theorem VarDeclaration.starts {ts s rest} (h : VarDeclaration ts s rest) :
    StartsWith [.varWord] ts := by
  cases h <;> exact ⟨_, _, rfl, by simp [*]⟩

theorem Declaration.starts {rule ts s rest} (h : Declaration rule ts s rest) :
    StartsWith declarationStarts ts := by
  cases h with
  | statement statement => exact statement.starts.mono (List.subset_append_right _ _)
  | var decl => exact decl.starts.mono (by simp [declarationStarts])
  | _ => exact ⟨_, _, rfl, by simp [declarationStarts, *]⟩

private theorem Chain.result : ∀ {tier tighter left ts e rest}, Chain tier tighter left ts e rest →
    (e = left ∧ rest = ts) ∨ ∃ operator a b, e = tier.node operator a b
  | _, _, _, _, _, _, .done => .inl ⟨rfl, rfl⟩
  | _, _, _, _, _, _, .step _ _ chain => by
    rcases chain.result with ⟨rfl, _⟩ | node
    · exact .inr ⟨_, _, _, rfl⟩
    · exact .inr node

def Bare : Expr → Prop
  | .unary .. | .binary .. | .logical .. => False
  | _ => True

private theorem Tier.not_bare_node (tier : Tier) (operator : Token) (a b : Expr) :
    ¬ Bare (tier.node operator a b) := by
  cases tier <;> exact id

/-- An operand without operators is a call. -/
theorem Operation.call_of_bare : ∀ {tiers ts e rest}, Operation tiers ts e rest → Bare e →
    Call ts e rest
  | _, _, _, _, .unary (.call call), _ => call
  | _, _, _, _, .unary (.operator _ _), bare => bare.elim
  | _, _, _, _, .level first chain, bare => by
    rcases chain.result with ⟨rfl, rfl⟩ | ⟨operator, a, b, rfl⟩
    · exact first.call_of_bare bare
    · exact (Tier.not_bare_node _ _ _ _ bare).elim

private theorem Suffixes.result : ∀ {e ts e' rest}, Suffixes e ts e' rest →
    (e' = e ∧ rest = ts) ∨ (∃ callee paren args, e' = .call callee paren args) ∨
      ∃ object dot name, e' = .get object name ∧ dot.kind = .dot ∧ name.kind = .identifier ∧
        Suffixes e ts object (dot :: name :: rest)
  | _, _, _, _, .done => .inl ⟨rfl, rfl⟩
  | _, _, _, _, .call left args right limit suffixes => by
    rcases suffixes.result with ⟨rfl, rfl⟩ | called | ⟨object, dot, name, rfl, hdot, hname, front⟩
    · exact .inr (.inl ⟨_, _, _, rfl⟩)
    · exact .inr (.inl called)
    · exact .inr (.inr ⟨object, dot, name, rfl, hdot, hname, .call left args right limit front⟩)
  | _, _, _, _, .property hdot hname suffixes => by
    rcases suffixes.result with ⟨rfl, rfl⟩ | called | ⟨object, dot, name, rfl, hdot', hname', front⟩
    · exact .inr (.inr ⟨_, _, _, rfl, hdot, hname, .done⟩)
    · exact .inr (.inl called)
    · exact .inr (.inr ⟨object, dot, name, rfl, hdot', hname', .property hdot hname front⟩)

theorem Call.variable {ts rest : List Token} {id : ExprId} {name : Token}
    (h : Call ts (.variable id name) rest) : name.kind = .identifier ∧ ts = name :: rest := by
  obtain ⟨primary, suffixes⟩ := h
  rcases suffixes.result with ⟨rfl, rfl⟩ | ⟨_, _, _, impossible⟩ | ⟨_, _, _, impossible, _⟩
  · cases primary with
    | name kind => exact ⟨kind, rfl⟩
  · cases impossible
  · cases impossible

theorem Call.property {ts rest : List Token} {object : Expr} {name : Token}
    (h : Call ts (.get object name) rest) : ∃ dot, dot.kind = .dot ∧ name.kind = .identifier ∧
      Call ts object (dot :: name :: rest) := by
  obtain ⟨primary, suffixes⟩ := h
  rcases suffixes.result with ⟨rfl, rfl⟩ | ⟨_, _, _, impossible⟩ |
      ⟨_, dot, _, equal, hdot, hname, front⟩
  · cases primary
  · cases impossible
  · injection equal with hobject hname'
    subst hobject hname'
    exact ⟨dot, hdot, hname, .intro primary front⟩

private theorem Suffixes.append_property {dot name : Token} {rest : List Token}
    (hdot : dot.kind = .dot)
    (hname : name.kind = .identifier) : ∀ {e ts object mid}, Suffixes e ts object mid →
      mid = dot :: name :: rest → Suffixes e ts (.get object name) rest
  | _, _, _, _, .done, tokens => tokens ▸ .property hdot hname .done
  | _, _, _, _, .call left args right limit suffixes, tokens =>
    .call left args right limit (suffixes.append_property hdot hname tokens)
  | _, _, _, _, .property hdot' hname' suffixes, tokens =>
    .property hdot' hname' (suffixes.append_property hdot hname tokens)

theorem Call.append_property {ts rest : List Token} {object : Expr} {dot name : Token}
    (h : Call ts object (dot :: name :: rest)) (hdot : dot.kind = .dot)
    (hname : name.kind = .identifier) : Call ts (.get object name) rest := by
  obtain ⟨primary, suffixes⟩ := h
  exact .intro primary (suffixes.append_property hdot hname rfl)

/-- A call stands for an operation of any levels. -/
theorem Call.operation {ts rest : List Token} {e : Expr} (h : Call ts e rest) (tiers : List Tier) :
    Operation tiers ts e rest := by
  induction tiers with
  | nil => exact .unary (.call h)
  | cons tier tighter ih => exact .level ih .done

end Grammar

end LoxLang
