import LoxLang.Proofs.StatementComplete

/-!
To which `if` an `else` belongs.  The grammar does not say, but whatever it derives can also be
derived with every `else` given to the nearest `if`: where an `else` follows a branch that ends
with an open `if`, that `if` takes it, and the statement around is left without.  So the parser
accepts exactly the grammar.
-/

set_option autoImplicit false
set_option relaxedAutoImplicit false

namespace LoxLang

namespace Grammar

private theorem Statement.absorb {elseWord : Token} {us rest : List Token} {other : Stmt}
    {after : Bool}
    (hword : elseWord.kind = .elseWord) (hother : Statement .nearestIf after us other rest) :
    ∀ {dangling ts a mid}, Statement .nearestIf dangling ts a mid → dangling = true →
      mid = elseWord :: us → ∃ dangling' a', Statement .nearestIf dangling' ts a' rest
  | _, _, _, _, .expression _, isOpen, _ | _, _, _, _, .print _ _ _, isOpen, _
  | _, _, _, _, .ret _ _ _, isOpen, _ | _, _, _, _, .block _ _ _, isOpen, _ =>
    absurd isOpen Bool.false_ne_true
  | _, _, _, _, .loop kind left condition right body, isOpen, tokens => by
    obtain ⟨_, _, body⟩ := Statement.absorb hword hother body isOpen tokens
    exact ⟨_, _, .loop kind left condition right body⟩
  | _, _, _, _, .forLoop kind left i c semicolon e right body, isOpen, tokens => by
    obtain ⟨_, _, body⟩ := Statement.absorb hword hother body isOpen tokens
    exact ⟨_, _, .forLoop kind left i c semicolon e right body⟩
  | _, _, _, _, .ifElse kind left condition right body hword' closed second, isOpen, tokens => by
    obtain ⟨_, _, second⟩ := Statement.absorb hword hother second isOpen tokens
    exact ⟨_, _, .ifElse kind left condition right body hword' closed second⟩
  | _, _, _, _, @Statement.ifThen _ inner _ _ _ _ _ _ _ _ kind left condition right body, _,
      tokens => by
    have absorbed := fun isOpen => Statement.absorb hword hother body isOpen tokens
    cases inner with
    | false =>
      subst tokens
      exact ⟨_, _, .ifElse kind left condition right body hword (fun _ => rfl) hother⟩
    | true =>
      obtain ⟨_, _, body⟩ := absorbed rfl
      exact ⟨_, _, .ifThen kind left condition right body⟩

mutual

private theorem Statement.nearest : ∀ {dangling ts a rest}, Statement .anyIf dangling ts a rest →
    ∃ dangling' a', Statement .nearestIf dangling' ts a' rest
  | _, _, _, _, .expression statement => ⟨_, _, .expression statement⟩
  | _, _, _, _, .print kind value semicolon => ⟨_, _, .print kind value semicolon⟩
  | _, _, _, _, .ret kind value semicolon => ⟨_, _, .ret kind value semicolon⟩
  | _, _, _, _, .loop kind left condition right body => by
    obtain ⟨_, _, body⟩ := body.nearest
    exact ⟨_, _, .loop kind left condition right body⟩
  | _, _, _, _, .ifThen kind left condition right body => by
    obtain ⟨_, _, body⟩ := body.nearest
    exact ⟨_, _, .ifThen kind left condition right body⟩
  | _, _, _, _, .ifElse kind left condition right body hword _ second => by
    obtain ⟨before, _, body⟩ := body.nearest
    obtain ⟨_, _, second⟩ := second.nearest
    cases before with
    | false => exact ⟨_, _, .ifElse kind left condition right body hword (fun _ => rfl) second⟩
    | true =>
      obtain ⟨_, _, body⟩ := Statement.absorb hword second body rfl rfl
      exact ⟨_, _, .ifThen kind left condition right body⟩
  | _, _, _, _, .forLoop kind left i c semicolon e right body => by
    obtain ⟨_, _, body⟩ := body.nearest
    exact ⟨_, _, .forLoop kind left i c semicolon e right body⟩
  | _, _, _, _, .block left body right => by
    obtain ⟨_, body⟩ := body.nearest
    exact ⟨_, _, .block left body right⟩

private theorem Declaration.nearest : ∀ {ts a rest}, Declaration .anyIf ts a rest →
    ∃ a', Declaration .nearestIf ts a' rest
  | _, _, _, .classDecl kind name left methods right => by
    obtain ⟨_, methods⟩ := methods.nearest
    exact ⟨_, .classDecl kind name left methods right⟩
  | _, _, _, .subclass kind name less superName left methods right => by
    obtain ⟨_, methods⟩ := methods.nearest
    exact ⟨.classDecl _ (some (.variable 0 _)) _,
      .subclass kind name less superName left methods right⟩
  | _, _, _, .function kind function => by
    obtain ⟨_, function⟩ := function.nearest
    exact ⟨_, .function kind function⟩
  | _, _, _, .var declaration => ⟨_, .var declaration⟩
  | _, _, _, .statement statement => by
    obtain ⟨_, _, statement⟩ := statement.nearest
    exact ⟨_, .statement statement⟩

private theorem Declarations.nearest : ∀ {ts ss rest}, Declarations .anyIf ts ss rest →
    ∃ ss', Declarations .nearestIf ts ss' rest
  | _, _, _, .nil => ⟨_, .nil⟩
  | _, _, _, .cons first others => by
    obtain ⟨_, first⟩ := first.nearest
    obtain ⟨_, others⟩ := others.nearest
    exact ⟨_, .cons first others⟩

private theorem Function.nearest : ∀ {ts decl rest}, Function .anyIf ts decl rest →
    ∃ decl', Function .nearestIf ts decl' rest
  | _, _, _, .intro name left params right limit opening body closing => by
    obtain ⟨_, body⟩ := body.nearest
    exact ⟨.mk 0 _ _ _, .intro name left params right limit opening body closing⟩

private theorem Methods.nearest : ∀ {ts decls rest}, Methods .anyIf ts decls rest →
    ∃ decls', Methods .nearestIf ts decls' rest
  | _, _, _, .nil => ⟨_, .nil⟩
  | _, _, _, .cons first others => by
    obtain ⟨_, first⟩ := first.nearest
    obtain ⟨_, others⟩ := others.nearest
    exact ⟨_, .cons first others⟩

end

mutual

private theorem Statement.any : ∀ {dangling ts a rest}, Statement .nearestIf dangling ts a rest →
    Statement .anyIf dangling ts a rest
  | _, _, _, _, .expression statement => .expression statement
  | _, _, _, _, .print kind value semicolon => .print kind value semicolon
  | _, _, _, _, .ret kind value semicolon => .ret kind value semicolon
  | _, _, _, _, .loop kind left condition right body =>
    .loop kind left condition right body.any
  | _, _, _, _, .ifThen kind left condition right body =>
    .ifThen kind left condition right body.any
  | _, _, _, _, .ifElse kind left condition right body hword _ second =>
    .ifElse kind left condition right body.any hword nofun second.any
  | _, _, _, _, .forLoop kind left i c semicolon e right body =>
    .forLoop kind left i c semicolon e right body.any
  | _, _, _, _, .block left body right => .block left body.any right

private theorem Declaration.any : ∀ {ts a rest}, Declaration .nearestIf ts a rest →
    Declaration .anyIf ts a rest
  | _, _, _, .classDecl kind name left methods right =>
    .classDecl kind name left methods.any right
  | _, _, _, .subclass kind name less superName left methods right =>
    .subclass kind name less superName left methods.any right
  | _, _, _, .function kind function => .function kind function.any
  | _, _, _, .var declaration => .var declaration
  | _, _, _, .statement statement => .statement statement.any

private theorem Declarations.any : ∀ {ts ss rest}, Declarations .nearestIf ts ss rest →
    Declarations .anyIf ts ss rest
  | _, _, _, .nil => .nil
  | _, _, _, .cons first others => .cons first.any others.any

private theorem Function.any : ∀ {ts decl rest}, Function .nearestIf ts decl rest →
    Function .anyIf ts decl rest
  | _, _, _, .intro name left params right limit opening body closing =>
    .intro name left params right limit opening body.any closing

private theorem Methods.any : ∀ {ts decls rest}, Methods .nearestIf ts decls rest →
    Methods .anyIf ts decls rest
  | _, _, _, .nil => .nil
  | _, _, _, .cons first others => .cons first.any others.any

end

private theorem program_nearest_iff {tokens : List Token} :
    (∃ tree, Program .anyIf tokens tree) ↔ ∃ tree, Program .nearestIf tokens tree :=
  ⟨fun ⟨_, derivation⟩ => Declarations.nearest derivation,
    fun ⟨tree, derivation⟩ => ⟨tree, Declarations.any derivation⟩⟩

end Grammar

/-- The parser accepts exactly the grammar and builds the tree that the grammar gives, up to the
numbers, with each `else` at the nearest `if`; and so for a single expression. -/
theorem parse_ok_iff_grammar (labels : Labels) (tokens : List Token) (lastLine : Nat) :
    ((∃ program, (parseProgram labels tokens lastLine).result = .ok program) ↔
      ∃ tree, Grammar.Program .anyIf tokens tree) ∧
    (∀ program, (parseProgram labels tokens lastLine).result = .ok program →
      Grammar.Program .nearestIf tokens program ∧
        ∀ tree, Grammar.Program .nearestIf tokens tree →
          erased tree = erased program) ∧
    ((∃ e, (parseExpression labels tokens lastLine).result = .ok e) ↔
      ∃ tree, Grammar.Expression tokens tree []) ∧
    (∀ e, (parseExpression labels tokens lastLine).result = .ok e →
      Grammar.Expression tokens e [] ∧
        ∀ tree, Grammar.Expression tokens tree [] → erased tree = erased e) := by
  refine ⟨?_, ?_, ?_, ?_⟩
  · rw [Grammar.program_nearest_iff]
    constructor
    · rintro ⟨program, h⟩
      exact ⟨program, (parseProgram_sound h).1⟩
    · rintro ⟨tree, derivation⟩
      obtain ⟨program, h, _⟩ := parseProgram_complete derivation labels lastLine
      exact ⟨program, h⟩
  · intro program h
    refine ⟨(parseProgram_sound h).1, fun tree derivation => ?_⟩
    obtain ⟨program', h', same⟩ := parseProgram_complete derivation labels lastLine
    rw [h] at h'
    obtain rfl := Except.ok.inj h'
    exact same.symm
  · constructor
    · rintro ⟨e, h⟩
      exact ⟨e, (parseExpression_sound h).1⟩
    · rintro ⟨tree, derivation⟩
      obtain ⟨e, h, _⟩ := parseExpression_complete derivation labels lastLine
      exact ⟨e, h⟩
  · intro e h
    refine ⟨(parseExpression_sound h).1, fun tree derivation => ?_⟩
    obtain ⟨e', h', same⟩ := parseExpression_complete derivation labels lastLine
    rw [h] at h'
    obtain rfl := Except.ok.inj h'
    exact same.symm

end LoxLang
