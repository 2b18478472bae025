import LoxLang.Proofs.ParserPlaces
import LoxLang.Proofs.ParserShift
import LoxLang.Proofs.StatementComplete

/-!
Recovery from errors.  A statement without a block that goes wrong is left behind its own semicolon,
whatever is wrong with it, and a declaration that goes well ends before what follows it.  So texts
of such declarations in a row have the errors of each alone, and without errors the statements of
each.
-/

set_option autoImplicit false
set_option relaxedAutoImplicit false

namespace LoxLang

namespace Parse

variable {α β : Type} {front : List Token} {last : Token} {n b b' d : Nat}

def StopsBehind (front : List Token) (last : Token) : Except SyntaxError α × ParseState → Prop
  | (.ok _, s) => s.ahead = []
  | (.error _, s) => ∃ rest, s.ahead = rest ++ [last] ∧ rest <:+ front

def EndsBehind (front : List Token) (last : Token) (n : Nat) (rule rule' : ParseM α) : Prop :=
  ∀ s : ParseState, s.ahead = front ++ [last] → StopsBehind front last (outcome rule s) ∧
    ∀ q : Surrounding, s.ahead.length < n →
      outcome rule' (q.around s) = ((outcome rule s).1, q.around (outcome rule s).2)

private theorem TakesFrom.before_semicolon {count : Nat} {rest : List Token}
    (taken : TakesFrom Inner count (front ++ [last]) rest) (closes : last.kind = .semicolon) :
    ∃ rest', rest = rest' ++ [last] ∧ rest' <:+ front := by
  obtain ⟨taken, split, inner, _⟩ := taken
  rcases List.append_eq_append_iff.mp split with ⟨more, rfl, ends⟩ | ⟨more, rfl, ends⟩
  · cases more with
    | nil => exact ⟨[], ends.symm, List.nil_suffix⟩
    | cons t ts =>
      obtain ⟨rfl, _⟩ := List.cons.inj ends
      exact absurd closes (inner last (by simp))
  · exact ⟨more, ends, List.suffix_append _ _⟩

private theorem outcome_expect_some {kind : Kind} {expected : Expected} {s : ParseState} {t : Token}
    {ts : List Token} (ahead : s.ahead = t :: ts) (is : t.kind = kind) :
    outcome (expect kind expected) s = (.ok t, { s with ahead := ts }) :=
  outcome_choice_some ahead (List.mem_singleton.mpr is)

private theorem outcome_expect_other {kind : Kind} {expected : Expected} {s : ParseState}
    {t : Token} {ts : List Token} (ahead : s.ahead = t :: ts) (other : t.kind ≠ kind) :
    outcome (expect kind expected) s = (.error ⟨t, .missing expected⟩, s) := by
  have none : ∀ u ∈ s.ahead.head?, u.kind ∉ [kind] := by
    rw [ahead]
    rintro u ⟨⟩
    exact fun member => other (List.mem_singleton.mp member)
  rw [expect, accept, outcome_choice_none none, outcome_fail, ahead]
  rfl

namespace EndsBehind

private theorem semicolon {rule rule' : ParseM α} (h : Proceeds Inner n d rule rule')
    (expected : Expected)
    (f : α → β) (inner : ∀ t ∈ front, Inner t.kind) (closes : last.kind = .semicolon) :
    EndsBehind front last n (rule >>= fun a => expect .semicolon expected >>= fun _ => pure (f a))
      (rule' >>= fun a => expect .semicolon expected >>= fun _ => pure (f a)) := by
  intro s ahead
  obtain ⟨takes, _, _, same⟩ := h s
  rw [ahead] at takes
  obtain ⟨rest, left, suffix⟩ := takes.before_semicolon closes
  have some : (outcome rule s).2.ahead ≠ [] := by simp [left]
  have same q few := same q few (.inl some)
  rcases run : outcome rule s with ⟨e | a, s'⟩
  case error =>
    rw [run] at left same
    rw [outcome_bind, run]
    refine ⟨⟨rest, left, suffix⟩, fun q few => ?_⟩
    rw [outcome_bind, same q few]
  case ok =>
    rw [run] at left same
    dsimp only at left
    rw [outcome_bind, run]
    cases rest with
    | nil =>
      rw [List.nil_append] at left
      dsimp only
      rw [outcome_bind, outcome_expect_some left closes]
      refine ⟨rfl, fun q few => ?_⟩
      rw [outcome_bind, same q few]
      dsimp only
      rw [outcome_bind, outcome_expect_some (q.ahead_around left) closes]
      rfl
    | cons t ts =>
      have other : t.kind ≠ .semicolon := inner t (suffix.subset List.mem_cons_self)
      rw [List.cons_append] at left
      dsimp only
      rw [outcome_bind, outcome_expect_other left other]
      refine ⟨⟨t :: ts, left, suffix⟩, fun q few => ?_⟩
      rw [outcome_bind, same q few]
      dsimp only
      rw [outcome_bind, outcome_expect_other (q.ahead_around left) other]

private theorem behind {taken : List Kind} {next next' : Option Token → ParseM β} {t : Token}
    (member : t.kind ∈ taken) (h : EndsBehind front last (n - 1) (next (some t)) (next' (some t))) :
    EndsBehind (t :: front) last n (acceptAny taken >>= next) (acceptAny taken >>= next') := by
  intro s ahead
  rw [outcome_choice_some ahead member]
  obtain ⟨stops, same⟩ := h { s with ahead := front ++ [last] } rfl
  constructor
  · rcases run : outcome (next (some t)) { s with ahead := front ++ [last] } with ⟨e | b, s'⟩
    · rw [run] at stops
      obtain ⟨rest, left, suffix⟩ := stops
      exact ⟨rest, left, suffix.trans (List.suffix_cons t front)⟩
    · rw [run] at stops
      exact stops
  · intro q few
    rw [outcome_choice_some (q.ahead_around ahead) member]
    have fewer : (front ++ [last]).length < n - 1 := by
      rw [ahead] at few
      exact Nat.lt_sub_of_add_lt few
    simpa [Surrounding.around] using same q fewer

private theorem without {taken : List Kind} {next next' : Option Token → ParseM β}
    (other : ∀ t ∈ (front ++ [last]).head?, t.kind ∉ taken)
    (h : EndsBehind front last n (next none) (next' none)) :
    EndsBehind front last n (acceptAny taken >>= next) (acceptAny taken >>= next') := by
  intro s ahead
  rw [← ahead] at other
  rw [outcome_choice_none other]
  refine ⟨(h s ahead).1, fun q few => ?_⟩
  have hidden : q.Hidden s := .inl (by simp [ahead])
  rw [outcome_choice_none (by rwa [hidden.head?])]
  exact (h s ahead).2 q few

end EndsBehind

private theorem skipFrom_semicolon {t : Token} (other : t.kind ≠ .semicolon)
    (inner : ∀ u ∈ front, u.kind ≠ .semicolon ∧ u.kind ∉ restarts)
    (closes : last.kind = .semicolon) (more : List Token) :
    skipFrom t (front ++ last :: more) = more := by
  induction front generalizing t with
  | nil =>
    have apart : last.kind ∉ restarts := by rw [closes]; decide
    rw [List.nil_append, skipFrom, if_neg other, if_neg apart]
    cases more with
    | nil => rfl
    | cons u us => rw [skipFrom, if_pos closes]
  | cons u us ih =>
    obtain ⟨same, apart⟩ := inner u List.mem_cons_self
    rw [List.cons_append, skipFrom, if_neg other, if_neg apart]
    exact ih same fun v hv => inner v (List.mem_cons_of_mem u hv)

private theorem skipToBoundary_semicolon (inner : ∀ t ∈ front, t.kind ≠ .semicolon)
    (begins : ∀ t ∈ front.tail, t.kind ∉ restarts) (closes : last.kind = .semicolon)
    (more : List Token) : skipToBoundary (front ++ last :: more) = more := by
  cases front with
  | nil =>
    cases more with
    | nil => rfl
    | cons t ts => rw [List.nil_append, skipToBoundary, skipFrom, if_pos closes]
  | cons t ts =>
    exact skipFrom_semicolon (inner t List.mem_cons_self)
      (fun u hu => ⟨inner u (List.mem_cons_of_mem t hu), begins u hu⟩) closes more

structure PlainFront (front : List Token) : Prop where
  within : ∀ t ∈ front, t.kind ∉ [.semicolon, .leftBrace, .classWord, .funWord, .forWord, .ifWord,
    .whileWord]
  begins : ∀ t ∈ front.tail, t.kind ∉ [.varWord, .printWord, .returnWord]

namespace PlainFront

private theorem inner (h : PlainFront front) : ∀ t ∈ front, t.kind ≠ .semicolon :=
  fun t ht same => h.within t ht (by rw [same]; decide)

private theorem restarts (h : PlainFront front) {rest : List Token} (suffix : rest <:+ front) :
    ∀ t ∈ rest.tail, t.kind ∉ restarts := by
  intro t ht member
  obtain ⟨before, rfl⟩ := suffix
  have inTail : t ∈ (before ++ rest).tail := by
    cases before with
    | nil => exact ht
    | cons u us => exact List.mem_append_right us (List.mem_of_mem_tail ht)
  have within := h.within t (List.mem_append_right before (List.mem_of_mem_tail ht))
  have begins := h.begins t inTail
  revert member within begins
  generalize t.kind = kind
  cases kind <;> decide

end PlainFront

section Statements

variable (inner : ∀ t ∈ front, t.kind ≠ .semicolon) (closes : last.kind = .semicolon) (wide : b ≤ b')

include inner closes wide

private theorem expressionStatement_ends :
    EndsBehind front last (b + 1) (expressionStatement b) (expressionStatement b') :=
  .semicolon (proceeds_expression wide) _ _ inner closes

private theorem printStatement_ends :
    EndsBehind front last (b + 1) (printStatement b) (printStatement b') :=
  .semicolon (proceeds_expression wide) _ _ inner closes

private theorem returnStatement_ends (keyword : Token) :
    EndsBehind front last (b + 1) (returnStatement keyword b) (returnStatement keyword b') :=
  .semicolon (proceeds_optionalExpression wide _) _ _ inner closes

private theorem varDeclaration_ends :
    EndsBehind front last (b + 1) (varDeclaration b) (varDeclaration b') := by
  have paired (b : Nat) : varDeclaration b = (do
      let name ← expect .identifier .variableName
      let i ← initializer b
      pure (name, i)) >>= fun parts =>
        expect .semicolon .variableEnd >>= fun _ => pure (Stmt.var parts.1 parts.2) := by
    rw [varDeclaration_eq]
    simp only [bind_assoc, pure_bind]
  rw [paired, paired]
  have named : Proceeds Inner (b + 1) 1 (expect .identifier .variableName)
      (expect .identifier .variableName) := .expect (by unfold Inner; decide) _
  have parts := named.andThen fun name => (proceeds_initializer wide).andThen fun i =>
    Proceeds.pure (name, i)
  exact .semicolon parts _ _ inner closes

end Statements

private theorem declarationWith_ends {nested nested' : ParseM Stmt}
    {body body' : ParseM (List Stmt)}
    (h : PlainFront front) (closes : last.kind = .semicolon) (wide : b ≤ b') :
    EndsBehind front last (b + 2) (declarationWith nested body b)
      (declarationWith nested' body' b') := by
  cases front with
  | nil =>
    have other : ∀ taken : List Kind, .semicolon ∉ taken →
        ∀ t ∈ ([] ++ [last]).head?, t.kind ∉ taken := by
      rintro taken none t ⟨⟩
      rwa [closes]
    exact .without (other _ (by decide)) (.without (other _ (by decide))
      (expressionStatement_ends nofun closes (Nat.succ_le_succ wide)))
  | cons t ts =>
    have inner : ∀ u ∈ ts, u.kind ≠ .semicolon := fun u hu => h.inner u (List.mem_cons_of_mem t hu)
    have first := h.within t List.mem_cons_self
    by_cases isVar : t.kind = .varWord
    · refine .behind (by simp [isVar]) ?_
      simp only [isVar]
      exact varDeclaration_ends inner closes wide
    by_cases isPrint : t.kind = .printWord
    · refine .without ?_ (.behind (by simp [isPrint]) ?_)
      · rintro u ⟨⟩
        simp [isPrint]
      · simp only [isPrint]
        exact printStatement_ends inner closes wide
    by_cases isReturn : t.kind = .returnWord
    · refine .without ?_ (.behind (by simp [isReturn]) ?_)
      · rintro u ⟨⟩
        simp [isReturn]
      · simp only [isReturn]
        exact returnStatement_ends inner closes wide t
    · refine .without ?_ (.without ?_
        (expressionStatement_ends h.inner closes (Nat.succ_le_succ wide)))
      · rintro u ⟨⟩
        simp_all
      · rintro u ⟨⟩
        simp_all

private theorem EndsBehind.recovering {rule rule' : ParseM Stmt}
    (h : EndsBehind front last n rule rule')
    (plain : PlainFront front) (closes : last.kind = .semicolon) {s : ParseState}
    (ahead : s.ahead = front ++ [last]) (few : s.ahead.length < n) :
    ∃ r s', outcome (recovering rule) s = (.ok r, s') ∧ s'.ahead = [] ∧ ∀ q : Surrounding,
      outcome (recovering rule') (q.around s) = (.ok r, q.around s') := by
  obtain ⟨stops, same⟩ := h s ahead
  rcases run : outcome rule s with ⟨e | a, s'⟩ <;> rw [run] at stops same
  case ok =>
    refine ⟨some a, s', by rw [outcome_recovering, run], stops, fun q => ?_⟩
    rw [outcome_recovering, same q few]
  case error =>
    obtain ⟨rest, left, suffix⟩ := stops
    have skipped (more : List Token) : skipToBoundary (rest ++ last :: more) = more :=
      skipToBoundary_semicolon (fun t ht => plain.inner t (suffix.subset ht))
        (plain.restarts suffix) closes more
    refine ⟨none, { s' with errors := s'.errors ++ [e], ahead := [] }, ?_, rfl, fun q => ?_⟩
    · rw [outcome_recovering, run]
      dsimp only
      rw [left, skipped []]
    · rw [outcome_recovering, same q few]
      simp [Surrounding.around, left, skipped]

private theorem declaration_ends (plain : PlainFront front) (closes : last.kind = .semicolon)
    (wide : b ≤ b') {s : ParseState} (ahead : s.ahead = front ++ [last])
    (few : s.ahead.length ≤ b) :
    ∃ r s', outcome (declaration b) s = (.ok r, s') ∧ s'.ahead = [] ∧ ∀ q : Surrounding,
      outcome (declaration b') (q.around s) = (.ok r, q.around s') := by
  have some : 0 < s.ahead.length := by simp [ahead]
  obtain ⟨b, rfl⟩ := Nat.exists_eq_add_one_of_ne_zero (Nat.ne_of_gt (Nat.lt_of_lt_of_le some few))
  obtain ⟨b', rfl⟩ := Nat.exists_eq_add_one_of_ne_zero (Nat.ne_of_gt (Nat.zero_lt_of_lt wide))
  rw [declaration, declaration]
  exact (declarationWith_ends plain closes (Nat.le_of_succ_le_succ wide)).recovering plain closes
    ahead (Nat.lt_succ_of_le few)

structure ReadsAs (text : List Token) (errors : List SyntaxError) (tree : List Stmt) : Prop where
  some : text ≠ []
  reads : ∀ (more : List Token) (bound : Nat) (s : ParseState), s.ahead = text ++ more →
    s.ahead.length ≤ bound → (∀ t ∈ more.head?, t.kind ≠ .elseWord) →
    ∃ r s', outcome (declaration bound) s = (.ok r, s') ∧ s'.ahead = more ∧
      s'.errors = s.errors ++ errors ∧ (errors = [] → erased r.toList = tree)

private theorem readsAs_declaration {labels : Labels} {text : List Token} {lastLine : Nat}
    {tree : Stmt} (parsed : (parseProgram labels text lastLine).result = .ok [tree]) :
    ReadsAs text [] (erased [tree]) := by
  have derivation : Grammar.Declarations .nearestIf text [tree] [] := (parseProgram_sound parsed).1
  cases derivation with
  | cons first others =>
    cases others
    refine ⟨fun none => ?_, fun more bound s ahead few apart => ?_⟩
    · have some := first.behind.2
      rw [none] at some
      exact Nat.not_lt_zero _ some
    · obtain ⟨_, s', run, ⟨a, rfl, same⟩, ended, clean⟩ :=
        (completes_statement_declaration text.length).2 first nofun (Nat.le_refl _)
          (s := { s with ahead := text }) rfl
      let q : Sequel := ⟨0, more, s.lastLine⟩
      have before : q.before { s with ahead := text } = s := by
        simp [q, Sequel.before, Token.later_zero_eq_id, ← ahead]
      have wide : text.length ≤ bound := by
        rw [ahead, List.length_append] at few
        exact Nat.le_trans (Nat.le_add_right _ _) few
      have carried := (carries_statement_declaration (q := q) apart wide).2.result run clean
        (Nat.le_refl _) trivial
      rw [before] at carried
      refine ⟨_, _, carried, ?_, ?_, fun _ => ?_⟩
      · simp [q, Sequel.before, ended]
      · simpa [q, Sequel.before] using clean
      · show [erased ((a : Stmt).later 0)] = [erased tree]
        rw [Stmt.later_zero, show erased a = erased tree from same]

private theorem readsAs_plain (plain : PlainFront front) (closes : last.kind = .semicolon) :
    ∃ errors tree, ReadsAs (front ++ [last]) errors tree := by
  generalize htext : front ++ [last] = text
  have nonempty : text ≠ [] := by simp [← htext]
  let base := start ⟨0, 0⟩ text 0
  obtain ⟨r, s', run, ended, -⟩ := declaration_ends plain closes (Nat.le_refl text.length)
    (s := base) htext.symm (Nat.le_refl _)
  by_cases clean : s'.errors = []
  · -- Without an error it is a declaration like others.
    obtain ⟨a, rfl, _⟩ := (yields_statement_declaration text.length).2.result run clean
    obtain ⟨t, ts, rfl⟩ := List.exists_cons_of_ne_nil nonempty
    have parsed := parseProgram_single run ended clean
    exact ⟨[], _, readsAs_declaration (congrArg Parsed.result parsed)⟩
  refine ⟨s'.errors, [], nonempty, fun more bound s ahead few _ => ?_⟩
  have uniform := (uniform_statement_declaration (q := ⟨s.labels, id⟩) text.length).2 base
  have renumbered : changeState ⟨s.labels, id⟩ base = { base with labels := s.labels } := by
    simp [base, start, changeState, Labels.plus, Token.reline_id_eq_id]
  have wide : text.length ≤ bound := by
    rw [ahead, List.length_append] at few
    exact Nat.le_trans (Nat.le_add_right _ _) few
  obtain ⟨r', t', run', ended', before⟩ := declaration_ends plain closes wide
    (s := { base with labels := s.labels }) htext.symm (Nat.le_refl _)
  have errors : t'.errors = s'.errors := by
    rw [renumbered, run', run] at uniform
    rw [(Prod.mk.inj uniform).2]
    exact List.map_id _
  let q : Surrounding := ⟨s.errors, more, s.lastLine⟩
  have around : q.around { base with labels := s.labels } = s := by
    simp [q, base, start, Surrounding.around, ← ahead]
  refine ⟨r', q.around t', around ▸ before q, ?_, ?_, fun none => absurd none clean⟩
  · simp [q, Surrounding.around, ended']
  · simp [q, Surrounding.around, errors]

private theorem erased_append (ss ss' : List Stmt) : erased (ss ++ ss') = erased ss ++ erased ss' :=
  by
  induction ss with
  | nil => rfl
  | cons s ss ih => exact congrArg (erased s :: ·) ih

private theorem head?_flatten {texts : List (List Token)} (some : ∀ text ∈ texts, text ≠ []) :
    texts.flatten.head? = texts.head?.bind List.head? := by
  cases texts with
  | nil => rfl
  | cons text others =>
    obtain ⟨t, ts, rfl⟩ := List.exists_cons_of_ne_nil (some text List.mem_cons_self)
    rfl

private theorem declarationsFrom_flatten {texts : List (List Token)}
    {errors : List Token → List SyntaxError}
    {trees : List Token → List Stmt} (apart : ∀ text ∈ texts, ∀ t ∈ text.head?, t.kind ≠ .elseWord)
    (reads : ∀ text ∈ texts, ReadsAs text (errors text) (trees text)) {bound c : Nat}
    {s : ParseState} (ahead : s.ahead = texts.flatten) (few : s.ahead.length ≤ bound)
    (few' : s.ahead.length ≤ c) :
    ∃ program s', outcome (declarationsFrom (declaration bound) false c) s = (.ok program, s') ∧
      s'.errors = s.errors ++ texts.flatMap errors ∧
      (texts.flatMap errors = [] → erased program = texts.flatMap trees) := by
  induction texts generalizing s c with
  | nil => exact ⟨[], s, outcome_declarationsFrom_end ahead c, by simp, fun _ => rfl⟩
  | cons text others ih =>
    have behind (text') (member : text' ∈ others) := List.mem_cons_of_mem text member
    have next : ∀ t ∈ others.flatten.head?, t.kind ≠ .elseWord := by
      rw [head?_flatten fun text' member => (reads text' (behind text' member)).some]
      intro t ht
      obtain ⟨text', head, first⟩ := Option.bind_eq_some_iff.mp ht
      exact apart text' (behind text' (List.mem_of_mem_head? head)) t first
    obtain ⟨nonempty, first⟩ := reads text List.mem_cons_self
    obtain ⟨r, s₁, run₁, ahead₁, errors₁, tree₁⟩ := first others.flatten bound s ahead few next
    have some : s.ahead ≠ [] := by
      rw [ahead]
      exact List.append_ne_nil_of_left_ne_nil nonempty _
    have fewer : s₁.ahead.length + 1 ≤ s.ahead.length := by
      have := List.length_pos_iff.mpr nonempty
      rw [ahead, ahead₁, List.flatten_cons, List.length_append]
      omega
    obtain ⟨c, rfl⟩ : ∃ c₀, c = c₀ + 1 := ⟨c - 1, by omega⟩
    obtain ⟨program, s', run', errors', tree'⟩ := ih
      (fun text' member => apart text' (behind text' member))
      (fun text' member => reads text' (behind text' member)) ahead₁ (by omega) (c := c) (by omega)
    refine ⟨r.toList ++ program, s', ?_, ?_, fun clean => ?_⟩
    · rw [outcome_declarationsFrom, if_neg some, outcome_bind, run₁]
      dsimp only
      rw [outcome_bind, run']
      rfl
    · rw [errors', errors₁, List.flatMap_cons, List.append_assoc]
    · rw [List.flatMap_cons, List.append_eq_nil_iff] at clean
      rw [erased_append, tree₁ clean.1, tree' clean.2, List.flatMap_cons]

end Parse

open Parse

/-- The errors of a parse. -/
def Parsed.errors {ε α : Type} (p : Parsed (List ε) α) : List ε :=
  match p.result with
  | .ok _ => []
  | .error errors => errors

private theorem parseProgram_errors {labels : Labels} {tokens : List Token} {lastLine : Nat}
    {program : List Stmt} {s : ParseState}
    (run : outcome (declarationsFrom (declaration tokens.length) false tokens.length)
      (start labels tokens lastLine) = (.ok program, s)) :
    (parseProgram labels tokens lastLine).errors = s.errors ∧
      (s.errors = [] → (parseProgram labels tokens lastLine).result = .ok program) := by
  have whole : runRule (declarationsFrom (declaration tokens.length) false tokens.length) labels
    tokens lastLine = (.ok program, s) := run
  cases noted : s.errors with
  | nil =>
    have result : (parseProgram labels tokens lastLine).result = .ok program := by
      simp only [parseProgram, whole, noted]
    exact ⟨by rw [Parsed.errors, result], fun _ => result⟩
  | cons e es =>
    have result : (parseProgram labels tokens lastLine).result = .error (e :: es) := by
      simp only [parseProgram, whole, noted]
    exact ⟨by rw [Parsed.errors, result], fun none => absurd none (List.cons_ne_nil e es)⟩

/-- A text of one declaration without errors. -/
def OneDeclaration (text : List Token) : Prop :=
  ∃ labels lastLine tree, (parseProgram labels text lastLine).result = .ok [tree]

private theorem OneDeclaration.of_length {labels : Labels} {text : List Token} {lastLine : Nat}
    (parsed : (parseProgram labels text lastLine).result.toOption.map List.length = some 1) :
    OneDeclaration text := by
  obtain ⟨program, result, length⟩ := Option.map_eq_some_iff.mp parsed
  obtain ⟨tree, rfl⟩ := List.length_eq_one_iff.mp length
  refine ⟨labels, lastLine, tree, ?_⟩
  cases h : (parseProgram labels text lastLine).result with
  | error _ =>
    rw [h] at result
    cases result
  | ok _ =>
    rw [h] at result
    exact congrArg Except.ok (Option.some.inj result)

/-- A text of any tokens as they stand before the semicolon of a statement without a block, and of
that semicolon. -/
def PlainText (text : List Token) : Prop :=
  ∃ front last, text = front ++ [last] ∧ last.kind = .semicolon ∧ PlainFront front

private theorem programs_of_each {ε : Type} {texts : List (List Token)}
    {parse : List Token → Except ε (List Stmt)} {trees : List Token → List Stmt}
    (each : ∀ text ∈ texts, ∃ program, parse text = .ok program ∧ erased program = trees text) :
    ∃ programs : List (List Stmt), texts.map parse = programs.map .ok ∧
      erased programs.flatten = texts.flatMap trees := by
  induction texts with
  | nil => exact ⟨[], rfl, rfl⟩
  | cons text others ih =>
    obtain ⟨program, parsed, same⟩ := each text List.mem_cons_self
    obtain ⟨programs, parsed', same'⟩ := ih fun text' member =>
      each text' (List.mem_cons_of_mem text member)
    refine ⟨program :: programs, ?_, ?_⟩
    · rw [List.map_cons, List.map_cons, parsed, parsed']
    · rw [List.flatten_cons, erased_append, same, same', List.flatMap_cons]

/-- Recovery hides no error and invents none: texts in a row, each of them one declaration without
errors or a statement without a block with any, have the errors of each of them alone, and if there
are none, the statements of each. -/
theorem errors_of_each {texts : List (List Token)}
    (apart : ∀ text ∈ texts, ∀ t ∈ text.head?, t.kind ≠ .elseWord)
    (each : ∀ text ∈ texts, OneDeclaration text ∨ PlainText text)
    (labels alone : Labels) (lastLine line : Nat) :
    ((parseProgram labels texts.flatten lastLine).errors =
      texts.flatMap fun text => (parseProgram alone text line).errors) ∧
    ((parseProgram labels texts.flatten lastLine).errors = [] →
      ∃ (program : List Stmt) (programs : List (List Stmt)),
      (parseProgram labels texts.flatten lastLine).result = .ok program ∧
      texts.map (fun text => (parseProgram alone text line).result) = programs.map .ok ∧
      erased program = erased programs.flatten) := by
  have known : ∀ text, ∃ read : List SyntaxError × List Stmt, text ∈ texts →
      ReadsAs text read.1 read.2 := by
    intro text
    by_cases member : text ∈ texts
    · rcases each text member with ⟨_, _, tree, parsed⟩ | ⟨front, last, rfl, closes, plain⟩
      · exact ⟨(_, _), fun _ => readsAs_declaration parsed⟩
      · obtain ⟨errors, tree, reads⟩ := readsAs_plain plain closes
        exact ⟨(errors, tree), fun _ => reads⟩
    · exact ⟨([], []), fun h => absurd h member⟩
  obtain ⟨read, reads⟩ := Classical.axiomOfChoice known
  have parsed : ∀ some ⊆ texts, ∀ labels lastLine, ∃ program,
      (parseProgram labels some.flatten lastLine).errors = some.flatMap (fun text => (read text).1) ∧
      ((parseProgram labels some.flatten lastLine).errors = [] →
        (parseProgram labels some.flatten lastLine).result = .ok program ∧
        erased program = some.flatMap fun text => (read text).2) := by
    intro some among labels lastLine
    obtain ⟨program, s, run, errors, tree⟩ := declarationsFrom_flatten
      (fun text member => apart text (among member)) (fun text member => reads text (among member))
      (s := start labels some.flatten lastLine) rfl (Nat.le_refl _) (Nat.le_refl _)
    obtain ⟨same, result⟩ := parseProgram_errors run
    rw [start, List.nil_append] at errors
    exact ⟨program, same.trans errors, fun none =>
      ⟨result (same ▸ none), tree (errors ▸ same ▸ none)⟩⟩
  have single : ∀ text ∈ texts, ∃ program,
      (parseProgram alone text line).errors = (read text).1 ∧
      ((parseProgram alone text line).errors = [] →
        (parseProgram alone text line).result = .ok program ∧ erased program = (read text).2) := by
    intro text member
    have one := parsed [text] (List.cons_subset.mpr ⟨member, List.nil_subset _⟩) alone line
    simpa using one
  obtain ⟨program, errors, result⟩ := parsed texts (List.Subset.refl _) labels lastLine
  have errors' : (parseProgram labels texts.flatten lastLine).errors =
      texts.flatMap fun text => (parseProgram alone text line).errors := by
    rw [errors, List.flatMap_def, List.flatMap_def]
    refine congrArg List.flatten (List.map_congr_left fun text member => ?_)
    obtain ⟨_, same, _⟩ := single text member
    exact same.symm
  refine ⟨errors', fun none => ?_⟩
  have clean : ∀ text ∈ texts, (parseProgram alone text line).errors = [] := by
    rw [errors'] at none
    exact List.flatMap_eq_nil_iff.mp none
  obtain ⟨programs, parsed, same⟩ := programs_of_each fun text member => by
    obtain ⟨program, _, result⟩ := single text member
    exact ⟨program, result (clean text member)⟩
  obtain ⟨result, tree⟩ := result none
  exact ⟨program, programs, result, parsed, tree.trans same.symm⟩

/-- Two statements that go wrong among declarations and statements that do not, the first of them
with two errors. -/
theorem errors_between_declarations :
    let text (kinds : List Kind) : List Token := kinds.map (⟨·, "x", 1⟩)
    let function := text [.funWord, .identifier, .leftParen, .rightParen, .leftBrace, .rightBrace]
    let assignment := text [.identifier, .plus, .identifier, .equal, .identifier, .identifier,
      .semicolon]
    let branch := text [.ifWord, .leftParen, .identifier, .rightParen, .printWord, .identifier,
      .semicolon]
    let declaration := text [.varWord, .rightBrace, .semicolon]
    let texts := [function, assignment, branch, declaration]
    (parseProgram ⟨0, 0⟩ texts.flatten 1).errors =
        texts.flatMap (fun text => (parseProgram ⟨3, 4⟩ text 7).errors) ∧
      (parseProgram ⟨0, 0⟩ texts.flatten 1).errors.map SyntaxError.fault =
        [.invalidAssignmentTarget, .missing .expressionEnd, .missing .variableName] := by
  intro text function assignment branch declaration texts
  have apart : ∀ text ∈ texts, ∀ t ∈ text.head?, t.kind ≠ .elseWord := by
    simp [texts, function, assignment, branch, declaration, text]
  have one {text : List Token}
      (parsed : (parseProgram ⟨0, 0⟩ text 1).result.toOption.map List.length = some 1) :
      OneDeclaration text := .of_length parsed
  have each : ∀ text ∈ texts, OneDeclaration text ∨ PlainText text := by
    simp only [texts, List.mem_cons, List.not_mem_nil, or_false, forall_eq_or_imp, forall_eq]
    refine ⟨.inl (one (by decide +kernel)), .inr ⟨assignment.dropLast, _, rfl, rfl, ?_⟩,
      .inl (one (by decide +kernel)), .inr ⟨declaration.dropLast, _, rfl, rfl, ?_⟩⟩
    · exact ⟨by decide, by decide⟩
    · exact ⟨by decide, by decide⟩
  exact ⟨(errors_of_each apart each ⟨0, 0⟩ ⟨3, 4⟩ 1 7).1, by decide +kernel⟩

end LoxLang
