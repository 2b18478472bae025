import LoxLang.Proofs.LexicalGrammar
import LoxLang.Proofs.RelinedTrees

/-!
Texts laid out anew: the lexemes of a text, joined by blanks and comments.  Each lexeme is munched
to its end before a blank, and no blank and no comment makes a token, so the new text has the tokens
of the old one, on other lines.
-/

set_option autoImplicit false
set_option relaxedAutoImplicit false

namespace LoxLang

open Scan Lexical

inductive Gap : List Char → Prop where
  | none : Gap []
  | blank {b : Char} {cs : List Char} : b ∈ blanks → Gap cs → Gap (b :: cs)
  | comment {inside cs : List Char} : '\n' ∉ inside → Gap cs →
      Gap ('/' :: '/' :: (inside ++ '\n' :: cs))

/-- Lexemes joined to a text, with a gap that begins with a blank between any two of them. -/
inductive Joined : List String → List Char → Prop where
  | none : Joined [] []
  | one (lexeme : String) : Joined [lexeme] lexeme.toList
  | more {lexeme next : String} {lexemes : List String} {b : Char} {gap cs : List Char} :
      b ∈ blanks → Gap gap → Joined (next :: lexemes) cs →
      Joined (lexeme :: next :: lexemes) (lexeme.toList ++ b :: (gap ++ cs))

namespace Lexical

private theorem Lexeme.munch_eq {text rest : List Char} {kind : Kind}
    (lexeme : Lexeme text (some kind))
    (ends : ∀ b ∈ rest.head?, b ∈ blanks) :
    ∃ c cs piece, text = c :: cs ∧ munch c (cs ++ rest) = (piece, cs.length) ∧
      ∀ line, piece.item? text line = some (.ok ⟨kind, String.ofList text, line⟩) := by
  have alone : Longest text [] (some kind) :=
    ⟨lexeme, fun text' kind' _ front => by simpa using front.length_le⟩
  obtain ⟨c, cs, rfl, extent, sound, same⟩ := alone.munched
  rw [List.append_nil] at extent sound same
  have munched : munch c (cs ++ rest) = munch c cs := by
    cases rest with
    | nil => rw [List.append_nil]
    | cons b rest =>
      refine munch_before (ends b rfl) sound (.inr fun skipped => ?_) rest
      rw [skipped] at same
      cases same
  refine ⟨c, cs, (munch c cs).1, rfl, munched.trans (Prod.ext rfl extent), fun line => ?_⟩
  rw [item?_of_sound sound, same]
  rfl

private theorem Lexeme.itemsFrom_eq {text rest : List Char} {kind : Kind}
    (lexeme : Lexeme text (some kind))
    (ends : ∀ b ∈ rest.head?, b ∈ blanks) (line : Nat) {bound : Nat}
    (enough : (text ++ rest).length ≤ bound) :
    itemsFrom line bound (text ++ rest) =
      .ok ⟨kind, String.ofList text, lineAfter line text⟩ ::
        itemsFrom (lineAfter line text) rest.length rest := by
  obtain ⟨c, cs, piece, rfl, munched, item⟩ := lexeme.munch_eq ends
  simp only [List.cons_append, List.length_cons, List.length_append] at enough
  obtain ⟨bound, rfl⟩ := Nat.exists_eq_add_one_of_ne_zero (Nat.ne_of_gt (Nat.lt_of_lt_of_le
    (Nat.succ_pos _) enough))
  have room : rest.length ≤ bound := by omega
  rw [List.cons_append, itemsFrom_cons, munched]
  dsimp only
  rw [List.take_left, List.drop_left, item, itemsFrom_enough room (Nat.le_refl _)]
  rfl

end Lexical

namespace Scan

private theorem itemsFrom_blank {b : Char} (blank : b ∈ blanks) (line : Nat) {bound : Nat}
    {cs : List Char} (enough : cs.length < bound) :
    itemsFrom line bound (b :: cs) = itemsFrom (lineAfter line [b]) cs.length cs := by
  obtain ⟨bound, rfl⟩ := Nat.exists_eq_add_one_of_ne_zero (Nat.ne_of_gt (Nat.zero_lt_of_lt enough))
  have skipped : munch b cs = (.skipped, 0) := by
    simp only [blanks, List.mem_cons, List.not_mem_nil, or_false] at blank
    rcases blank with rfl | rfl | rfl | rfl <;> rfl
  rw [itemsFrom_cons, skipped]
  exact itemsFrom_enough (Nat.le_of_lt_succ enough) (Nat.le_refl _)

private theorem itemsFrom_comment {inside : List Char} (within : '\n' ∉ inside) (line : Nat)
    {bound : Nat}
    {cs : List Char} (enough : ('/' :: '/' :: (inside ++ '\n' :: cs)).length ≤ bound) :
    itemsFrom line bound ('/' :: '/' :: (inside ++ '\n' :: cs)) =
      itemsFrom line ('\n' :: cs).length ('\n' :: cs) := by
  have passes : ∀ d ∈ '/' :: inside, decide (d ≠ '\n') = true := by
    intro d member
    rcases List.mem_cons.mp member with rfl | member
    · decide
    · exact decide_eq_true fun same => within (same ▸ member)
  have skipped : munch '/' ('/' :: (inside ++ '\n' :: cs)) = (.skipped, ('/' :: inside).length) :=
    congrArg (Prod.mk Piece.skipped) (run_eq passes (c := '\n') (by decide) cs)
  have same : lineAfter line ('/' :: '/' :: inside) = line := by
    rw [lineAfter, List.count_cons_of_ne (by decide), List.count_cons_of_ne (by decide),
      List.count_eq_zero.mpr within]
    rfl
  simp only [List.length_cons, List.length_append] at enough
  obtain ⟨bound, rfl⟩ := Nat.exists_eq_add_one_of_ne_zero (Nat.ne_of_gt (Nat.lt_of_lt_of_le
    (Nat.succ_pos _) enough))
  have room : ('\n' :: cs).length ≤ bound := by
    rw [List.length_cons]
    omega
  rw [itemsFrom_cons, skipped, ← List.cons_append]
  dsimp only
  rw [List.take_left, List.drop_left, same, itemsFrom_enough room (Nat.le_refl _)]
  rfl

private theorem itemsFrom_gap {gap : List Char} (h : Gap gap) (line : Nat) {bound : Nat}
    {cs : List Char} (enough : (gap ++ cs).length ≤ bound) :
    ∃ line', itemsFrom line bound (gap ++ cs) = itemsFrom line' cs.length cs := by
  induction h generalizing line bound with
  | none => exact ⟨line, itemsFrom_enough enough (Nat.le_refl _)⟩
  | blank blank _ ih =>
    have skipped := itemsFrom_blank blank line enough
    rw [List.cons_append]
    exact skipped ▸ ih _ (Nat.le_refl _)
  | @comment inside gap within _ ih =>
    have whole : '/' :: '/' :: (inside ++ '\n' :: gap) ++ cs =
        '/' :: '/' :: (inside ++ '\n' :: (gap ++ cs)) := by simp
    rw [whole] at enough ⊢
    have fed : ('\n' : Char) ∈ blanks := by decide
    have skipped := itemsFrom_blank fed line (Nat.lt_succ_self (gap ++ cs).length)
    rw [itemsFrom_comment within line enough, List.length_cons, skipped]
    exact ih _ (Nat.le_refl _)

private theorem itemsFrom_joined {ts : List Token}
    (lexemes : ∀ t ∈ ts, Lexeme t.lexeme.toList (some t.kind)) {cs : List Char}
    (joined : Joined (ts.map Token.lexeme) cs) (line : Nat) {bound : Nat}
    (enough : cs.length ≤ bound) :
    ∃ (ts' : List Token) (last : Nat),
      itemsFrom line bound cs = ts'.map .ok ++ [.ok (.atEnd last)] ∧
      ts'.map (Token.reline oneLine) = ts.map (Token.reline oneLine) := by
  induction ts generalizing cs line bound with
  | nil =>
    cases joined
    exact ⟨[], line, by cases bound <;> rfl, rfl⟩
  | cons t ts ih =>
    obtain ⟨first, others⟩ := List.forall_mem_cons.mp lexemes
    have spelled : String.ofList t.lexeme.toList = t.lexeme := String.ofList_toList
    cases ts with
    | nil =>
      cases joined
      have last : ∀ b ∈ ([] : List Char).head?, b ∈ blanks := by simp
      have alone := first.itemsFrom_eq last line (by simpa using enough)
      rw [List.append_nil, spelled] at alone
      exact ⟨[⟨t.kind, t.lexeme, lineAfter line t.lexeme.toList⟩], _, alone, rfl⟩
    | cons next ts =>
      cases joined with
      | @more _ _ _ b gap rest blank h behind =>
        have parted : ∀ b' ∈ (b :: (gap ++ rest)).head?, b' ∈ blanks := by simpa using blank
        have here := first.itemsFrom_eq parted line enough
        obtain ⟨line', skipped⟩ := itemsFrom_gap (.blank blank h)
          (lineAfter line t.lexeme.toList) (Nat.le_refl ((b :: gap) ++ rest).length)
        obtain ⟨ts', last, items, same⟩ := ih others behind line' (Nat.le_refl _)
        rw [spelled] at here
        refine ⟨⟨t.kind, t.lexeme, lineAfter line t.lexeme.toList⟩ :: ts', last, ?_,
          congrArg (t.reline oneLine :: ·) same⟩
        rw [here, List.map_cons, List.cons_append, ← items, ← skipped]
        rfl

end Scan

/-- Texts without faulty pieces, the tokens of which differ in nothing but their lines. -/
structure Scanned.SameButLines (a b : Scanned) : Prop where
  tokens : b.tokens.map (Token.reline oneLine) = a.tokens.map (Token.reline oneLine)
  faults : a.faults = []
  faults' : b.faults = []

/-- The tokens of a text are lexemes. -/
theorem scan_lexemes (source : String) :
    ∀ t ∈ (scan source).tokens, Lexeme t.lexeme.toList (some t.kind) := by
  obtain ⟨ss, last, cut, items⟩ :=
    exists_cut 1 (Nat.le_of_eq (String.length_toList (s := source)))
  rw [scan_eq items]
  intro t member
  obtain ⟨item, found, same⟩ := List.mem_filterMap.mp member
  cases item with
  | error e => cases same
  | ok t' =>
    obtain rfl := Option.some.inj same
    exact cut.lexeme_of_mem found

theorem scan_joined {source source' : String} (sound : (scan source).faults = [])
    (joined : Joined ((scan source).tokens.map Token.lexeme) source'.toList) :
    (scan source).SameButLines (scan source') := by
  obtain ⟨ts', last, items, same⟩ :=
    itemsFrom_joined (scan_lexemes source) joined 1 (Nat.le_of_eq (String.length_toList (s := source')))
  have tokens : (ts'.map Except.ok : List Item).filterMap Except.toOption = ts' := by
    rw [List.filterMap_map]
    exact List.filterMap_some
  have none : (ts'.map Except.ok : List Item).filterMap fault? = [] := by
    rw [List.filterMap_map]
    exact List.filterMap_eq_nil_iff.mpr fun _ _ => rfl
  rw [scan_eq items, tokens, none]
  exact ⟨same, sound, rfl⟩

end LoxLang
