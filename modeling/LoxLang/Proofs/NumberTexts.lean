import LoxLang.Proofs.BracketedPhrases

/-!
The texts of numbers in trees: a finite number is a word of digits, a point and perhaps a sign in
front, and no other word of a tree begins with a digit or a sign.
-/

set_option autoImplicit false
set_option relaxedAutoImplicit false

namespace LoxLang

namespace Number

/-- Whether a number is neither an infinity nor the absence of a number. -/
def IsFinite (x : Float) : Prop :=
  match Binary.ofFloat x with
  | .finite _ _ _ => True
  | _ => False

instance (x : Float) : Decidable (IsFinite x) := by
  unfold IsFinite
  split <;> infer_instance

def beginsNumber (cs : List Char) : Bool := cs.head?.any fun c => c.isDigit || c == '-'

structure IsDecimal (cs : List Char) : Prop where
  first : ∃ c ∈ cs.head?, c.isDigit
  all : ∀ c ∈ cs, c.isDigit ∨ c = '.'

private theorem IsDecimal.append {cs ds : List Char} (h : IsDecimal cs)
    (all : ∀ c ∈ ds, c.isDigit ∨ c = '.') : IsDecimal (cs ++ ds) := by
  obtain ⟨⟨c, first, digit⟩, within⟩ := h
  obtain ⟨c', cs, rfl⟩ := List.exists_cons_of_ne_nil (List.ne_nil_of_mem (List.mem_of_head? first))
  refine ⟨⟨c, first, digit⟩, fun d member => ?_⟩
  rcases List.mem_append.mp member with front | back
  · exact within d front
  · exact all d back

private theorem isDigit_of_mem_digitsOf {n : Nat} {c : Char} (h : c ∈ digitsOf n) : c.isDigit :=
  Nat.isDigit_of_mem_toDigits (by decide) (by decide) h

private theorem isDigit_of_mem_zeros {count : Nat} {c : Char} (h : c ∈ zeros count) : c.isDigit :=
  by
  rw [List.eq_of_mem_replicate h]
  decide

private theorem isDecimal_digitsOf (n : Nat) : IsDecimal (digitsOf n) := by
  obtain ⟨c, cs, same⟩ := List.exists_cons_of_ne_nil (Nat.toDigits_ne_nil (n := n) (b := 10))
  have digits : ∀ d ∈ digitsOf n, d.isDigit := fun d => isDigit_of_mem_digitsOf
  refine ⟨⟨c, ?_, digits c ?_⟩, fun d member => .inl (digits d member)⟩
  · rw [digitsOf, same]
    rfl
  · rw [digitsOf, same]
    exact List.mem_cons_self

private theorem isDecimal_positional (d : Decimal) : IsDecimal d.positional := by
  have digits := isDecimal_digitsOf d.digits
  unfold Decimal.positional
  dsimp only
  split
  · exact digits.append fun c member => .inl (isDigit_of_mem_zeros member)
  · rename_i e _
    split
    · rename_i places
      have front : IsDecimal ((digitsOf d.digits).take ((digitsOf d.digits).length - (e + 1))) := by
        obtain ⟨⟨c, first, digit⟩, all⟩ := digits
        refine ⟨⟨c, ?_, digit⟩, fun c member => all c (List.mem_of_mem_take member)⟩
        rw [List.head?_take, if_neg (by omega)]
        exact first
      refine front.append fun c member => ?_
      rcases List.mem_cons.mp member with rfl | member
      · exact .inr rfl
      · exact digits.all c (List.mem_of_mem_drop member)
    · refine ⟨⟨'0', rfl, by decide⟩, fun c member => ?_⟩
      simp only [List.cons_append, List.mem_cons, List.mem_append] at member
      rcases member with rfl | rfl | zero | digit
      · exact .inl (by decide)
      · exact .inr rfl
      · exact .inl (isDigit_of_mem_zeros zero)
      · exact digits.all c digit

/-- The text of a finite number is a word that begins as numbers do. -/
theorem pointed_word {x : Float} (finite : IsFinite x) :
    Phrase.IsWord (pointed x).toList ∧ beginsNumber (pointed x).toList := by
  have decimal_word {cs : List Char} (decimal : IsDecimal cs) :
      Phrase.IsWord cs ∧ beginsNumber cs := by
    obtain ⟨⟨c, first, digit⟩, all⟩ := decimal
    refine ⟨⟨List.ne_nil_of_mem (List.mem_of_head? first), fun d member => ?_⟩, ?_⟩
    · rcases all d member with digit | rfl
      · have ne {c : Char} (other : ¬ c.isDigit) : d ≠ c := fun same => other (same ▸ digit)
        simp [Phrase.inWord, ne (c := ' ') (by decide), ne (c := '(') (by decide),
          ne (c := ')') (by decide)]
      · decide
    · rw [Option.mem_def] at first
      simp [beginsNumber, first, digit]
  have signed_word {negative : Bool} {cs : List Char} (decimal : IsDecimal cs) :
      Phrase.IsWord (signed negative cs) ∧ beginsNumber (signed negative cs) := by
    cases negative with
    | false => exact decimal_word decimal
    | true =>
      refine ⟨⟨List.cons_ne_nil _ _, List.forall_mem_cons.mpr ⟨by decide, ?_⟩⟩, rfl⟩
      exact (decimal_word decimal).1.2
  unfold pointed textWith
  unfold IsFinite at finite
  cases parts : Binary.ofFloat x with
  | nan => simp [parts] at finite
  | infinite => simp [parts] at finite
  | finite negative significand exponent =>
    dsimp only
    rw [String.toList_ofList]
    refine signed_word ?_
    split
    · exact (isDecimal_digitsOf _).append
        (List.forall_mem_cons.mpr ⟨.inr rfl, List.forall_mem_singleton.mpr (.inl rfl)⟩)
    · exact isDecimal_positional _

end Number

end LoxLang
