import LoxLang.Proofs.JoinedTexts

/-!
Texts with something written around them.  A piece in front of a text is scanned by itself if it
ends there, and the text behind it as if it stood alone; and behind a line feed no text without
quotes mends a faulty piece before it.
-/

set_option autoImplicit false
set_option relaxedAutoImplicit false

namespace LoxLang

namespace Scan

private theorem items_before {c : Char} {cs : List Char} {source : String} {piece : Piece}
    (ends : munch c (cs ++ source.toList) = (piece, cs.length)) (line : '\n' ∉ c :: cs) :
    items (String.ofList (c :: cs) ++ source) =
      (piece.item? (c :: cs) 1).toList ++ items source := by
  have text : (String.ofList (c :: cs) ++ source).toList = c :: (cs ++ source.toList) := by
    simp [String.toList_append]
  have length : (String.ofList (c :: cs) ++ source).length = (cs ++ source.toList).length + 1 := by
    rw [← String.length_toList, text, List.length_cons]
  have same : lineAfter 1 (c :: cs) = 1 := by
    rw [lineAfter, List.count_eq_zero.mpr line]
  unfold items
  rw [text, length, itemsFrom_cons, ends, List.take_left, List.drop_left, same,
    itemsFrom_enough (by simp) (Nat.le_of_eq String.length_toList)]

end Scan

open Scan

/-- A token in front of a text. -/
theorem scan_token {c : Char} {cs : List Char} {source : String} {piece : Piece} {t : Token}
    (ends : munch c (cs ++ source.toList) = (piece, cs.length)) (line : '\n' ∉ c :: cs)
    (token : piece.item? (c :: cs) 1 = some (.ok t)) :
    scan (String.ofList (c :: cs) ++ source) =
      ⟨t :: (scan source).tokens, (scan source).lastLine, (scan source).faults⟩ := by
  obtain ⟨front, last, behind⟩ := itemsFrom_ends 1 source.length source.toList
  have whole : items (String.ofList (c :: cs) ++ source) =
      (.ok t :: front) ++ [.ok (.atEnd last)] := by
    rw [items_before ends line, token, items, behind]
    rfl
  rw [scan_eq whole, scan_eq behind]
  rfl

theorem scan_skipped {c : Char} {cs : List Char} {source : String} {piece : Piece}
    (ends : munch c (cs ++ source.toList) = (piece, cs.length)) (line : '\n' ∉ c :: cs)
    (skipped : piece.item? (c :: cs) 1 = none) :
    scan (String.ofList (c :: cs) ++ source) = scan source := by
  have same := items_before ends line
  rw [skipped] at same
  unfold scan
  rw [same]
  rfl

namespace Scan

theorem run_eq_length_iff {test : Char → Bool} {cs : List Char} :
    run test cs = cs.length ↔ ∀ c ∈ cs, test c := by
  induction cs with
  | nil => simp [run]
  | cons c cs ih =>
    unfold run at ih ⊢
    rw [List.takeWhile_cons]
    split
    · rename_i passes
      simp [passes, ih]
    · rename_i fails
      simp [fails]

private theorem munch_faulty {c : Char} {cs rest : List Char} {fault : LexFault}
    (faulty : (munch c cs).1 = .faulty fault) (unquoted : '\x22' ∉ rest) :
    ∃ fault, (munch c (cs ++ '\n' :: rest)).1 = .faulty fault := by
  have operator (single double : Kind) : (oneOrTwo cs single double).1 ≠ .faulty fault := by
    unfold oneOrTwo
    split <;> simp
  unfold munch at faulty ⊢
  split at faulty
  case h_11 | h_12 | h_13 | h_14 => exact absurd faulty (operator _ _)
  case h_19 => split at faulty <;> simp at faulty
  case h_20 =>
    dsimp only at faulty ⊢
    rcases Nat.lt_or_ge (run (· ≠ '\x22') cs) cs.length with ends | endless
    · rw [if_pos ends] at faulty
      cases faulty
    · -- No quote follows, and none stands in the rest.
      have inside := run_eq_length_iff.mp
        (Nat.le_antisymm (List.takeWhile_sublist _).length_le endless)
      have none : run (· ≠ '\x22') (cs ++ '\n' :: rest) = (cs ++ '\n' :: rest).length := by
        refine run_eq_length_iff.mpr fun d member => ?_
        rcases List.mem_append.mp member with member | member
        · exact inside d member
        · rcases List.mem_cons.mp member with rfl | member
          · decide
          · exact decide_eq_true fun same : d = '\x22' => unquoted (same ▸ member)
      rw [none, if_neg (Nat.lt_irrefl _)]
      exact ⟨_, rfl⟩
  case h_21 =>
    split at faulty
    · cases faulty
    · split at faulty
      · cases faulty
      · rename_i digit word
        rw [if_neg digit, if_neg word]
        exact ⟨_, rfl⟩
  all_goals cases faulty

private theorem itemsFrom_faulty {line bound wide : Nat} {cs rest : List Char} {e : LexError}
    (faulty : .error e ∈ itemsFrom line bound cs) (unquoted : '\x22' ∉ rest)
    (enough : cs.length ≤ bound) (wider : (cs ++ '\n' :: rest).length ≤ wide) :
    ∃ e, .error e ∈ itemsFrom line wide (cs ++ '\n' :: rest) := by
  induction bound generalizing line cs wide with
  | zero => simp [itemsFrom] at faulty
  | succ bound ih =>
    cases cs with
    | nil => simp [itemsFrom] at faulty
    | cons c cs =>
      obtain ⟨wide, rfl⟩ : ∃ w, wide = w + 1 := ⟨wide - 1, by simp at wider; omega⟩
      rw [List.cons_append, itemsFrom_cons]
      by_cases piece : ∃ fault, (munch c cs).1 = .faulty fault
      · obtain ⟨fault, piece⟩ := piece
        obtain ⟨fault', piece'⟩ := munch_faulty piece unquoted
        rw [piece']
        exact ⟨_, List.mem_append_left _ (List.mem_singleton_self _)⟩
      · have sound := not_exists.mp piece
        have within := munch_extent_le c cs
        rw [munch_join sound, List.take_append_of_le_length within,
          List.drop_append_of_le_length within]
        rw [itemsFrom_cons] at faulty
        rcases List.mem_append.mp faulty with here | behind
        · cases kind : (munch c cs).1 with
          | faulty fault => exact absurd kind (sound fault)
          | _ => simp [kind, Piece.item?] at here
        · simp only [List.length_append, List.length_cons] at wider enough
          have left : (cs.drop (munch c cs).2).length ≤ bound := by
            rw [List.length_drop]
            omega
          have room : (cs.drop (munch c cs).2 ++ '\n' :: rest).length ≤ wide := by
            simp only [List.length_append, List.length_cons, List.length_drop]
            omega
          obtain ⟨e, member⟩ := ih behind left room
          exact ⟨e, List.mem_append_right _ member⟩

end Scan

theorem scan_sound_of_join {s₁ s₂ : String} (sound : (scan (s₁ ++ "\n" ++ s₂)).faults = [])
    (unquoted : '\x22' ∉ s₂.toList) : (scan s₁).faults = [] := by
  rw [scan_faults, List.filterMap_eq_nil_iff] at sound ⊢
  intro item member
  cases item with
  | ok t => rfl
  | error e =>
    have whole : (s₁ ++ "\n" ++ s₂).toList = s₁.toList ++ '\n' :: s₂.toList := by
      simp [String.toList_append]
    obtain ⟨e', member'⟩ := itemsFrom_faulty member unquoted
      (Nat.le_of_eq String.length_toList) (Nat.le_refl _)
    rw [← whole, String.length_toList] at member'
    cases sound _ member'

end LoxLang
