import LoxLang.Token.Cursor

/-!
Texts and their bytes.  An ASCII character is one byte, its code, and the bytes of all others are
greater than any of these.  So what is decided by ASCII characters alone can be decided on bytes,
and no byte of another character is taken for one of them.
-/

set_option autoImplicit false
set_option relaxedAutoImplicit false

namespace LoxLang

namespace Text

theorem encode_append (cs ds : List Char) : encode (cs ++ ds) = encode cs ++ encode ds :=
  List.flatMap_append

theorem encode_cons (c : Char) (cs : List Char) :
    encode (c :: cs) = String.utf8EncodeChar c ++ encode cs := rfl

theorem encode_toList (s : String) : encode s.toList = s.toUTF8.data.toList := by
  rw [String.toUTF8_eq_toByteArray, ← String.utf8Encode_toList, List.utf8Encode,
    List.data_toByteArray]
  rfl

def Ascii (c : Char) : Prop := c.toNat < 128

instance (c : Char) : Decidable (Ascii c) := inferInstanceAs (Decidable (_ < _))

theorem encodeChar_of_ascii {c : Char} (ascii : Ascii c) :
    String.utf8EncodeChar c = [c.toUInt8] := by
  have le : c.val.toNat ≤ 0x7f := Nat.le_of_lt_succ ascii
  unfold String.utf8EncodeChar
  dsimp only
  rw [if_pos le]
  rfl

private theorem high_of_mem_encodeChar {c : Char} (other : ¬ Ascii c) :
    ∀ b ∈ String.utf8EncodeChar c, 128 ≤ b.toNat := by
  have le : ¬ c.val.toNat ≤ 0x7f := fun le => other (Nat.lt_succ_of_le le)
  have high (n m k : Nat) (bound : m + k ≤ 256) (pos : 0 < m) (lead : 128 ≤ k) :
      128 ≤ (UInt8.ofNat (n % m + k)).toNat := by
    have small := Nat.mod_lt n pos
    rw [UInt8.toNat_ofNat', Nat.mod_eq_of_lt (by omega)]
    omega
  unfold String.utf8EncodeChar
  dsimp only
  rw [if_neg le]
  intro b member
  split at member
  · simp only [List.mem_cons, List.not_mem_nil, or_false] at member
    rcases member with rfl | rfl <;> exact high _ _ _ (by decide) (by decide) (by decide)
  · split at member
    · simp only [List.mem_cons, List.not_mem_nil, or_false] at member
      rcases member with rfl | rfl | rfl <;> exact high _ _ _ (by decide) (by decide) (by decide)
    · simp only [List.mem_cons, List.not_mem_nil, or_false] at member
      rcases member with rfl | rfl | rfl | rfl <;>
        exact high _ _ _ (by decide) (by decide) (by decide)

private theorem ofUInt8_toNat (b : UInt8) : (Char.ofUInt8 b).toNat = b.toNat := rfl

theorem ofUInt8_of_ascii {c : Char} (ascii : Ascii c) : Char.ofUInt8 c.toUInt8 = c := by
  refine Char.ext (UInt32.toNat_inj.mp ?_)
  have small : c.val.toNat < 128 := ascii
  change c.val.toUInt8.toNat = c.val.toNat
  rw [UInt32.toNat_toUInt8]
  omega

theorem encodeChar_cons {c : Char} (other : ¬ Ascii c) :
    ∃ b bs, String.utf8EncodeChar c = b :: bs ∧ ¬ Ascii (Char.ofUInt8 b) := by
  obtain ⟨b, bs, same⟩ := List.exists_cons_of_ne_nil (String.utf8EncodeChar_ne_nil (c := c))
  refine ⟨b, bs, same, ?_⟩
  have high := high_of_mem_encodeChar other b (by rw [same]; exact List.mem_cons_self)
  rw [Ascii, ofUInt8_toNat]
  omega

theorem length_encode_cons (c : Char) (cs : List Char) :
    (encode (c :: cs)).length = c.utf8Size + (encode cs).length := by
  rw [encode_cons, List.length_append, String.length_utf8EncodeChar]

private theorem splitAtByte?_encode (front rest : List Char) :
    splitAtByte? (encode front).length (front ++ rest) = some (front, rest) := by
  induction front with
  | nil =>
    rw [encode, List.flatMap_nil, List.length_nil, splitAtByte?]
    rfl
  | cons c front ih =>
    have positive := c.utf8Size_pos
    obtain ⟨n, length⟩ : ∃ n, (encode (c :: front)).length = n + 1 :=
      ⟨(encode (c :: front)).length - 1, by rw [length_encode_cons]; omega⟩
    have le : c.utf8Size ≤ n + 1 := by
      rw [← length, length_encode_cons]
      exact Nat.le_add_right _ _
    have left : n + 1 - c.utf8Size = (encode front).length := by
      rw [← length, length_encode_cons]
      omega
    rw [length, List.cons_append, splitAtByte?, if_pos le, left, ih]
    rfl

theorem slice?_encode (front piece rest : List Char) :
    slice? (front ++ (piece ++ rest)) (encode front).length (encode (front ++ piece)).length =
      some piece := by
  have length : (encode (front ++ piece)).length - (encode front).length =
      (encode piece).length := by
    rw [encode_append, List.length_append]
    omega
  have le : (encode front).length ≤ (encode (front ++ piece)).length := by
    rw [encode_append, List.length_append]
    exact Nat.le_add_right _ _
  unfold slice?
  rw [splitAtByte?_encode]
  simp only [Option.bind_eq_bind, Option.bind_some, if_pos le, length, splitAtByte?_encode,
    Option.map_some]

/-! What bytes tell of ASCII characters. -/

structure Plain (test : Char → Bool) : Prop where
  zero : ¬ test '\x00'
  ascii : ∀ {c}, test c → Ascii c

theorem test_first {test : Char → Bool} (plain : Plain test) (cs : List Char) :
    test (Char.ofUInt8 ((encode cs)[0]?.getD 0)) = cs.head?.any test := by
  cases cs with
  | nil => exact Bool.eq_false_iff.mpr plain.zero
  | cons c cs =>
    rw [encode_cons]
    by_cases ascii : Ascii c
    · rw [encodeChar_of_ascii ascii]
      exact congrArg test (ofUInt8_of_ascii ascii)
    · obtain ⟨b, bs, same, other⟩ := encodeChar_cons ascii
      rw [same]
      have fails : test c = false := Bool.eq_false_iff.mpr fun passes => ascii (plain.ascii passes)
      have fails' : test (Char.ofUInt8 b) = false :=
        Bool.eq_false_iff.mpr fun passes => other (plain.ascii passes)
      exact fails'.trans fails.symm

theorem plain_eq {a : Char} (ascii : Ascii a) (nonzero : a ≠ '\x00') : Plain (· == a) where
  zero same := nonzero (beq_iff_eq.mp same).symm
  ascii same := (beq_iff_eq.mp same) ▸ ascii

theorem byte_eq_iff {a : Char} (ascii : Ascii a) (b : UInt8) :
    b = a.toUInt8 ↔ Char.ofUInt8 b = a := by
  constructor
  · rintro rfl
    exact ofUInt8_of_ascii ascii
  · rintro rfl
    refine UInt8.toNat_inj.mp ?_
    change b.toNat = b.toUInt32.toUInt8.toNat
    rw [UInt8.toUInt8_toUInt32]

private theorem not_mem_encodeChar {a c : Char} (ascii : Ascii a) (other : c ≠ a) :
    a.toUInt8 ∉ String.utf8EncodeChar c := by
  intro member
  by_cases same : Ascii c
  · rw [encodeChar_of_ascii same, List.mem_singleton] at member
    have equal := (byte_eq_iff same _).mp member
    rw [ofUInt8_of_ascii ascii] at equal
    exact other equal.symm
  · have high := high_of_mem_encodeChar same _ member
    have small : (Char.ofUInt8 a.toUInt8).toNat < 128 := by
      rw [ofUInt8_of_ascii ascii]
      exact ascii
    rw [ofUInt8_toNat] at small
    omega

theorem findIdx?_encode {a : Char} (ascii : Ascii a) (cs : List Char) :
    (encode cs).findIdx? (· = a.toUInt8) =
      if a ∈ cs then some (encode (cs.takeWhile (· ≠ a))).length else none := by
  induction cs with
  | nil => rfl
  | cons c cs ih =>
    rw [encode_cons, List.findIdx?_append]
    by_cases same : c = a
    · subst same
      rw [encodeChar_of_ascii ascii, List.takeWhile_cons_of_neg (by simp),
        if_pos List.mem_cons_self]
      simp [encode]
    · have none : (String.utf8EncodeChar c).findIdx? (· = a.toUInt8) = none := by
        rw [List.findIdx?_eq_none_iff]
        intro b member
        exact decide_eq_false fun equal => not_mem_encodeChar ascii same (equal ▸ member)
      rw [none, ih, Option.none_or, List.takeWhile_cons_of_pos (by simpa using same),
        length_encode_cons, String.length_utf8EncodeChar]
      have mem_iff : a ∈ c :: cs ↔ a ∈ cs := by simp [Ne.symm same]
      simp only [mem_iff]
      split
      · rw [Option.map_some, Nat.add_comm]
      · rfl

/-- An ASCII character occurs as often as its byte. -/
theorem count_encode {a : Char} (ascii : Ascii a) (cs : List Char) :
    (encode cs).count a.toUInt8 = cs.count a := by
  induction cs with
  | nil => rfl
  | cons c cs ih =>
    rw [encode_cons, List.count_append, ih, List.count_cons]
    by_cases same : c = a
    · subst same
      rw [encodeChar_of_ascii ascii, if_pos (beq_self_eq_true c)]
      simp [Nat.add_comm]
    · rw [List.count_eq_zero.mpr (not_mem_encodeChar ascii same), if_neg (by simpa using same)]
      omega

end Text

end LoxLang
