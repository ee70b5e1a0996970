/-
JvmAssembly/Proofs/EscapeRules.lean

The rules of escapes, and that string literals are decoded by them.

`Decodes closed body content` is the reading of the body of a literal from left to
right, one rule for each way to go on.  A quote is only ever read behind a
backslash, and a backslash with nothing behind it only in a literal that is not
closed.  Four hexadecimal digits always denote a code point (`exists_unicode`),
hence the rules leave no choice: the body that is cut off a text has exactly one
content, the one that `Escape.decode` computes (`decodes_splitLiteral_iff`).
-/
import JvmAssembly.Token.Piece
import JvmAssembly.Token.Escape

namespace JvmAssembly

/-! ### Code points by number -/

namespace CodePoint

theorem ofNat?_toNat (point : CodePoint) : ofNat? point.toNat = some point := by
  cases point with
  | char c =>
    have hvalid : c.toNat.isValidChar := c.valid
    show (if h : c.toNat.isValidChar then some (char (Char.ofNatAux c.toNat h)) else _) = _
    rw [dif_pos hvalid]
    rfl
  | surrogate index =>
    have htoNat : (surrogate index).toNat = 0xD800 + index.val := rfl
    have hrange : 0xD800 ≤ (surrogate index).toNat ∧ (surrogate index).toNat < 0xE000 := by
      omega
    have hinvalid : ¬ (surrogate index).toNat.isValidChar := by
      rintro (h | h) <;> omega
    unfold ofNat?
    rw [dif_neg hinvalid, dif_pos hrange]
    refine congrArg (fun i => some (surrogate i)) (Fin.ext ?_)
    show (surrogate index).toNat - 0xD800 = index.val
    omega

theorem toNat_of_ofNat?_eq_some {n : Nat} {point : CodePoint} (h : ofNat? n = some point) :
    point.toNat = n := by
  unfold ofNat? at h
  by_cases hvalid : n.isValidChar
  · rw [dif_pos hvalid] at h
    obtain rfl := Option.some.inj h
    show (Char.ofNatAux n hvalid).toNat = n
    rfl
  rw [dif_neg hvalid] at h
  by_cases hrange : 0xD800 ≤ n ∧ n < 0xE000
  · rw [dif_pos hrange] at h
    obtain rfl := Option.some.inj h
    show 0xD800 + (n - 0xD800) = n
    omega
  · rw [dif_neg hrange] at h
    cases h

/-- Below `U+10000` every number is that of a code point. -/
theorem exists_ofNat?_eq_some {n : Nat} (h : n < 0x10000) : ∃ point, ofNat? n = some point := by
  by_cases hvalid : n.isValidChar
  · exact ⟨_, dif_pos hvalid⟩
  · have hrange : 0xD800 ≤ n ∧ n < 0xE000 := by
      simp only [Nat.isValidChar] at hvalid
      omega
    exact ⟨_, (dif_neg hvalid).trans (dif_pos hrange)⟩

end CodePoint

namespace Numeral

theorem digitValue_lt (c : Char) : digitValue c < 16 := by
  unfold digitValue
  split
  · next h =>
    have h : c.toNat ≤ 57 := (Char.isDigit_iff_toNat.mp h).2
    show c.toNat - 48 < 16
    omega
  split
  · next h =>
    simp only [Bool.and_eq_true, decide_eq_true_eq] at h
    have hle : c.toNat ≤ 102 := h.2
    show c.toNat - 97 + 10 < 16
    omega
  split
  · next h =>
    simp only [Bool.and_eq_true, decide_eq_true_eq] at h
    have hle : c.toNat ≤ 70 := h.2
    show c.toNat - 65 + 10 < 16
    omega
  · decide

/-- Four hexadecimal digits are a number of sixteen bits. -/
theorem natOfDigits_lt (a b c d : Char) : natOfDigits 16 [a, b, c, d] < 0x10000 := by
  have ha := digitValue_lt a
  have hb := digitValue_lt b
  have hc := digitValue_lt c
  have hd := digitValue_lt d
  simp only [natOfDigits, List.foldl_cons, List.foldl_nil]
  omega

end Numeral

namespace Escape

/-! ### The rules -/

/-- The characters that have an escape of their own, by the character behind the backslash. -/
def table : List (Char × Char) :=
  [('n', '\n'), ('r', '\r'), ('t', '\t'), ('b', '\x08'), ('f', '\x0c'), ('"', '"'),
    ('\'', '\''), ('\\', '\\')]

/-- The text goes on with four hexadecimal digits. -/
def StartsWithNumber (cs : List Char) : Prop :=
  ∃ a b c d rest, cs = a :: b :: c :: d :: rest ∧ [a, b, c, d].all Numeral.isHexDigit

/-- How the body of a string literal, `closed` or not, is read. -/
inductive Decodes (closed : Bool) : List Char → Content → Prop where
  | nil : Decodes closed [] []
  | plain {c cs content} (hquote : c ≠ '"') (hbackslash : c ≠ '\\')
      (hrest : Decodes closed cs content) : Decodes closed (c :: cs) (.char c :: content)
  | single {c plain cs content} (hmem : (c, plain) ∈ table)
      (hrest : Decodes closed cs content) :
      Decodes closed ('\\' :: c :: cs) (.char plain :: content)
  | unicode {a b c d point cs content} (hdigits : [a, b, c, d].all Numeral.isHexDigit)
      (hpoint : point.toNat = Numeral.natOfDigits 16 [a, b, c, d])
      (hrest : Decodes closed cs content) :
      Decodes closed ('\\' :: 'u' :: a :: b :: c :: d :: cs) (point :: content)
  | notUnicode {cs content} (hdigits : ¬ StartsWithNumber cs)
      (hrest : Decodes closed cs content) :
      Decodes closed ('\\' :: 'u' :: cs) (.char '\\' :: .char 'u' :: content)
  | other {c cs content} (hu : c ≠ 'u') (htable : ∀ plain, (c, plain) ∉ table)
      (hrest : Decodes closed cs content) :
      Decodes closed ('\\' :: c :: cs) (.char '\\' :: .char c :: content)
  -- the text ends inside an escape
  | truncated (hopen : closed = false) : Decodes closed ['\\'] [.char '\\']

variable {closed : Bool}

/-! ### The rules leave no choice -/

/-- The characters with an escape of their own are those of the table. -/
theorem single?_eq_some_iff (c plain : Char) :
    single? c = some plain ↔ (c, plain) ∈ table := by
  unfold single?
  split <;> simp_all [table, eq_comm]

theorem single?_eq_none_iff (c : Char) : single? c = none ↔ ∀ plain, (c, plain) ∉ table := by
  rw [Option.eq_none_iff_forall_ne_some]
  exact forall_congr' fun plain => not_congr (single?_eq_some_iff c plain)

theorem ne_u_of_mem_table {c plain : Char} (h : (c, plain) ∈ table) : c ≠ 'u' := by
  rintro rfl
  exact absurd ((single?_eq_some_iff 'u' plain).mpr h) (by simp [single?])

/-- A code point is read from digits exactly if all of them are hexadecimal and its number is the
one they denote. -/
theorem unicode?_eq_some_iff (digits : List Char) (point : CodePoint) :
    unicode? digits = some point
      ↔ digits.all Numeral.isHexDigit ∧ point.toNat = Numeral.natOfDigits 16 digits := by
  unfold unicode?
  split
  · next hdigits =>
    constructor
    · intro h
      exact ⟨hdigits, CodePoint.toNat_of_ofNat?_eq_some h⟩
    · rintro ⟨-, h⟩
      rw [← h]
      exact CodePoint.ofNat?_toNat point
  · next hdigits => simp [hdigits]

/-- Four hexadecimal digits denote a code point. -/
theorem exists_unicode {a b c d : Char} (h : [a, b, c, d].all Numeral.isHexDigit) :
    ∃ point, unicode? [a, b, c, d] = some point := by
  obtain ⟨point, hpoint⟩ := CodePoint.exists_ofNat?_eq_some (Numeral.natOfDigits_lt a b c d)
  exact ⟨point, (if_pos h).trans hpoint⟩

/-- Without four digits behind it, a backslash and its `u` stand for themselves. -/
theorem decode_notUnicode {cs : List Char} (h : ¬ StartsWithNumber cs) :
    decode ('\\' :: 'u' :: cs) = .char '\\' :: .char 'u' :: decode cs := by
  match cs with
  | a :: b :: c :: d :: rest =>
    have hnone : unicode? [a, b, c, d] = none := by
      refine if_neg fun hdigits => h ?_
      exact ⟨a, b, c, d, rest, rfl, hdigits⟩
    rw [decode, hnone]
  | [] | [_] | [_, _] | [_, _, _] => rfl

/-- A backslash with another letter than `u` takes that letter, and no more. -/
theorem decode_escape {c : Char} (hu : c ≠ 'u') (cs : List Char) :
    decode ('\\' :: c :: cs)
      = (((single? c).map fun plain => [.char plain]).getD [.char '\\', .char c]) ++ decode cs := by
  rw [decode]
  · cases single? c <;> rfl
  · exact hu

theorem decode_plain {c : Char} (h : c ≠ '\\') (cs : List Char) :
    decode (c :: cs) = .char c :: decode cs := by
  rw [decode]
  · intro _ hc
    exact absurd hc h
  · intro _ _ hc
    exact absurd hc h

/-- The rules give every body at most one content, the computed one. -/
theorem Decodes.eq_decode {body : List Char} {content : Content}
    (h : Decodes closed body content) : content = decode body := by
  induction h with
  | nil => rfl
  | plain _ hbackslash _ ih => rw [decode_plain hbackslash, ih]
  | single hmem _ ih =>
    have hu := ne_u_of_mem_table hmem
    rw [decode_escape hu, (single?_eq_some_iff _ _).mpr hmem, ih]
    rfl
  | unicode hdigits hpoint _ ih =>
    rw [decode, (unicode?_eq_some_iff _ _).mpr ⟨hdigits, hpoint⟩, ih]
  | notUnicode hdigits _ ih => rw [decode_notUnicode hdigits, ih]
  | other hu htable _ ih =>
    rw [decode_escape hu, (single?_eq_none_iff _).mpr htable, ih]
    rfl
  | truncated => rfl

/-! ### The rules cover the bodies of literals -/

/-- What can stand between quotes: the quotes inside are behind backslashes, and in a
closed literal the last character is not a backslash of its own. -/
inductive IsBody (closed : Bool) : List Char → Prop where
  | nil : IsBody closed []
  | plain {c cs} (hquote : c ≠ '"') (hbackslash : c ≠ '\\') (hrest : IsBody closed cs) :
      IsBody closed (c :: cs)
  | escape {c cs} (hrest : IsBody closed cs) : IsBody closed ('\\' :: c :: cs)
  | truncated (hopen : closed = false) : IsBody closed ['\\']

/-- What is cut off as the body of a literal can stand between quotes. -/
theorem isBody_splitLiteral (cs : List Char) :
    IsBody (Piece.splitLiteral cs).2.1 (Piece.splitLiteral cs).1 := by
  fun_induction Piece.splitLiteral cs with
  | case1 => exact .nil
  | case2 cs => exact .nil
  | case3 c cs body closed rest h ih =>
    rw [h] at ih
    exact .escape ih
  | case4 c cs hquote hescape body closed rest h ih =>
    rw [h] at ih
    by_cases hc : c = '\\'
    · subst hc
      -- a backslash that is read here has nothing behind it
      cases cs with
      | nil =>
        obtain ⟨rfl, rfl, rfl⟩ : body = [] ∧ closed = false ∧ rest = [] := by
          simpa [Piece.splitLiteral, eq_comm] using h
        exact .truncated rfl
      | cons d ds => exact absurd rfl (hescape d ds rfl)
    · exact .plain (fun hq => hquote hq) hc ih

theorem IsBody.of_escape {c : Char} {cs : List Char} (h : IsBody closed ('\\' :: c :: cs)) :
    IsBody closed cs := by
  cases h with
  | plain _ hbackslash _ => exact absurd rfl hbackslash
  | escape hrest => exact hrest

/-- Digits are plain characters: what follows them can stand between quotes if all of it can. -/
theorem IsBody.of_hexDigits {digits cs : List Char} (h : IsBody closed (digits ++ cs))
    (hdigits : digits.all Numeral.isHexDigit) : IsBody closed cs := by
  induction digits with
  | nil => exact h
  | cons c digits ih =>
    rw [List.all_cons, Bool.and_eq_true] at hdigits
    -- a backslash is no digit, so the digit was read on its own
    have hc : c ≠ '\\' := by
      rintro rfl
      exact absurd hdigits.1 (by decide)
    refine ih ?_ hdigits.2
    rw [List.cons_append] at h
    generalize digits ++ cs = rest at h ⊢
    cases h with
    | plain _ _ hrest => exact hrest
    | escape _ => exact absurd rfl hc
    | truncated _ => exact absurd rfl hc

/-- The rules give every body that can stand between quotes the content that is computed. -/
theorem IsBody.decodes {body : List Char} (h : IsBody closed body) :
    Decodes closed body (decode body) := by
  fun_induction decode body with
  | case1 => exact .nil
  | case2 a b c d rest point hpoint ih =>
    obtain ⟨hdigits, htoNat⟩ := (unicode?_eq_some_iff _ _).mp hpoint
    have hbody : IsBody closed ([a, b, c, d] ++ rest) := h.of_escape
    exact .unicode hdigits htoNat (ih (hbody.of_hexDigits hdigits))
  | case3 a b c d rest hnone ih =>
    refine .notUnicode ?_ (ih h.of_escape)
    rintro ⟨_, _, _, _, _, hcs, hdigits⟩
    cases hcs
    obtain ⟨point, hpoint⟩ := exists_unicode hdigits
    rw [hnone] at hpoint
    cases hpoint
  | case4 cs hshort ih =>
    refine .notUnicode ?_ (ih h.of_escape)
    rintro ⟨a, b, c, d, rest, hcs, -⟩
    exact hshort a b c d rest hcs
  | case5 c cs hu plain hplain ih =>
    exact .single ((single?_eq_some_iff c plain).mp hplain) (ih h.of_escape)
  | case6 c cs hu hnone ih =>
    exact .other hu ((single?_eq_none_iff c).mp hnone) (ih h.of_escape)
  | case7 c cs _ hescape ih =>
    cases h with
    | plain hquote hbackslash hrest => exact .plain hquote hbackslash (ih hrest)
    | escape hrest => exact absurd rfl (hescape _ _ rfl)
    | truncated hopen => exact .truncated hopen

/-- The body that is cut off a text has one content by the rules, the computed one. -/
theorem decodes_splitLiteral_iff (cs : List Char) (content : Content) :
    Decodes (Piece.splitLiteral cs).2.1 (Piece.splitLiteral cs).1 content
      ↔ content = decode (Piece.splitLiteral cs).1 := by
  constructor
  · exact Decodes.eq_decode
  · rintro rfl
    exact (isBody_splitLiteral cs).decodes

end Escape

end JvmAssembly
