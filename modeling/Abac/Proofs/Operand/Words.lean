import Mathlib.Data.List.TakeDrop
import Abac.Operand.Basic
import Abac.Proofs.Text.Trim

/-!
Words among operands. A text that spells no number is compared as it is, and it is never
compared like an undefined operand: under every known operator some text tells the two apart.
-/

namespace Abac

namespace Operand

/-- No numeral begins with a character that is no blank, digit, sign or point. -/
theorem numeral?_eq_none {c : Char} (hblank : isNumericBlank c = false)
    (hdigit : c.isDigit = false) (hsign : c ≠ '-' ∧ c ≠ '+') (hpoint : c ≠ '.')
    (rest : List Char) : numeral? (c :: rest) = none := by
  obtain ⟨tail, htail⟩ := Text.trim_cons_of_kept hblank rest
  have hzero : c ≠ '0' := by
    rintro rfl
    cases hdigit
  have hsigned : Decimal.signed (c :: tail) = (false, c :: tail) := by
    unfold Decimal.signed
    split <;> simp_all
  have hspan : Decimal.spanDigits (c :: tail) = ([], c :: tail) := by
    simp [Decimal.spanDigits, List.span_eq_takeWhile_dropWhile, hdigit]
  have hfraction : Decimal.fractionPart (c :: tail) = ([], c :: tail) := by
    unfold Decimal.fractionPart
    split <;> simp_all
  have hdecimal : decimal? (c :: tail) = none := by
    simp [decimal?, hsigned, hspan, hfraction]
  have hspelled : spelled? (c :: rest) = none := by
    unfold spelled?
    rw [htail]
    simp [hzero, hdecimal]
  rw [numeral?, hspelled, Option.bind_none]

theorem compareBytes_self (bytes : List UInt8) : compareBytes bytes bytes = .eq := by
  induction bytes with
  | nil => rfl
  | cons byte rest ih => simp [compareBytes, ih]

private theorem compareBytes_append_gt (bytes : List UInt8) (byte : UInt8) (more : List UInt8) :
    compareBytes (bytes ++ byte :: more) bytes = .gt := by
  induction bytes with
  | nil => rfl
  | cons first rest ih => simp [compareBytes, ih]

theorem pair_eq_values {left right : Operand} (hright : right.toNumber? = none)
    (hbools : (left.isBool || right.isBool) = false) : pair left right = .values left right := by
  unfold pair
  rw [hright, hbools]
  simp

private theorem exists_encoding_eq_cons {text : String} (hsome : text ≠ "") :
    ∃ byte rest, encoding text = byte :: rest := by
  have hchars : text.toList ≠ [] := by simpa using hsome
  obtain ⟨c, chars, hcons⟩ := List.exists_cons_of_ne_nil hchars
  have hbytes : String.utf8EncodeChar c ≠ [] := by
    intro hempty
    have hlength := String.length_utf8EncodeChar c
    rw [hempty, List.length_nil] at hlength
    exact absurd hlength.symm (Nat.ne_of_gt (Char.utf8Size_pos c))
  obtain ⟨byte, bytes, hbyte⟩ := List.exists_cons_of_ne_nil hbytes
  refine ⟨byte, bytes ++ chars.flatMap String.utf8EncodeChar, ?_⟩
  simp [encoding, hcons, hbyte]

end Operand

namespace Operator

open Operand

variable {op : Operator} {text : String}

private theorem holds_undefined (op : Operator) (left : String) :
    op.holds (some (.string left)) none = true ↔ op = .neq := by
  have hpair : pair (some (.string left)) none = .values (some (.string left)) none :=
    pair_eq_values rfl rfl
  cases op <;> simp [holds, hpair, Pair.equal, Pair.order?, Operand.equal, Operand.order?]

private theorem ne_undefined_of_holds {left : String} {right : Operand} (hop : op ≠ .neq)
    (hholds : op.holds (some (.string left)) right = true) :
    op.holds (some (.string left)) right ≠ op.holds (some (.string left)) none := by
  intro hsame
  rw [hsame, holds_undefined] at hholds
  exact hop hholds

/-- Every known operator tells a word from an undefined operand: by the word itself, or by a text
that comes after it or before it. -/
theorem exists_holds_ne_undefined (hknown : op.isKnown = true)
    (hword : numeral? text.toList = none) :
    ∃ left : String, op.holds (some (.string left)) (some (.string text)) ≠
      op.holds (some (.string left)) none := by
  have hpair : ∀ left : String, pair (some (.string left)) (some (.string text)) =
      .values (some (.string left)) (some (.string text)) := by
    intro left
    exact pair_eq_values hword rfl
  have hself : compareBytes (encoding text) (encoding text) = .eq := compareBytes_self _
  cases op with
  | eq =>
    refine ⟨text, ne_undefined_of_holds (by simp) ?_⟩
    simp [holds, hpair, Pair.equal, Operand.equal, Json.equal]
  | neq =>
    refine ⟨text, ?_⟩
    rw [(holds_undefined .neq text).2 rfl]
    simp [holds, hpair, Pair.equal, Operand.equal, Json.equal]
  | gt =>
    have hafter : compareBytes (encoding (text ++ "x")) (encoding text) = .gt := by
      have happend : encoding (text ++ "x") = encoding text ++ encoding "x" := by
        simp [encoding]
      rw [happend]
      exact compareBytes_append_gt _ _ _
    refine ⟨text ++ "x", ne_undefined_of_holds (by simp) ?_⟩
    simp [holds, hpair, Pair.order?, Operand.order?, hafter]
  | lt =>
    have hsome : text ≠ "" := by
      rintro rfl
      cases hword
    obtain ⟨byte, rest, hbytes⟩ := exists_encoding_eq_cons hsome
    have hbefore : compareBytes (encoding "") (encoding text) = .lt := by
      rw [hbytes]
      rfl
    refine ⟨"", ne_undefined_of_holds (by simp) ?_⟩
    simp [holds, hpair, Pair.order?, Operand.order?, hbefore]
  | gte =>
    refine ⟨text, ne_undefined_of_holds (by simp) ?_⟩
    simp [holds, hpair, Pair.order?, Operand.order?, hself]
  | lte =>
    refine ⟨text, ne_undefined_of_holds (by simp) ?_⟩
    simp [holds, hpair, Pair.order?, Operand.order?, hself]
  | unknown name => cases hknown

end Operator

end Abac
