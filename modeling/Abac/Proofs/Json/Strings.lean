import Mathlib.Tactic.IntervalCases
import Abac.Json.Reader

/-!
Strings inside JSON texts. A character is written as itself, with a short escape or as a unit of
four digits, and however it is written it is read as that character. No control character is ever
written as itself.
-/

namespace Abac

namespace Json

/-- A character put in front of what has been read. -/
def onto (c : Char) (read : List Char × List Char) : List Char × List Char :=
  (c :: read.1, read.2)

private theorem bind_onto (c : Char) (read : Option (List Char × List Char)) :
    (do
      let (text, rest) ← read
      return (c :: text, rest)) = read.map (onto c) := by
  cases read <;> rfl

/-- A unit below the surrogates stands for a character by itself, also with another unit behind
it. -/
theorem readString_unit {a b c d : Char} {unit : Nat} (hunit : unit? a b c d = some unit)
    (hlow : unit < 0xD800) (rest : List Char) :
    readString ('\\' :: 'u' :: a :: b :: c :: d :: rest) =
      (readString rest).map (onto (Char.ofNat unit)) := by
  have hnotHigh : isHigh unit = false := by
    simp [isHigh]
    omega
  have hnotLow : isLow unit = false := by
    simp [isLow]
    omega
  rw [readString.eq_def]
  split
  case h_3 heq =>
    -- a second unit follows and is read again with the rest
    cases heq
    simp only [hunit, hnotHigh, hnotLow, Option.bind_eq_bind, Option.bind_some, Bool.false_eq_true,
      if_false]
    exact bind_onto _ _
  case h_4 heq =>
    cases heq
    simp only [hunit, hnotHigh, hnotLow, Option.bind_eq_bind, Option.bind_some, Bool.or_self,
      Bool.false_eq_true, if_false]
    exact bind_onto _ _
  case h_5 hshort heq =>
    cases heq
    exact (hshort _ _ _ _ _ rfl rfl).elim
  case h_6 hbackslash heq =>
    cases heq
    exact (hbackslash _ _ rfl rfl).elim
  all_goals next heq => cases heq

/-- A backslash and a single mark. -/
theorem readString_short {mark c : Char} (hmark : unescape? mark = some c) (rest : List Char) :
    readString ('\\' :: mark :: rest) = (readString rest).map (onto c) := by
  have hunit : mark ≠ 'u' := by
    rintro rfl
    cases hmark
  rw [readString, hmark]
  · exact bind_onto c _
  · intro a b c d a' b' c' d' tail hu
    exact (hunit hu).elim
  · intro a b c d tail hu
    exact (hunit hu).elim

private theorem readString_plain {c : Char} (hquote : c ≠ '"') (hbackslash : c ≠ '\\')
    (hblank : 32 ≤ c.toNat) (rest : List Char) :
    readString (c :: rest) = (readString rest).map (onto c) := by
  rw [readString]
  · rw [if_neg (Nat.not_lt_of_le hblank)]
    exact bind_onto c _
  · exact hquote
  · intro _ _ _ _ _ _ _ _ _ h
    exact (hbackslash h).elim
  · intro _ _ _ _ _ h
    exact (hbackslash h).elim
  · intro _ _ h
    exact (hbackslash h).elim

/-- The ways to write a character inside a string. -/
inductive Escape (c : Char) : List Char → Prop
  | short {mark : Char} : unescape? mark = some c → Escape c ['\\', mark]
  | unit {x y : Char} : unit? '0' '0' x y = some c.toNat → c.toNat < 32 →
      Escape c ['\\', 'u', '0', '0', x, y]
  | plain : c ≠ '"' → c ≠ '\\' → 32 ≤ c.toNat → Escape c [c]

private theorem escape_of_control {code : Nat} (hcontrol : code < 32) :
    Escape (Char.ofNat code) (escape (Char.ofNat code)) := by
  interval_cases code <;> first | exact .short rfl | exact .unit rfl (by decide)

private theorem escape_escape (c : Char) : Escape c (escape c) := by
  rcases Nat.lt_or_ge c.toNat 32 with hcontrol | hblank
  · have hescape := escape_of_control hcontrol
    rwa [Char.ofNat_toNat] at hescape
  · have hne : ∀ control : Char, control.toNat < 32 → c ≠ control := by
      rintro control hcontrol rfl
      exact Nat.not_lt_of_le hblank hcontrol
    by_cases hquote : c = '"'
    · subst hquote
      exact .short rfl
    by_cases hbackslash : c = '\\'
    · subst hbackslash
      exact .short rfl
    have hplain : escape c = [c] := by
      rw [escape, if_neg hquote, if_neg hbackslash, if_neg (hne '\n' (by decide)),
        if_neg (hne '\r' (by decide)), if_neg (hne '\t' (by decide)), if_neg (by omega),
        if_neg (by omega), if_neg (by omega), if_neg (by omega)]
    rw [hplain]
    exact .plain hquote hbackslash hblank

private theorem Escape.readString_append {c : Char} {written : List Char}
    (hescape : Escape c written)
    (rest : List Char) : readString (written ++ rest) = (readString rest).map (onto c) := by
  cases hescape with
  | short hmark => exact readString_short hmark rest
  | unit hunit hcontrol =>
    have hread := readString_unit hunit (Nat.lt_trans hcontrol (by decide)) rest
    rwa [Char.ofNat_toNat] at hread
  | plain hquote hbackslash hblank => exact readString_plain hquote hbackslash hblank rest

/-- Reading a string undoes the escapes, up to the closing quote. -/
theorem readString_escaped (text rest : List Char) :
    readString (text.flatMap escape ++ '"' :: rest) = some (text, rest) := by
  induction text with
  | nil => rw [List.flatMap_nil, List.nil_append, readString]
  | cons c text ih =>
    rw [List.flatMap_cons, List.append_assoc, (escape_escape c).readString_append, ih]
    rfl

/-- No character of the text is a control character below the blank, such as a line end. -/
def Printable (chars : List Char) : Prop := ∀ c ∈ chars, 32 ≤ c.toNat

instance (chars : List Char) : Decidable (Printable chars) :=
  List.decidableBAll (fun c : Char => 32 ≤ c.toNat) chars

theorem Printable.append {chars more : List Char} (hchars : Printable chars)
    (hmore : Printable more) : Printable (chars ++ more) :=
  List.forall_mem_append.2 ⟨hchars, hmore⟩

theorem Printable.cons {c : Char} {chars : List Char} (hc : 32 ≤ c.toNat)
    (hchars : Printable chars) : Printable (c :: chars) :=
  List.forall_mem_cons.2 ⟨hc, hchars⟩

private theorem printable_of_hexValue {c : Char} (hvalue : (Text.hexValue? c).isSome = true) :
    32 ≤ c.toNat := by
  have hle : ∀ first : Char, 32 ≤ first.toNat → first ≤ c → 32 ≤ c.toNat :=
    fun first hfirst hc => Nat.le_trans hfirst hc
  unfold Text.hexValue? at hvalue
  split at hvalue
  · next hdigit => exact hle '0' (by decide) hdigit.1
  · split at hvalue
    · next hletter => exact hle 'a' (by decide) hletter.1
    · split at hvalue
      · next hletter => exact hle 'A' (by decide) hletter.1
      · cases hvalue

private theorem isSome_hexValue_of_unit {x y : Char} {unit : Nat}
    (hunit : unit? '0' '0' x y = some unit) :
    (Text.hexValue? x).isSome = true ∧ (Text.hexValue? y).isSome = true := by
  unfold unit? at hunit
  cases hx : Text.hexValue? x <;> cases hy : Text.hexValue? y <;> simp_all

private theorem printable_of_unescape {mark c : Char} (hmark : unescape? mark = some c) :
    32 ≤ mark.toNat := by
  unfold unescape? at hmark
  split at hmark <;> first | decide | cases hmark

private theorem Escape.printable {c : Char} {written : List Char} (hescape : Escape c written) :
    Printable written := by
  cases hescape with
  | short hmark => simpa [Printable] using printable_of_unescape hmark
  | unit hunit hcontrol =>
    obtain ⟨hx, hy⟩ := isSome_hexValue_of_unit hunit
    simp [Printable, printable_of_hexValue hx, printable_of_hexValue hy]
  | plain hquote hbackslash hblank => simpa [Printable] using hblank

theorem printable_quoted (text : List Char) : Printable (quoted text) := by
  have hescaped : Printable (text.flatMap escape) := by
    intro d hd
    obtain ⟨c, -, hc⟩ := List.mem_flatMap.1 hd
    exact (escape_escape c).printable d hc
  exact .cons (by decide) (hescaped.append (by simp [Printable]))

end Json

end Abac
