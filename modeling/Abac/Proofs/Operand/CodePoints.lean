import Mathlib.Data.Set.Pairwise.Basic
import Mathlib.Order.RelIso.Basic
import Abac.Proofs.Operand.Order

/-!
The order of texts by code points. Texts are ordered by their encodings, byte by byte. The first
byte of a character tells how many follow, it grows with their number, and bytes of one length
are the digits of the code point in base 64; so an encoding comes before another just when the
code points do, and this is the order of all texts that are compared as they are.
-/

namespace Abac

namespace Operand

/-- How many bytes follow the first one in the encoding of a code point. -/
def tailLength (point : Nat) : Nat :=
  if point < 0x80 then 0 else if point < 0x800 then 1 else if point < 0x10000 then 2 else 3

/-- What the first byte of an encoding holds besides the first digit. -/
def leadMark : Nat → Nat
  | 0 => 0
  | 1 => 0xC0
  | 2 => 0xE0
  | _ => 0xF0

def leadByte (point : Nat) : Nat :=
  leadMark (tailLength point) + point / Nat.pow 64 (tailLength point)

/-- The last digits of a code point in base 64, each with the mark of a byte that follows. -/
def tailBytes : Nat → Nat → List UInt8
  | 0, _ => []
  | count + 1, point => UInt8.ofNat (0x80 + point / Nat.pow 64 count % 64) :: tailBytes count point

private theorem char_toNat_lt (c : Char) : c.toNat < 0x110000 := by
  rcases c.valid with hlow | ⟨_, hhigh⟩
  · exact Nat.lt_trans hlow (by decide)
  · exact hhigh

/-- The four lengths of an encoding, with the code points of each. -/
theorem tailLength_cases {point : Nat} (hlt : point < 0x110000) :
    (tailLength point = 0 ∧ point < 0x80) ∨
    (tailLength point = 1 ∧ 0x80 ≤ point ∧ point < 0x800) ∨
    (tailLength point = 2 ∧ 0x800 ≤ point ∧ point < 0x10000) ∨
    (tailLength point = 3 ∧ 0x10000 ≤ point ∧ point < 0x110000) := by
  unfold tailLength
  grind

private theorem utf8EncodeChar_eq (c : Char) : String.utf8EncodeChar c =
    UInt8.ofNat (leadByte c.toNat) :: tailBytes (tailLength c.toNat) c.toNat := by
  have hpoint : c.val.toNat = c.toNat := rfl
  unfold String.utf8EncodeChar leadByte
  rw [hpoint]
  rcases tailLength_cases (char_toNat_lt c) with
    ⟨hlength, hlt⟩ | ⟨hlength, hle, hlt⟩ | ⟨hlength, hle, hlt⟩ | ⟨hlength, hle, hlt⟩
  · rw [if_pos (by omega), hlength]
    simp [leadMark, tailBytes]
  · rw [if_neg (by omega), if_pos (by omega), hlength]
    have hlead : c.toNat / 64 % 32 + 0xC0 = 0xC0 + c.toNat / 64 := by omega
    simp [leadMark, tailBytes, hlead, Nat.add_comm 128]
  · rw [if_neg (by omega), if_neg (by omega), if_pos (by omega), hlength]
    have hlead : c.toNat / 4096 % 16 + 0xE0 = 0xE0 + c.toNat / 4096 := by omega
    simp [leadMark, tailBytes, hlead, Nat.add_comm 128]
  · rw [if_neg (by omega), if_neg (by omega), if_neg (by omega), hlength]
    have hlead : c.toNat / 262144 % 8 + 0xF0 = 0xF0 + c.toNat / 262144 := by omega
    simp [leadMark, tailBytes, hlead, Nat.add_comm 128]

private theorem compareBytes_cons_of_lt {m n : Nat} (hlt : m < n) (hbyte : n < 256)
    (as bs : List UInt8) :
    compareBytes (UInt8.ofNat m :: as) (UInt8.ofNat n :: bs) = .lt := by
  have hfirst : compare (UInt8.ofNat m) (UInt8.ofNat n) = .lt := by
    rw [UInt8.compare_eq_toNat_compare_toNat, UInt8.toNat_ofNat_of_lt' (Nat.lt_trans hlt hbyte),
      UInt8.toNat_ofNat_of_lt' hbyte, Nat.compare_eq_lt]
    exact hlt
  rw [compareBytes, hfirst]
  rfl

private theorem compareBytes_append_left (common as bs : List UInt8) :
    compareBytes (common ++ as) (common ++ bs) = compareBytes as bs := by
  induction common with
  | nil => rfl
  | cons byte rest ih => simp [compareBytes, ih]

/-- The first digit of two numbers decides, and where it is the same the rest does. -/
theorem div_lt_or_mod_lt {v w : Nat} (hlt : v < w) (base : Nat) :
    v / base < w / base ∨ v / base = w / base ∧ v % base < w % base := by
  rcases Nat.lt_or_eq_of_le (Nat.div_le_div_right hlt.le) with hless | hsame
  · exact Or.inl hless
  · rw [← Nat.mod_add_div v base, ← Nat.mod_add_div w base, hsame] at hlt
    exact Or.inr ⟨hsame, Nat.lt_of_add_lt_add_right hlt⟩

/-- Digits of one length are ordered as the numbers that they write. -/
theorem compareBytes_tailBytes {count v w : Nat} (hlt : v % Nat.pow 64 count < w % Nat.pow 64 count)
    (as bs : List UInt8) :
    compareBytes (tailBytes count v ++ as) (tailBytes count w ++ bs) = .lt := by
  induction count with
  | zero => simp [Nat.mod_one] at hlt
  | succ count ih =>
    have hpow : Nat.pow 64 (count + 1) = Nat.pow 64 count * 64 := rfl
    have hdigits := div_lt_or_mod_lt hlt (Nat.pow 64 count)
    simp only [hpow, Nat.mod_mul_right_div_self, Nat.mod_mul_right_mod] at hdigits
    simp only [tailBytes, List.cons_append]
    rcases hdigits with hless | ⟨hsame, hless⟩
    · have hdigit : w / Nat.pow 64 count % 64 < 64 := Nat.mod_lt _ (by decide)
      exact compareBytes_cons_of_lt (Nat.add_lt_add_left hless _) (by omega) _ _
    · rw [hsame, compareBytes, Std.compare_self, Ordering.then, ih hless]

/-- The first byte grows with the number of bytes that follow it. -/
theorem leadByte_lt_of_tailLength_lt {v w : Nat} (hv : v < 0x110000) (hw : w < 0x110000)
    (hlength : tailLength v < tailLength w) : leadByte v < leadByte w := by
  unfold leadByte
  rcases tailLength_cases hv with ⟨h, hv⟩ | ⟨h, hv⟩ | ⟨h, hv⟩ | ⟨h, hv⟩ <;>
    rcases tailLength_cases hw with ⟨h', hw⟩ | ⟨h', hw⟩ | ⟨h', hw⟩ | ⟨h', hw⟩ <;>
    rw [h, h'] at hlength ⊢ <;> simp only [leadMark, Nat.pow_eq] <;> omega

private theorem leadByte_lt {point : Nat} (hlt : point < 0x110000) : leadByte point < 256 := by
  unfold leadByte
  rcases tailLength_cases hlt with ⟨h, hle⟩ | ⟨h, hle⟩ | ⟨h, hle⟩ | ⟨h, hle⟩ <;>
    rw [h] <;> simp only [leadMark, Nat.pow_eq] <;> omega

private theorem tailLength_le_of_lt {v w : Nat} (hlt : v < w) (hw : w < 0x110000) :
    tailLength v ≤ tailLength w := by
  rcases tailLength_cases (Nat.lt_trans hlt hw) with h | h | h | h <;>
    rcases tailLength_cases hw with h' | h' | h' | h' <;> omega

/-- A character with a smaller code point comes first, whatever follows the two. -/
theorem compareBytes_utf8EncodeChar {c d : Char} (hlt : c.toNat < d.toNat) (as bs : List UInt8) :
    compareBytes (String.utf8EncodeChar c ++ as) (String.utf8EncodeChar d ++ bs) = .lt := by
  have hbyte : leadByte d.toNat < 256 := leadByte_lt (char_toNat_lt d)
  rw [utf8EncodeChar_eq, utf8EncodeChar_eq, List.cons_append, List.cons_append]
  rcases Nat.lt_or_eq_of_le (tailLength_le_of_lt hlt (char_toNat_lt d)) with hshorter | hlength
  · -- the first bytes tell two lengths apart
    have hlead := leadByte_lt_of_tailLength_lt (char_toNat_lt c) (char_toNat_lt d) hshorter
    exact compareBytes_cons_of_lt hlead hbyte _ _
  · -- with one length the first byte holds the first digit, and the others follow it
    rcases div_lt_or_mod_lt hlt (Nat.pow 64 (tailLength d.toNat)) with hless | ⟨hsame, hless⟩
    · refine compareBytes_cons_of_lt ?_ hbyte _ _
      rw [leadByte, leadByte, hlength]
      exact Nat.add_lt_add_left hless _
    · have hlead : leadByte c.toNat = leadByte d.toNat := by
        rw [leadByte, leadByte, hlength, hsame]
      rw [hlead, hlength, compareBytes, Std.compare_self, Ordering.then,
        compareBytes_tailBytes hless]

/-- The code points of a text. -/
def codePoints (text : String) : List Nat := text.toList.map Char.toNat

private theorem compareBytes_flatMap (cs ds : List Char) :
    compareBytes (cs.flatMap String.utf8EncodeChar) (ds.flatMap String.utf8EncodeChar) =
      compare (cs.map Char.toNat) (ds.map Char.toNat) := by
  induction cs generalizing ds with
  | nil =>
    cases ds with
    | nil => rfl
    | cons d ds =>
      rw [List.flatMap_cons, utf8EncodeChar_eq]
      rfl
  | cons c cs ih =>
    cases ds with
    | nil =>
      rw [List.flatMap_cons, utf8EncodeChar_eq]
      rfl
    | cons d ds =>
      simp only [List.flatMap_cons, List.map_cons, List.compare_cons_cons]
      rcases Nat.lt_trichotomy c.toNat d.toNat with hless | hsame | hmore
      · rw [compareBytes_utf8EncodeChar hless, Nat.compare_eq_lt.2 hless]
        rfl
      · rw [Char.toNat_inj.1 hsame, compareBytes_append_left, ih, Std.compare_self]
        rfl
      · rw [← compareBytes_swap, compareBytes_utf8EncodeChar hmore, Nat.compare_eq_gt.2 hmore]
        rfl

private theorem order?_strings (a b : String) :
    order? (some (.string a)) (some (.string b)) = some (compare (codePoints a) (codePoints b)) :=
  congrArg some (compareBytes_flatMap a.toList b.toList)

private theorem codePoints_inj {a b : String} : codePoints a = codePoints b ↔ a = b := by
  constructor
  · intro hsame
    exact String.toList_inj.1 ((List.map_inj_right (fun _ _ => Char.toNat_inj.1)).1 hsame)
  · rintro rfl
    rfl

private theorem compare_eq_lt_iff {as bs : List Nat} : compare as bs = .lt ↔ as < bs := by
  induction as generalizing bs with
  | nil => cases bs <;> simp
  | cons a as ih =>
    cases bs with
    | nil => simp
    | cons b bs =>
      rw [List.compare_cons_cons, Ordering.then_eq_lt, Nat.compare_eq_lt, Nat.compare_eq_eq, ih,
        List.cons_lt_cons_iff]

private theorem compare_eq_gt_iff {as bs : List Nat} : compare as bs = .gt ↔ bs < as := by
  rw [Std.OrientedOrd.eq_swap, Ordering.swap_eq_gt, compare_eq_lt_iff]

private theorem codePoints_trichotomy (a b : String) :
    codePoints a < codePoints b ∨ a = b ∨ codePoints b < codePoints a := by
  cases hcompare : compare (codePoints a) (codePoints b) with
  | lt => exact Or.inl (compare_eq_lt_iff.1 hcompare)
  | eq => exact Or.inr (Or.inl (codePoints_inj.1 (Std.compare_eq_iff_eq.1 hcompare)))
  | gt => exact Or.inr (Or.inr (compare_eq_gt_iff.1 hcompare))

/-- The text spells a finite number. -/
def Numeric (text : String) : Prop := (toNumber? (some (.string text))).isSome = true

/-- Not both texts spell numbers. -/
def AsTheyAre (a b : String) : Prop := ¬ (Numeric a ∧ Numeric b)

private theorem pair_strings_eq_values_iff {a b : String} :
    pair (some (.string a)) (some (.string b)) = .values (some (.string a)) (some (.string b)) ↔
      AsTheyAre a b := by
  unfold pair AsTheyAre Numeric
  cases toNumber? (some (.string a)) <;> cases toNumber? (some (.string b)) <;> simp [isBool]

end Operand

namespace Operator

open Operand

variable {a b : String}

private theorem not_lt_self (operand : Operand) : lt.holds operand operand = false := by
  cases horder : (pair operand operand).order? with
  | none => exact holds_of_no_order horder (by simp)
  | some order =>
    obtain rfl := (Pair.order?_eq_some_eq horder).2 (equal_pair_self operand)
    simp [holds, horder]

private theorem order?_of_asTheyAre (hraw : AsTheyAre a b) :
    (pair (some (.string a)) (some (.string b))).order? =
      some (compare (codePoints a) (codePoints b)) := by
  rw [pair_strings_eq_values_iff.2 hraw]
  exact order?_strings a b

private theorem lt_iff_of_asTheyAre (hraw : AsTheyAre a b) :
    lt.holds (some (.string a)) (some (.string b)) = true ↔ codePoints a < codePoints b := by
  simp [holds, order?_of_asTheyAre hraw, compare_eq_lt_iff]

private theorem gt_iff_of_asTheyAre (hraw : AsTheyAre a b) :
    gt.holds (some (.string a)) (some (.string b)) = true ↔ codePoints b < codePoints a := by
  simp [holds, order?_of_asTheyAre hraw, compare_eq_gt_iff]

private theorem eq_iff_of_asTheyAre (hraw : AsTheyAre a b) :
    eq.holds (some (.string a)) (some (.string b)) = true ↔ a = b := by
  simp [holds, pair_strings_eq_values_iff.2 hraw, Pair.equal, Operand.equal, Json.equal]

private theorem isStrictTotalOrder_codePoints :
    IsStrictTotalOrder String (fun a b => codePoints a < codePoints b) where
  trichotomous a b hnotLess hnotMore := by
    rcases codePoints_trichotomy a b with hless | hsame | hmore
    · exact absurd hless hnotLess
    · exact hsame
    · exact absurd hmore hnotMore
  irrefl _ := List.lt_irrefl _
  trans _ _ _ hfirst hsecond := List.lt_trans hfirst hsecond

section Collections

variable {texts : Set String}

/-- A text that spells a number may be compared with itself as a number, which changes nothing. -/
theorem lt_iff_of_mem (hraw : texts.Pairwise AsTheyAre) (ha : a ∈ texts) (hb : b ∈ texts) :
    lt.holds (some (.string a)) (some (.string b)) = true ↔ codePoints a < codePoints b := by
  rcases eq_or_ne a b with rfl | hne
  · simp [not_lt_self]
  · exact lt_iff_of_asTheyAre (hraw ha hb hne)

private theorem eq_iff_of_mem (hraw : texts.Pairwise AsTheyAre) (ha : a ∈ texts) (hb : b ∈ texts) :
    eq.holds (some (.string a)) (some (.string b)) = true ↔ a = b := by
  rcases eq_or_ne a b with rfl | hne
  · simp [holds, equal_pair_self]
  · exact eq_iff_of_asTheyAre (hraw ha hb hne)

/-- Less embeds a collection of texts into the order of code points. -/
def ltEmbedding (hraw : texts.Pairwise AsTheyAre) :
    RelEmbedding (fun a b : texts => lt.holds (some (.string a)) (some (.string b)) = true)
      (fun a b => codePoints a < codePoints b) where
  toFun := Subtype.val
  inj' := Subtype.val_injective
  map_rel_iff' := fun {a b} => (lt_iff_of_mem hraw a.2 b.2).symm

end Collections

/-- Texts have the order of their code points. Comparing the encodings byte by byte is comparing the
code points one by one, whatever the lengths of the encodings are and also where one text begins
with the other. Two texts that do not both spell numbers are compared this way, and are equal only
when they are the same text. On a collection of texts no two of which both spell numbers, less is a
strict total order, and equality holds just where neither text is less. -/
theorem texts_are_ordered_by_code_points :
    (∀ a b : String, order? (some (.string a)) (some (.string b)) =
      some (compare (codePoints a) (codePoints b))) ∧
    (∀ a b : String, AsTheyAre a b →
      (lt.holds (some (.string a)) (some (.string b)) = true ↔ codePoints a < codePoints b) ∧
      (gt.holds (some (.string a)) (some (.string b)) = true ↔ codePoints b < codePoints a) ∧
      (eq.holds (some (.string a)) (some (.string b)) = true ↔ a = b)) ∧
    (∀ texts : Set String, texts.Pairwise AsTheyAre →
      IsStrictTotalOrder texts
        (fun a b => lt.holds (some (.string a)) (some (.string b)) = true) ∧
      ∀ a ∈ texts, ∀ b ∈ texts, (eq.holds (some (.string a)) (some (.string b)) = true ↔
        lt.holds (some (.string a)) (some (.string b)) = false ∧
        lt.holds (some (.string b)) (some (.string a)) = false)) := by
  refine ⟨order?_strings, ?pairs, ?collections⟩
  case pairs =>
    intro a b hraw
    exact ⟨lt_iff_of_asTheyAre hraw, gt_iff_of_asTheyAre hraw, eq_iff_of_asTheyAre hraw⟩
  case collections =>
    intro texts hraw
    have htotal : IsStrictTotalOrder String (fun a b => codePoints a < codePoints b) :=
      isStrictTotalOrder_codePoints
    refine ⟨(ltEmbedding hraw).isStrictTotalOrder, ?_⟩
    intro a ha b hb
    rw [eq_iff_of_mem hraw ha hb, ← Bool.not_eq_true, ← Bool.not_eq_true,
      lt_iff_of_mem hraw ha hb, lt_iff_of_mem hraw hb ha]
    constructor
    · rintro rfl
      exact ⟨List.lt_irrefl _, List.lt_irrefl _⟩
    · rintro ⟨hnotLess, hnotMore⟩
      exact htotal.trichotomous a b hnotLess hnotMore

/-- Characters with encodings of one, two, three and four bytes, and one number among them. -/
theorem texts_of_all_lengths_are_ordered :
    ({"10", "z", "é", "€", "😀", "😀😀"} : Set String).Pairwise AsTheyAre ∧
    IsStrictTotalOrder ({"10", "z", "é", "€", "😀", "😀😀"} : Set String)
      (fun a b => lt.holds (some (.string a)) (some (.string b)) = true) ∧
    AsTheyAre "€" "😀" ∧ lt.holds (some (.string "€")) (some (.string "😀")) = true := by
  have hwords : ∀ text ∈ ["z", "é", "€", "😀", "😀😀"], ¬ Numeric text := by
    unfold Numeric
    decide +kernel
  have hraw : ({"10", "z", "é", "€", "😀", "😀😀"} : Set String).Pairwise AsTheyAre := by
    intro a ha b hb hne hnumeric
    have ha' : a = "10" ∨ a ∈ ["z", "é", "€", "😀", "😀😀"] := by simpa using ha
    have hb' : b = "10" ∨ b ∈ ["z", "é", "€", "😀", "😀😀"] := by simpa using hb
    rcases ha' with rfl | hword
    · rcases hb' with rfl | hword
      · exact hne rfl
      · exact hwords b hword hnumeric.2
    · exact hwords a hword hnumeric.1
  have hpair : AsTheyAre "€" "😀" := fun hnumeric => hwords "€" (by simp) hnumeric.1
  obtain ⟨-, hpairs, hcollections⟩ := texts_are_ordered_by_code_points
  exact ⟨hraw, (hcollections _ hraw).1, hpair, (hpairs "€" "😀" hpair).1.2 (by decide)⟩

/-- With two numbers in the collection the chain can break: they are not ordered as their texts. -/
example : lt.holds (some (.string "10")) (some (.string "1x")) = true ∧
    lt.holds (some (.string "1x")) (some (.string "9")) = true ∧
    lt.holds (some (.string "10")) (some (.string "9")) = false := by decide +kernel

end Operator

end Abac
