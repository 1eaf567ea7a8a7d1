/-!
Texts as lists of characters: blanks, hexadecimal digits, and cutting a text at every place where
a mark stands.
-/

namespace Abac.Text

/-- The twenty-five characters with the property White_Space. -/
def isBlank (c : Char) : Bool :=
  let code := c.toNat
  (9 ≤ code && code ≤ 13) || code = 0x20 || code = 0x85 || code = 0xA0 || code = 0x1680 ||
  (0x2000 ≤ code && code ≤ 0x200A) || code = 0x2028 || code = 0x2029 || code = 0x202F ||
  code = 0x205F || code = 0x3000

/-- Has a text no character but blanks? -/
def allBlank (text : String) : Bool := text.toList.all isBlank

/-- A text without the characters of a class at its two ends. -/
def trim (drops : Char → Bool) (chars : List Char) : List Char :=
  ((chars.dropWhile drops).reverse.dropWhile drops).reverse

/-- The value of a hexadecimal digit in either case. -/
def hexValue? (c : Char) : Option Nat :=
  if '0' ≤ c ∧ c ≤ '9' then some (c.toNat - '0'.toNat)
  else if 'a' ≤ c ∧ c ≤ 'f' then some (c.toNat - 'a'.toNat + 10)
  else if 'A' ≤ c ∧ c ≤ 'F' then some (c.toNat - 'A'.toNat + 10)
  else none

def isHexDigit (c : Char) : Bool := (hexValue? c).isSome

/-- The parts between the marks. There is always one part, and one more than there are marks. -/
def split (mark : Char) : List Char → List (List Char)
  | [] => [[]]
  | c :: rest =>
    if c = mark then
      [] :: split mark rest
    else
      match split mark rest with
      | [] => [[c]]
      | part :: parts => (c :: part) :: parts

theorem split_ne_nil (mark : Char) (chars : List Char) : split mark chars ≠ [] := by
  cases chars with
  | nil => simp [split]
  | cons c rest =>
    simp only [split]
    split
    · simp
    · split <;> simp

/-- Every mark ends a part. -/
theorem split_append_mark (mark : Char) (front rest : List Char) :
    split mark (front ++ mark :: rest) = split mark front ++ split mark rest := by
  induction front with
  | nil => simp [split]
  | cons c front ih =>
    rw [List.cons_append, split, split, ih]
    split
    · rfl
    · cases hparts : split mark front with
      | nil => exact absurd hparts (split_ne_nil mark front)
      | cons part parts => rfl

theorem split_of_notMem {mark : Char} {part : List Char} (hpart : mark ∉ part) :
    split mark part = [part] := by
  induction part with
  | nil => rfl
  | cons c part ih =>
    rw [List.mem_cons, not_or] at hpart
    rw [split, if_neg (Ne.symm hpart.1), ih hpart.2]

/-- The first mark ends the first part. -/
theorem split_append {mark : Char} {part : List Char} (hpart : mark ∉ part) (rest : List Char) :
    split mark (part ++ mark :: rest) = part :: split mark rest := by
  rw [split_append_mark, split_of_notMem hpart, List.singleton_append]

theorem notMem_of_mem_split {mark : Char} {chars part : List Char}
    (hpart : part ∈ split mark chars) : mark ∉ part := by
  induction chars generalizing part with
  | nil =>
    rw [split, List.mem_singleton] at hpart
    simp [hpart]
  | cons c rest ih =>
    rw [split] at hpart
    split at hpart
    · rcases List.mem_cons.1 hpart with rfl | hrest
      · exact List.not_mem_nil
      · exact ih hrest
    · next hother =>
      cases hparts : split mark rest with
      | nil => exact absurd hparts (split_ne_nil mark rest)
      | cons first parts =>
        simp only [hparts] at hpart ih
        rcases List.mem_cons.1 hpart with rfl | hlater
        · rw [List.mem_cons, not_or]
          exact ⟨Ne.symm hother, ih List.mem_cons_self⟩
        · exact ih (List.mem_cons_of_mem _ hlater)

/-- Joins parts with a mark between them. -/
def join (mark : Char) : List (List Char) → List Char
  | [] => []
  | [part] => part
  | part :: parts => part ++ mark :: join mark parts

theorem join_eq_intercalate (mark : Char) (parts : List (List Char)) :
    join mark parts = [mark].intercalate parts := by
  induction parts with
  | nil => rfl
  | cons part rest ih =>
    cases rest with
    | nil => simp [join]
    | cons next rest => simp [join, ih]

theorem join_split (mark : Char) (chars : List Char) : join mark (split mark chars) = chars := by
  induction chars with
  | nil => rfl
  | cons c rest ih =>
    simp only [split]
    split
    · next h =>
      subst h
      cases hparts : split c rest with
      | nil => exact absurd hparts (split_ne_nil c rest)
      | cons part parts =>
        rw [hparts] at ih
        simp [join, ih]
    · cases hparts : split mark rest with
      | nil => exact absurd hparts (split_ne_nil mark rest)
      | cons part parts =>
        rw [hparts] at ih
        cases parts with
        | nil => simpa [join] using ih
        | cons next parts => simpa [join] using ih

/-- What stands before and behind the first mark is determined by the text. -/
theorem append_mark_inj {mark : Char} {part part' rest rest' : List Char} (hpart : mark ∉ part)
    (hpart' : mark ∉ part') (hsame : part ++ mark :: rest = part' ++ mark :: rest') :
    part = part' ∧ rest = rest' := by
  have hsplit : part :: split mark rest = part' :: split mark rest' := by
    rw [← split_append hpart, ← split_append hpart', hsame]
  obtain ⟨hfirst, hrest⟩ := List.cons.inj hsplit
  refine ⟨hfirst, ?_⟩
  rw [← join_split mark rest, hrest, join_split]

def startsWith (head text : String) : Bool := head.toList.isPrefixOf text.toList

end Abac.Text
