import Abac.Proofs.Json.Strings
import Abac.Proofs.Operand.Printed

/-!
Reading JSON texts that were printed. The reader gives back every printed value, whatever text
stands behind it; only the fields of its objects come back in the order of their keys. Doubles are
left aside here, and so are whole numbers beyond 64 bits, which come back as doubles.
-/

namespace Abac

open Operand

namespace Decimal

private theorem head_digitChars {value : Nat} (hpos : 0 < value) :
    (digitChars value).head? ≠ some '0' := by
  induction value using Nat.strongRecOn with
  | ind value ih =>
    rcases Nat.lt_or_ge value 10 with hdigit | hmore
    · rw [digitChars, Nat.toDigits_of_lt_base hdigit]
      interval_cases value <;> decide
    · obtain ⟨c, hc⟩ := Option.isSome_iff_exists.1
        (List.isSome_head?.2 (Operand.digitChars_ne_nil (value / 10)))
      have hfirst := ih (value / 10) (by omega) (by omega)
      rw [hc] at hfirst
      rw [digitChars] at hc
      rw [digitChars, Nat.toDigits_of_base_le (by decide) hmore, List.head?_append, hc]
      exact hfirst

/-- No number is written with a needless zero in front. -/
theorem eq_nil_of_digitChars {value : Nat} {digits : List Char}
    (hdigits : digitChars value = '0' :: digits) : digits = [] := by
  rcases Nat.eq_zero_or_pos value with rfl | hpos
  · exact (List.cons.inj hdigits).2.symm
  · exact (head_digitChars hpos (congrArg List.head? hdigits)).elim

private theorem exists_digitChars_eq_cons (value : Nat) :
    ∃ c digits, digitChars value = c :: digits ∧ c.isDigit = true := by
  obtain ⟨c, digits, hcons⟩ := List.exists_cons_of_ne_nil (digitChars_ne_nil value)
  exact ⟨c, digits, hcons, digits_digitChars value c (by simp [hcons])⟩

end Decimal

namespace Json

/-- What may stand behind a number. -/
def EndsNumber (rest : List Char) : Prop :=
  ∀ c ∈ rest.head?, c.isDigit = false ∧ c ≠ '.' ∧ c ≠ 'e' ∧ c ≠ 'E'

private theorem readUnsigned_digits {value : Nat} {negative : Bool} {number : Number}
    {rest : List Char}
    (hnumber : ofDigits? negative (Decimal.digitChars value) = some number)
    (hrest : EndsNumber rest) :
    readUnsigned negative (Decimal.digitChars value ++ rest) = some (number, rest) := by
  have hspan : Decimal.spanDigits (Decimal.digitChars value ++ rest) =
      (Decimal.digitChars value, rest) :=
    spanDigits_append (digits_digitChars value) fun c hc => (hrest c hc).1
  unfold readUnsigned
  rw [hspan]
  split
  case h_1 heq => exact absurd (congrArg Prod.fst heq) (digitChars_ne_nil value)
  case h_2 heq => cases Decimal.eq_nil_of_digitChars (congrArg Prod.fst heq)
  case h_3 heq =>
    cases heq
    exact absurd rfl (hrest '.' rfl).2.1
  case h_4 mark _ _ _ _ heq =>
    cases heq
    have hmark : ¬ (mark = 'e' ∨ mark = 'E') := not_or.2 (hrest mark rfl).2.2
    rw [if_neg hmark, hnumber]
    rfl
  case h_5 heq =>
    cases heq
    rw [hnumber]
    rfl

/-- A whole number within 64 bits, which is read as it is. -/
def Within64 : Number → Prop
  | .int value => -(Nat.pow 2 63 : Int) ≤ value ∧ value < (Nat.pow 2 64 : Int)
  | .real _ => False

private theorem ofDigits?_negative {value : Int} (hnegative : value < 0)
    (hlow : -(Nat.pow 2 63 : Int) ≤ value) :
    ofDigits? true (Decimal.digitChars value.natAbs) = some (.int value) := by
  have hkept : ¬ (value.natAbs = 0 ∨ Nat.pow 2 63 < value.natAbs) := by omega
  have hvalue : -(value.natAbs : Int) = value := by omega
  simp only [ofDigits?, Decimal.ofDigitChars_digitChars, Bool.true_and, Bool.not_true,
    Bool.false_and, Bool.or_false, ← Bool.decide_or, decide_eq_true_eq]
  rw [if_neg hkept, if_pos trivial, hvalue]

private theorem ofDigits?_natural {value : Int} (hnatural : ¬ value < 0)
    (hhigh : value < (Nat.pow 2 64 : Int)) :
    ofDigits? false (Decimal.digitChars value.natAbs) = some (.int value) := by
  have hkept : ¬ Nat.pow 2 64 ≤ value.natAbs := by omega
  have hvalue : (value.natAbs : Int) = value := by omega
  simp only [ofDigits?, Decimal.ofDigitChars_digitChars, Bool.false_and, Bool.not_false,
    Bool.true_and, Bool.false_or, decide_eq_true_eq]
  rw [if_neg hkept, if_neg Bool.false_ne_true, hvalue]

private theorem readNumber_of_ne {c : Char} (hminus : c ≠ '-') (rest : List Char) :
    readNumber (c :: rest) = readUnsigned false (c :: rest) := by
  unfold readNumber
  split
  · next heq => exact absurd (List.cons.inj heq).1 hminus
  · rfl

private theorem readNumber_chars {number : Number} (hword : Within64 number) {rest : List Char}
    (hrest : EndsNumber rest) : readNumber (number.chars ++ rest) = some (number, rest) := by
  cases number with
  | real value => exact hword.elim
  | int value =>
    obtain ⟨hlow, hhigh⟩ := hword
    show readNumber ((if value < 0 then _ else _) ++ rest) = _
    by_cases hnegative : value < 0
    · rw [if_pos hnegative]
      exact readUnsigned_digits (ofDigits?_negative hnegative hlow) hrest
    · have hread := readUnsigned_digits (ofDigits?_natural hnegative hhigh) hrest
      obtain ⟨c, digits, hcons, hdigit⟩ := Decimal.exists_digitChars_eq_cons value.natAbs
      have hminus : c ≠ '-' := by
        rintro rfl
        cases hdigit
      rw [if_neg hnegative]
      rw [hcons, List.cons_append] at hread ⊢
      rw [readNumber_of_ne hminus, hread]

private theorem exists_chars_eq_cons {number : Number} (hword : Within64 number) :
    ∃ c rest, number.chars = c :: rest ∧ (c.isDigit = true ∨ c = '-') := by
  cases number with
  | real value => exact hword.elim
  | int value =>
    unfold Number.chars
    by_cases hnegative : value < 0
    · exact ⟨'-', _, if_pos hnegative, .inr rfl⟩
    · obtain ⟨c, digits, hcons, hdigit⟩ := Decimal.exists_digitChars_eq_cons value.natAbs
      exact ⟨c, digits, (if_neg hnegative).trans hcons, .inl hdigit⟩

variable {steps levels : Nat} {c : Char} {chars rest : List Char}

private theorem skipBlanks_cons (hblank : isBlank c = false) (rest : List Char) :
    skipBlanks (c :: rest) = c :: rest :=
  List.dropWhile_cons_of_neg (by simp [hblank])

private theorem quoted_append (text rest : List Char) :
    quoted text ++ rest = '"' :: (text.flatMap escape ++ '"' :: rest) := by
  simp [quoted]

private theorem readValue_string (text : String) (rest : List Char) :
    readValue (steps + 1) levels (quoted text.toList ++ rest) = some (.string text, rest) := by
  rw [quoted_append]
  simp [readValue, skipBlanks_cons (c := '"') rfl, readString_escaped]

/-- A number begins with a character of its own. -/
theorem ne_of_begins (hfirst : c.isDigit = true ∨ c = '-') {other : Char}
    (hdigit : other.isDigit = false) (hminus : other ≠ '-') : c ≠ other := by
  rintro rfl
  simp [hdigit, hminus] at hfirst

private theorem isBlank_of_begins (hfirst : c.isDigit = true ∨ c = '-') : isBlank c = false := by
  simp [isBlank, ne_of_begins hfirst]

private theorem readValue_number {number : Number} (hfirst : c.isDigit = true ∨ c = '-')
    (hnumber : readNumber (c :: chars) = some (number, rest)) :
    readValue (steps + 1) levels (c :: chars) = some (.number number, rest) := by
  rw [readValue, skipBlanks_cons (isBlank_of_begins hfirst)]
  split
  case h_7 =>
    rw [hnumber]
    rfl
  all_goals
    next heq => exact absurd (List.cons.inj heq).1 (ne_of_begins hfirst rfl (by decide))

private theorem readValue_array {items : List Json} (hblank : isBlank c = false)
    (hclosing : c ≠ ']')
    (hitems : readItems steps levels (c :: chars) = some (items, rest)) :
    readValue (steps + 1) (levels + 1) ('[' :: c :: chars) = some (.array items, rest) := by
  simp [readValue, skipBlanks_cons (c := '[') rfl, skipBlanks_cons hblank, hclosing, hitems]

private theorem readValue_object {key : List Char} {fields : Fields}
    (hfields : readFields steps levels (quoted key ++ chars) = some (fields, rest)) :
    readValue (steps + 1) (levels + 1) ('{' :: (quoted key ++ chars)) =
      some (ofFields fields, rest) := by
  rw [quoted_append] at hfields ⊢
  simp [readValue, skipBlanks_cons (c := '{') rfl, skipBlanks_cons (c := '"') rfl, hfields]

section Items

variable {item : Json} {items : List Json} {behind : List Char}

private theorem readItems_last (hitem : readValue steps levels chars = some (item, ']' :: rest)) :
    readItems (steps + 1) levels chars = some ([item], rest) := by
  simp [readItems, hitem, skipBlanks_cons (c := ']') rfl]

private theorem readItems_more (hitem : readValue steps levels chars = some (item, ',' :: behind))
    (hmore : readItems steps levels behind = some (items, rest)) :
    readItems (steps + 1) levels chars = some (item :: items, rest) := by
  simp [readItems, hitem, skipBlanks_cons (c := ',') rfl, hmore]

end Items

section Fields

variable {key : String} {value : Json} {behind : List Char}

private theorem readFields_last
    (hvalue : readValue steps levels chars = some (value, '}' :: rest)) :
    readFields (steps + 1) levels (quoted key.toList ++ ':' :: chars) =
      some ([(key, value)], rest) := by
  rw [quoted_append]
  simp [readFields, readString_escaped, hvalue, skipBlanks_cons (c := '"') rfl,
    skipBlanks_cons (c := ':') rfl, skipBlanks_cons (c := '}') rfl]

private theorem readFields_more {fields : Fields}
    (hvalue : readValue steps levels chars = some (value, ',' :: behind))
    (hmore : readFields steps levels behind = some (fields, rest)) :
    readFields (steps + 1) levels (quoted key.toList ++ ':' :: chars) =
      some ((key, value) :: fields, rest) := by
  rw [quoted_append]
  simp [readFields, readString_escaped, hvalue, hmore, skipBlanks_cons (c := '"') rfl,
    skipBlanks_cons (c := ':') rfl, skipBlanks_cons (c := ',') rfl]

end Fields

mutual

/-- All numbers in the value are whole numbers within 64 bits. -/
def IsPlain : Json → Prop
  | number value => Within64 value
  | array items => PlainItems items
  | object fields => PlainFields fields
  | _ => True

def PlainItems : List Json → Prop
  | [] => True
  | item :: rest => IsPlain item ∧ PlainItems rest

def PlainFields : Fields → Prop
  | [] => True
  | (_, value) :: rest => IsPlain value ∧ PlainFields rest

end

mutual

/-- The value with the fields of all objects in the order of their keys. -/
def sorted : Json → Json
  | array items => .array (sortedItems items)
  | object fields => ofFields (sortedFields fields)
  | value => value

def sortedItems : List Json → List Json
  | [] => []
  | item :: rest => sorted item :: sortedItems rest

def sortedFields : Fields → Fields
  | [] => []
  | (key, value) :: rest => (key, sorted value) :: sortedFields rest

end

/-- No value begins with a blank, nor with what closes a list. -/
theorem exists_value_chars_eq_cons {value : Json} (hplain : value.IsPlain) :
    ∃ c rest, value.chars = c :: rest ∧ isBlank c = false ∧ c ≠ ']' := by
  cases value with
  | null => exact ⟨_, _, rfl, rfl, by decide⟩
  | bool value => cases value <;> exact ⟨_, _, rfl, rfl, by decide⟩
  | number value =>
    obtain ⟨c, rest, hcons, hfirst⟩ := exists_chars_eq_cons hplain
    exact ⟨c, rest, hcons, isBlank_of_begins hfirst, ne_of_begins hfirst rfl (by decide)⟩
  | string value => exact ⟨_, _, rfl, rfl, by decide⟩
  | array items => cases items <;> exact ⟨_, _, rfl, rfl, by decide⟩
  | object fields =>
    cases fields with
    | nil => exact ⟨_, _, rfl, rfl, by decide⟩
    | cons field rest => exact ⟨_, _, rfl, rfl, by decide⟩

private theorem endsNumber_nil : EndsNumber [] := fun _ hc => nomatch hc

private theorem endsNumber_cons {c : Char} (hdigit : c.isDigit = false)
    (hmark : c ≠ '.' ∧ c ≠ 'e' ∧ c ≠ 'E') (rest : List Char) : EndsNumber (c :: rest) := by
  intro other hother
  obtain rfl := Option.some.inj hother
  exact ⟨hdigit, hmark⟩

private theorem endsNumber_itemsChars (items : List Json) (rest : List Char) :
    EndsNumber (itemsChars items ++ rest) := by
  cases items <;> exact endsNumber_cons rfl (by decide) _

private theorem endsNumber_fieldsChars (fields : Fields) (rest : List Char) :
    EndsNumber (fieldsChars fields ++ rest) := by
  cases fields with
  | nil => exact endsNumber_cons rfl (by decide) _
  | cons field more => exact endsNumber_cons rfl (by decide) _

private theorem length_itemsChars_pos (items : List Json) : 1 ≤ (itemsChars items).length := by
  cases items <;> simp [itemsChars]

private theorem length_fieldsChars_pos (fields : Fields) : 1 ≤ (fieldsChars fields).length := by
  cases fields with
  | nil => decide
  | cons field rest => simp [fieldsChars]

private theorem exists_steps {first more steps : Nat} (hsteps : first + more + 1 ≤ steps)
    (hmore : 1 ≤ more) :
    ∃ left, steps = left + 1 + 1 ∧ first ≤ left ∧ more ≤ left + 1 :=
  ⟨steps - 2, by omega, by omega, by omega⟩

private theorem exists_below {count bound : Nat} (hbound : count + 1 ≤ bound) :
    ∃ below, bound = below + 1 ∧ count ≤ below :=
  ⟨bound - 1, by omega, by omega⟩

mutual

/-- Reading the text of a value gives back the value, whatever stands behind it. There are always
steps left, since each of them takes a character at least. -/
theorem readValue_chars : ∀ (value : Json), value.IsPlain →
    ∀ {steps levels : Nat} {rest : List Char}, value.chars.length ≤ steps →
    value.height ≤ levels → EndsNumber rest →
    readValue (steps + 1) levels (value.chars ++ rest) = some (value.sorted, rest)
  | .null, _, _, _, _, _, _, _ => by
    simp [chars, readValue, skipBlanks_cons (c := 'n') rfl, sorted]
  | .bool true, _, _, _, _, _, _, _ => by
    simp [chars, readValue, skipBlanks_cons (c := 't') rfl, sorted]
  | .bool false, _, _, _, _, _, _, _ => by
    simp [chars, readValue, skipBlanks_cons (c := 'f') rfl, sorted]
  | .number value, hplain, _, _, _, _, _, hrest => by
    obtain ⟨c, more, hcons, hfirst⟩ := exists_chars_eq_cons hplain
    have hnumber := readNumber_chars hplain hrest
    rw [chars]
    rw [hcons] at hnumber ⊢
    exact readValue_number hfirst hnumber
  | .string text, _, _, _, rest, _, _, _ => readValue_string text rest
  | .array [], _, _, _, _, _, hlevels, _ => by
    obtain ⟨levels, rfl, -⟩ := exists_below hlevels
    simp [chars, readValue, skipBlanks_cons (c := '[') rfl, skipBlanks_cons (c := ']') rfl, sorted,
      sortedItems]
  | .array (item :: more), hplain, steps, levels, rest, hsteps, hlevels, _ => by
    obtain ⟨levels, rfl, hbelow⟩ := exists_below hlevels
    have hitems : readItems steps levels (item.chars ++ itemsChars more ++ rest) =
        some (sortedItems (item :: more), rest) :=
      readItems_chars (item :: more) hplain (by simpa [chars, itemsChars] using hsteps) hbelow rfl
    obtain ⟨c, behind, hcons, hblank, hclosing⟩ := exists_value_chars_eq_cons hplain.1
    rw [chars]
    simp only [hcons, List.cons_append] at hitems ⊢
    exact readValue_array hblank hclosing hitems
  | .object [], _, _, _, _, _, hlevels, _ => by
    obtain ⟨levels, rfl, -⟩ := exists_below hlevels
    simp [chars, readValue, skipBlanks_cons (c := '{') rfl, skipBlanks_cons (c := '}') rfl, sorted,
      sortedFields, ofFields, Keyed.ofList]
  | .object ((key, value) :: more), hplain, steps, levels, rest, hsteps, hlevels, _ => by
    obtain ⟨levels, rfl, hbelow⟩ := exists_below hlevels
    have hfields : readFields steps levels
        (quoted key.toList ++ (':' :: (value.chars ++ fieldsChars more) ++ rest)) =
          some (sortedFields ((key, value) :: more), rest) :=
      readFields_chars ((key, value) :: more) hplain (by simpa [chars, fieldsChars] using hsteps)
        hbelow (by simp [fieldsChars])
    rw [chars, List.cons_append, List.append_assoc]
    exact readValue_object hfields

/-- Reading on behind a comma, up to the closing bracket. -/
theorem readItems_chars : ∀ (items : List Json), PlainItems items →
    ∀ {steps levels : Nat} {rest tail : List Char}, (itemsChars items).length ≤ steps →
    heightItems items ≤ levels → itemsChars items ++ rest = ',' :: tail →
    readItems steps levels tail = some (sortedItems items, rest)
  | [], _, _, _, _, _, _, _, htail => by cases htail
  | item :: more, hplain, steps, levels, rest, tail, hsteps, hlevels, htail => by
    obtain ⟨hitemPlain, hmorePlain⟩ := hplain
    obtain ⟨hitemLevels, hmoreLevels⟩ := Nat.max_le.1 hlevels
    rw [itemsChars, List.length_cons, List.length_append] at hsteps
    obtain ⟨steps, rfl, hitemSteps, hmoreSteps⟩ := exists_steps hsteps (length_itemsChars_pos more)
    obtain rfl : item.chars ++ itemsChars more ++ rest = tail := (List.cons.inj htail).2
    rw [List.append_assoc]
    have hitem : readValue (steps + 1) levels (item.chars ++ (itemsChars more ++ rest)) =
        some (item.sorted, itemsChars more ++ rest) :=
      readValue_chars item hitemPlain hitemSteps hitemLevels (endsNumber_itemsChars more rest)
    cases more with
    | nil => exact readItems_last hitem
    | cons next more =>
      exact readItems_more hitem
        (readItems_chars (next :: more) hmorePlain hmoreSteps hmoreLevels rfl)

/-- Reading on behind a comma, up to the closing brace. -/
theorem readFields_chars : ∀ (fields : Fields), PlainFields fields →
    ∀ {steps levels : Nat} {rest tail : List Char}, (fieldsChars fields).length ≤ steps →
    heightFields fields ≤ levels → fieldsChars fields ++ rest = ',' :: tail →
    readFields steps levels tail = some (sortedFields fields, rest)
  | [], _, _, _, _, _, _, _, htail => by cases htail
  | (key, value) :: more, hplain, steps, levels, rest, tail, hsteps, hlevels, htail => by
    obtain ⟨hvaluePlain, hmorePlain⟩ := hplain
    obtain ⟨hvalueLevels, hmoreLevels⟩ := Nat.max_le.1 hlevels
    have hsteps' : value.chars.length + (fieldsChars more).length + 1 ≤ steps := by
      simp only [fieldsChars, List.length_cons, List.length_append] at hsteps
      omega
    obtain ⟨steps, rfl, hvalueSteps, hmoreSteps⟩ :=
      exists_steps hsteps' (length_fieldsChars_pos more)
    obtain rfl :
        quoted key.toList ++ ':' :: (value.chars ++ (fieldsChars more ++ rest)) = tail := by
      simpa [fieldsChars] using htail
    have hvalue : readValue (steps + 1) levels (value.chars ++ (fieldsChars more ++ rest)) =
        some (value.sorted, fieldsChars more ++ rest) :=
      readValue_chars value hvaluePlain hvalueSteps hvalueLevels (endsNumber_fieldsChars more rest)
    cases more with
    | nil => exact readFields_last hvalue
    | cons next more =>
      exact readFields_more hvalue
        (readFields_chars (next :: more) hmorePlain hmoreSteps hmoreLevels rfl)

end

/-- A value that has been written is read as it is, its fields in the order of their keys. -/
theorem ofChars?_chars {value : Json} (hplain : value.IsPlain) {levels : Nat}
    (hlevels : value.height ≤ levels) : ofChars? levels value.chars = some value.sorted := by
  have hread : readValue (value.chars.length + 1) levels (value.chars ++ []) =
      some (value.sorted, []) :=
    readValue_chars value hplain (Nat.le_refl _) hlevels endsNumber_nil
  rw [List.append_nil] at hread
  rw [ofChars?, hread]
  rfl

private theorem printable_of_digits {digits : List Char} (hdigits : Digits digits) :
    Printable digits := by
  intro c hc
  have hlow : '0'.val ≤ c.val := of_decide_eq_true (Bool.and_eq_true_iff.1 (hdigits c hc)).1
  exact Nat.le_trans (by decide) hlow

private theorem printable_exponentText (exponent : Int) :
    Printable (Decimal.exponentText exponent) := by
  have hdigits : Printable (Decimal.digitChars exponent.natAbs) :=
    printable_of_digits (digits_digitChars _)
  unfold Decimal.exponentText
  split <;> exact .cons (by decide) hdigits

private theorem printable_layout {digits : List Char} (hdigits : Digits digits) (exponent : Int) :
    Printable (Decimal.layout digits exponent) := by
  unfold Decimal.layout
  split
  · exact .cons (by decide) (.cons (by decide)
      (printable_of_digits ((digits_zeros _).append hdigits)))
  · split
    · dsimp only
      split
      · exact (printable_of_digits (hdigits.append (digits_zeros _))).append (by decide)
      · exact (printable_of_digits (hdigits.take _)).append
          (.cons (by decide) (printable_of_digits (hdigits.drop _)))
    · dsimp only
      have hexponent : Printable ('e' :: Decimal.exponentText exponent) :=
        .cons (by decide) (printable_exponentText exponent)
      refine ((printable_of_digits (hdigits.take 1)).append ?_).append hexponent
      split
      · decide
      · exact .cons (by decide) (printable_of_digits (hdigits.drop 1))

private theorem printable_toText (x : Binary64) : Printable x.toText := by
  have hsign : Printable (if x.negative then ['-'] else []) := by split <;> decide
  rw [Binary64.toText]
  by_cases hzero : x.units = 0
  · rw [if_pos hzero]
    exact hsign.append (by decide)
  · rw [if_neg hzero]
    exact hsign.append (printable_layout (digits_significant _) _)

private theorem printable_number_chars (number : Number) : Printable number.chars := by
  cases number with
  | real x => exact printable_toText x
  | int value =>
    have hdigits : Printable (Decimal.digitChars value.natAbs) :=
      printable_of_digits (digits_digitChars _)
    show Printable (if value < 0 then _ else _)
    split
    · exact .cons (by decide) hdigits
    · exact hdigits

mutual

/-- No control character is left in the text of a value. -/
theorem printable_chars : ∀ value : Json, Printable value.chars
  | .null => by decide
  | .bool true => by decide
  | .bool false => by decide
  | .number value => printable_number_chars value
  | .string text => printable_quoted text.toList
  | .array [] => by decide
  | .array (item :: more) =>
    .cons (by decide) ((printable_chars item).append (printable_itemsChars more))
  | .object [] => by decide
  | .object ((key, value) :: more) =>
    .cons (by decide) ((printable_quoted key.toList).append
      (.cons (by decide) ((printable_chars value).append (printable_fieldsChars more))))

private theorem printable_itemsChars : ∀ items : List Json, Printable (itemsChars items)
  | [] => by decide
  | item :: more =>
    .cons (by decide) ((printable_chars item).append (printable_itemsChars more))

private theorem printable_fieldsChars : ∀ fields : Fields, Printable (fieldsChars fields)
  | [] => by decide
  | (key, value) :: more =>
    .cons (by decide) ((printable_quoted key.toList).append
      (.cons (by decide) ((printable_chars value).append (printable_fieldsChars more))))

end

end Json

end Abac
