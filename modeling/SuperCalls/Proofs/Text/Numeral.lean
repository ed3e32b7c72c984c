/-
Module: SuperCalls.Proofs.Text.Numeral
Purpose: The texts that are whole numbers.  A text is read as a whole number if it is blank, which
  counts as zero, or if a numeral stands in it between white space and the double nearest to what the
  numeral writes is that number.
Main exports: IsDecimal, Writes, ReadsAs, WritesWhole, whole?_ofText?_eq_some_iff, WritesInteger,
  WritesInteger.writesWhole
-/
import SuperCalls.Proofs.Rules.Recognition
import SuperCalls.Proofs.Text.NearestDouble

namespace SuperCalls.Text

/-!
### Numerals

A numeral is decimal, with a sign if it has one, or has no sign and the mark of its base behind a
zero.
-/

/-- An exponent is nothing at all, or a mark, a sign if it has one, and digits. -/
inductive IsExponent : List Char → ℤ → Prop where
  | absent : IsExponent [] 0
  | unsigned {mark : Char} {ds : List Char} (marks : mark = 'e' ∨ mark = 'E') (some : ds ≠ [])
      (all : ∀ d ∈ ds, d.isDigit) : IsExponent (mark :: ds) (decimalValue ds)
  | plus {mark : Char} {ds : List Char} (marks : mark = 'e' ∨ mark = 'E') (some : ds ≠ [])
      (all : ∀ d ∈ ds, d.isDigit) : IsExponent (mark :: '+' :: ds) (decimalValue ds)
  | minus {mark : Char} {ds : List Char} (marks : mark = 'e' ∨ mark = 'E') (some : ds ≠ [])
      (all : ∀ d ∈ ds, d.isDigit) : IsExponent (mark :: '-' :: ds) (-decimalValue ds)

/-- A decimal numeral without a sign writes a number of powers of ten. -/
inductive IsDecimal : List Char → ℕ → ℤ → Prop where
  | whole {ds es : List Char} {e : ℤ} (some : ds ≠ []) (all : ∀ d ∈ ds, d.isDigit)
      (exponent : IsExponent es e) : IsDecimal (ds ++ es) (decimalValue ds) e
  | pointed {ds part es : List Char} {e : ℤ} (some : ds ≠ [] ∨ part ≠ [])
      (all : ∀ d ∈ ds, d.isDigit) (behind : ∀ d ∈ part, d.isDigit) (exponent : IsExponent es e) :
      IsDecimal (ds ++ '.' :: (part ++ es)) (decimalValue (ds ++ part)) (e - part.length)

/-- The marks of the bases that a numeral can have besides ten. -/
def baseMarks : List (Char × ℕ) :=
  [('x', 16), ('X', 16), ('o', 8), ('O', 8), ('b', 2), ('B', 2)]

/-- A numeral writes a number, below zero or not. -/
inductive Writes : List Char → Bool → ℚ → Prop where
  | unsigned {cs : List Char} {m : ℕ} {e : ℤ} (decimal : IsDecimal cs m e) :
      Writes cs false (m * 10 ^ e)
  | plus {cs : List Char} {m : ℕ} {e : ℤ} (decimal : IsDecimal cs m e) :
      Writes ('+' :: cs) false (m * 10 ^ e)
  | minus {cs : List Char} {m : ℕ} {e : ℤ} (decimal : IsDecimal cs m e) :
      Writes ('-' :: cs) true (m * 10 ^ e)
  | based {mark : Char} {base n : ℕ} {ds : List Char} (marks : (mark, base) ∈ baseMarks)
      (some : ds ≠ []) (digits : digitsValue? base ds = .some n) :
      Writes ('0' :: mark :: ds) false n

/-- A number is read as a whole number: the double nearest to it is finite and is that number. -/
def ReadsAs (x : ℚ) (n : ℕ) : Prop :=
  (n : ℚ) < 2 ^ 1024 ∧ ∃ d : Double, d.Nearest x ∧ d.value = n

/-- A numeral denotes a natural number: what it writes is read as that number, which is zero if the
numeral is below zero. -/
def Denotes (cs : List Char) (n : ℕ) : Prop :=
  ∃ negative x, Writes cs negative x ∧ ReadsAs x n ∧ (negative = true → n = 0)

/-- A text writes a natural number: a numeral that denotes it stands in it between white space. -/
def WritesWhole (text : String) (n : ℕ) : Prop :=
  ∃ before cs after, text.toList = before ++ (cs ++ after) ∧
    (∀ c ∈ before, isBlank c) ∧ (∀ c ∈ after, isBlank c) ∧ Denotes cs n

/-!
### Reading a decimal numeral
-/

theorem exponent?_eq_some_iff {cs : List Char} {e : ℤ} :
    exponent? cs = some e ↔ IsExponent cs e := by
  constructor
  · intro read
    unfold exponent? at read
    split at read
    · cases read
      exact .absent
    · next c rest =>
      split at read
      · next marks =>
          have marks : c = 'e' ∨ c = 'E' := by simpa using marks
          split at read
          next negative ds signed =>
            split at read
            · cases read
            · next proper =>
                have proper : ds ≠ [] ∧ ∀ d ∈ ds, d.isDigit := by simpa using proper
                split at signed <;> cases signed <;> cases read
                · exact .minus marks proper.1 proper.2
                · exact .plus marks proper.1 proper.2
                · exact .unsigned marks proper.1 proper.2
      · cases read
  · intro exponent
    cases exponent with
    | absent => rfl
    | @unsigned mark ds marks some all =>
        unfold exponent?
        cases ds with
        | nil => exact absurd rfl some
        | cons d ds =>
            have digit : d.isDigit := all d List.mem_cons_self
            have noSign : d ≠ '-' ∧ d ≠ '+' := by
              constructor <;> rintro rfl <;> cases digit
            simp_all
    | plus marks some all => simp_all [exponent?]
    | minus marks some all => simp_all [exponent?]

/-- An exponent that is there begins with its mark. -/
theorem IsExponent.begins {cs : List Char} {e : ℤ} (exponent : IsExponent cs e) :
    cs = [] ∨ ∃ mark rest, cs = mark :: rest ∧ (mark = 'e' ∨ mark = 'E') := by
  cases exponent with
  | absent => exact Or.inl rfl
  | unsigned marks | plus marks | minus marks => exact Or.inr ⟨_, _, rfl, marks⟩

/-- What may follow the digits of a decimal numeral is no digit. -/
theorem IsExponent.stop {cs : List Char} {e : ℤ} (exponent : IsExponent cs e) :
    ∀ c ∈ cs.head?, c.isDigit = false := by
  rcases exponent.begins with rfl | ⟨mark, rest, rfl, rfl | rfl⟩ <;> simp

theorem IsExponent.head?_ne_point {cs : List Char} {e : ℤ} (exponent : IsExponent cs e)
    (more : List Char) : cs ≠ '.' :: more := by
  rcases exponent.begins with rfl | ⟨mark, rest, rfl, rfl | rfl⟩ <;> simp

theorem unsignedDecimal?_sound {cs : List Char} {size : Magnitude}
    (read : unsignedDecimal? cs = some size) : ∃ m e, IsDecimal cs m e ∧ size = scaled m e := by
  unfold unsignedDecimal? at read
  cases spans : cs.span Char.isDigit with
  | mk ds rest =>
      obtain ⟨rfl, all⟩ := span_sound spans
      simp only [spans] at read
      split at read
      · next more =>
          cases inner : more.span Char.isDigit with
          | mk part es =>
              obtain ⟨rfl, behind⟩ := span_sound inner
              simp only [inner] at read
              split at read
              · cases read
              · next some =>
                  obtain ⟨e, exponent, ⟨⟩⟩ := Option.bind_eq_some_iff.mp read
                  rw [exponent?_eq_some_iff] at exponent
                  have some : ds ≠ [] ∨ part ≠ [] := by
                    simpa [Classical.or_iff_not_imp_left] using some
                  exact ⟨_, _, .pointed some all behind exponent, rfl⟩
      · split at read
        · cases read
        · next some =>
            obtain ⟨e, exponent, ⟨⟩⟩ := Option.bind_eq_some_iff.mp read
            rw [exponent?_eq_some_iff] at exponent
            refine ⟨_, _, .whole (by simpa using some) all exponent, ?_⟩
            simp

theorem unsignedDecimal?_of_isDecimal {cs : List Char} {m : ℕ} {e : ℤ} (decimal : IsDecimal cs m e) :
    unsignedDecimal? cs = some (scaled m e) := by
  unfold unsignedDecimal?
  cases decimal with
  | @whole ds es e some all exponent =>
      rw [span_append all exponent.stop]
      have noPoint := exponent.head?_ne_point
      rw [← exponent?_eq_some_iff] at exponent
      cases es with
      | nil => simp_all
      | cons c es => simp_all
  | @pointed ds part es e some all behind exponent =>
      have point : ∀ c ∈ ('.' :: (part ++ es)).head?, c.isDigit = false := by simp
      rw [span_append all point]
      have ending := exponent.stop
      rw [← exponent?_eq_some_iff] at exponent
      simp only [span_append behind ending]
      have given : (ds.isEmpty && part.isEmpty) = false := by
        rcases some with some | some <;> simp [some]
      simp [given, exponent]

/-- Digits, a point and an exponent are read as what they write. -/
theorem unsignedDecimal?_eq_some_iff {cs : List Char} {size : Magnitude} :
    unsignedDecimal? cs = some size ↔ ∃ m e, IsDecimal cs m e ∧ size = scaled m e := by
  refine ⟨unsignedDecimal?_sound, ?_⟩
  rintro ⟨m, e, decimal, rfl⟩
  exact unsignedDecimal?_of_isDecimal decimal

/-!
### Reading its size

The order of magnitude settles what is too great for a double and what is nearer to zero than to any
other.
-/

/-- The whole number that a size is read as. -/
def Magnitude.whole? : Magnitude → Option ℕ
  | .infinite => none
  | .fraction p q => wholeDouble? p q

theorem two_pow_le_ten_pow : (2 : ℚ) ^ 1024 ≤ 10 ^ 310 :=
  calc
    (2 : ℚ) ^ 1024 ≤ 2 ^ (205 * 5) := pow_le_pow_right₀ one_le_two (by norm_num)
    _ ≤ 10 ^ (62 * 5) := by
      rw [pow_mul, pow_mul]
      exact pow_le_pow_left₀ (by positivity) (by norm_num) 5

theorem ten_zpow_le_two_zpow : (10 : ℚ) ^ (-330 : ℤ) ≤ 2 ^ (-1075 : ℤ) := by
  have powers : (2 : ℚ) ^ (215 * 5) ≤ 10 ^ (66 * 5) := by
    rw [pow_mul, pow_mul]
    exact pow_le_pow_left₀ (by positivity) (by norm_num) 5
  rw [show (-330 : ℤ) = -(66 * 5 : ℕ) from rfl, show (-1075 : ℤ) = -(215 * 5 : ℕ) from rfl, zpow_neg,
    zpow_neg, zpow_natCast, zpow_natCast]
  exact inv_anti₀ (by positivity) powers

/-- The order of magnitude of a number is the number of its digits. -/
theorem ten_zpow_le_and_lt {m : ℕ} (positive : 0 < m) (e : ℤ) :
    (10 : ℚ) ^ ((Nat.toDigits 10 m).length + e - 1) ≤ m * 10 ^ e ∧
      (m : ℚ) * 10 ^ e < 10 ^ ((Nat.toDigits 10 m).length + e) := by
  obtain ⟨k, same⟩ : ∃ k, (Nat.toDigits 10 m).length = k + 1 :=
    Nat.exists_eq_add_one.mpr Nat.length_toDigits_pos
  have unit : (0 : ℚ) < 10 ^ e := by positivity
  have below : m < 10 ^ (k + 1) :=
    (Nat.length_toDigits_le_iff (by norm_num) (by omega)).mp same.le
  have above : 10 ^ k ≤ m := by
    by_contra less
    rcases Nat.eq_zero_or_pos k with rfl | some
    · omega
    · have short := (Nat.length_toDigits_le_iff (by norm_num) some).mpr (not_le.mp less)
      omega
  rw [same]
  constructor
  · rw [show ((k + 1 : ℕ) : ℤ) + e - 1 = k + e by push_cast; ring, zpow_add₀ (by norm_num),
      zpow_natCast]
    exact mul_le_mul_of_nonneg_right (by exact_mod_cast above) unit.le
  · rw [zpow_add₀ (by norm_num), zpow_natCast]
    exact mul_lt_mul_of_pos_right (by exact_mod_cast below) unit

theorem whole?_fraction_eq_some_iff {p q : ℕ} (q_pos : 0 < q) {x : ℚ} (same : (p : ℚ) / q = x)
    {n : ℕ} : (Magnitude.fraction p q).whole? = some n ↔ ReadsAs x n := by
  rw [← same]
  exact wholeDouble?_eq_some_iff q_pos

theorem whole?_zero_eq_some_iff {x : ℚ} (positive : 0 ≤ x) (small : x ≤ 2 ^ (-1075 : ℤ)) {n : ℕ} :
    (Magnitude.fraction 0 1).whole? = some n ↔ ReadsAs x n := by
  rw [ReadsAs, Double.exists_nearest_iff_of_small positive small, Nat.cast_eq_zero]
  constructor
  · rintro ⟨⟩
    exact ⟨by positivity, rfl⟩
  · rintro ⟨-, rfl⟩
    rfl

theorem not_readsAs_of_great {x : ℚ} (great : 2 ^ 1024 ≤ x) (n : ℕ) : ¬ ReadsAs x n := by
  rintro ⟨less, d, nearest, same⟩
  rw [← same] at less
  exact absurd (nearest.le_value_of_great great) less.not_ge

/-- A number of powers of ten is read as a whole number as the nearest double is. -/
theorem whole?_scaled_eq_some_iff (m : ℕ) (e : ℤ) {n : ℕ} :
    (scaled m e).whole? = some n ↔ ReadsAs (m * 10 ^ e) n := by
  unfold scaled
  simp only
  split
  · next zero =>
      apply whole?_zero_eq_some_iff
      · positivity
      · rw [zero, Nat.cast_zero, zero_mul]
        positivity
  · next nonzero =>
      obtain ⟨above, below⟩ := ten_zpow_le_and_lt (Nat.pos_of_ne_zero nonzero) e
      split
      · next great =>
          have large : (2 : ℚ) ^ 1024 ≤ m * 10 ^ e :=
            two_pow_le_ten_pow.trans (le_trans (by
              rw [← zpow_natCast]
              exact zpow_le_zpow_right₀ (by norm_num) (by omega)) above)
          exact ⟨nofun, fun reads => absurd reads (not_readsAs_of_great large n)⟩
      · split
        · next tiny =>
            have small : (10 : ℚ) ^ ((Nat.toDigits 10 m).length + e) ≤ 10 ^ (-330 : ℤ) :=
              zpow_le_zpow_right₀ (by norm_num) (by omega)
            exact whole?_zero_eq_some_iff (by positivity)
              (below.le.trans (small.trans ten_zpow_le_two_zpow))
        · split
          · next up =>
              obtain ⟨k, rfl⟩ := Int.eq_ofNat_of_zero_le up
              apply whole?_fraction_eq_some_iff one_pos
              rw [Int.toNat_natCast, Nat.pow_eq, zpow_natCast]
              push_cast
              ring
          · next down =>
              obtain ⟨k, rfl⟩ : ∃ k : ℕ, e = -k := ⟨(-e).toNat, by omega⟩
              apply whole?_fraction_eq_some_iff
              · rw [Nat.pow_eq]
                positivity
              · rw [neg_neg, Int.toNat_natCast, Nat.pow_eq, zpow_neg, zpow_natCast, div_eq_mul_inv]
                push_cast
                rfl

/-!
### Characters of a numeral
-/

/-- The characters of a decimal numeral besides its digits. -/
def decimalMarks : List Char :=
  ['.', 'e', 'E', '+', '-']

theorem IsExponent.chars {cs : List Char} {e : ℤ} (exponent : IsExponent cs e) :
    ∀ c ∈ cs, c.isDigit ∨ c ∈ decimalMarks := by
  cases exponent with
  | absent => simp
  | unsigned marks _ all | plus marks _ all | minus marks _ all =>
      rcases marks with rfl | rfl <;>
        simpa [decimalMarks] using fun c member => Or.inl (all c member)

theorem IsDecimal.chars {cs : List Char} {m : ℕ} {e : ℤ} (decimal : IsDecimal cs m e) :
    ∀ c ∈ cs, c.isDigit ∨ c ∈ decimalMarks := by
  intro c member
  cases decimal with
  | whole _ all exponent =>
      rcases List.mem_append.mp member with digit | behind
      · exact Or.inl (all c digit)
      · exact exponent.chars c behind
  | pointed _ all behind exponent =>
      rcases List.mem_append.mp member with digit | tail
      · exact Or.inl (all c digit)
      · rcases List.mem_cons.mp tail with rfl | tail
        · exact Or.inr List.mem_cons_self
        · rcases List.mem_append.mp tail with digit | rest
          · exact Or.inl (behind c digit)
          · exact exponent.chars c rest

theorem IsDecimal.exists_cons {cs : List Char} {m : ℕ} {e : ℤ} (decimal : IsDecimal cs m e) :
    ∃ c rest, cs = c :: rest ∧ (c.isDigit ∨ c = '.') := by
  cases decimal with
  | @whole ds es _ some all =>
      obtain ⟨d, ds, rfl⟩ := List.exists_cons_of_ne_nil some
      exact ⟨d, ds ++ es, rfl, Or.inl (all d List.mem_cons_self)⟩
  | @pointed ds part es _ _ all =>
      cases ds with
      | nil => exact ⟨'.', part ++ es, rfl, Or.inr rfl⟩
      | cons d ds => exact ⟨d, _, rfl, Or.inl (all d List.mem_cons_self)⟩

/-- No graphic character is white space. -/
theorem noBlank_of_graphic {c : Char} (low : 33 ≤ c.toNat) (high : c.toNat ≤ 126) :
    isBlank c = false := by
  simp [isBlank]
  omega

theorem noBlank_of_isDigit {c : Char} (digit : c.isDigit) : isBlank c = false := by
  obtain ⟨low, high⟩ := Char.isDigit_iff_toNat.mp digit
  exact noBlank_of_graphic (le_trans (by decide) low) (high.trans (by decide))

theorem noBlank_of_digitValue? {c : Char} {v : ℕ} (digit : digitValue? c = some v) :
    isBlank c = false := by
  -- the order of characters is that of their numbers
  have bounds {low high : Char} (between : (low ≤ c && c ≤ high) = true) (graphic : 33 ≤ low.toNat)
      (ascii : high.toNat ≤ 126) : isBlank c = false := by
    rw [Bool.and_eq_true, decide_eq_true_eq, decide_eq_true_eq] at between
    exact noBlank_of_graphic (graphic.trans between.1) (le_trans between.2 ascii)
  unfold digitValue? at digit
  split at digit
  · next between => exact bounds between (by decide) (by decide)
  · split at digit
    · next between => exact bounds between (by decide) (by decide)
    · split at digit
      · next between => exact bounds between (by decide) (by decide)
      · cases digit

/-- What writes a number in a base is made of digits. -/
theorem digitValue?_of_digitsValue? {base : ℕ} {ds : List Char} {n : ℕ}
    (read : digitsValue? base ds = some n) : ∀ d ∈ ds, ∃ v, digitValue? d = some v := by
  induction ds using List.reverseRecOn generalizing n with
  | nil => simp
  | append_singleton ds d ih =>
      unfold digitsValue? at read
      rw [List.foldl_concat] at read
      obtain ⟨k, before, read⟩ := Option.bind_eq_some_iff.mp read
      obtain ⟨v, digit, -⟩ := Option.bind_eq_some_iff.mp read
      intro c member
      rcases List.mem_append.mp member with front | last
      · exact ih before c front
      · rw [List.mem_singleton.mp last]
        exact ⟨v, digit⟩

theorem Writes.noBlank {cs : List Char} {negative : Bool} {x : ℚ} (writes : Writes cs negative x) :
    ∀ c ∈ cs, isBlank c = false := by
  have noBlank {cs : List Char} {m : ℕ} {e : ℤ} (decimal : IsDecimal cs m e) :
      ∀ c ∈ cs, isBlank c = false := by
    intro c member
    rcases decimal.chars c member with digit | mark
    · exact noBlank_of_isDigit digit
    · have graphic : decimalMarks.all fun c => !isBlank c := by decide
      simpa using List.all_eq_true.mp graphic c mark
  cases writes with
  | unsigned decimal => exact noBlank decimal
  | plus decimal => exact List.forall_mem_cons.mpr ⟨by decide, noBlank decimal⟩
  | minus decimal => exact List.forall_mem_cons.mpr ⟨by decide, noBlank decimal⟩
  | @based mark base _ _ marks _ digits =>
      have noBlankMark : ∀ mark ∈ baseMarks, isBlank mark.1 = false := by decide
      intro c member
      rcases List.mem_cons.mp member with rfl | member
      · decide
      · rcases List.mem_cons.mp member with same | member
        · rw [same]
          exact noBlankMark (mark, base) marks
        · obtain ⟨v, digit⟩ := digitValue?_of_digitsValue? digits c member
          exact noBlank_of_digitValue? digit

/-!
### Reading a text
-/

theorem magnitude?_whole_eq_some_iff {cs : List Char} {n : ℕ} :
    (magnitude? cs).bind Magnitude.whole? = some n ↔
      ∃ m e, IsDecimal cs m e ∧ ReadsAs (m * 10 ^ e) n := by
  unfold magnitude?
  split
  · next infinite =>
      refine ⟨nofun, ?_⟩
      rintro ⟨m, e, decimal, -⟩
      obtain ⟨c, rest, same, head⟩ := decimal.exists_cons
      obtain ⟨rfl, -⟩ := List.cons.inj (infinite.symm.trans same)
      exact absurd head (by decide)
  · rw [Option.bind_eq_some_iff]
    simp only [unsignedDecimal?_eq_some_iff]
    constructor
    · rintro ⟨_, ⟨m, e, decimal, rfl⟩, read⟩
      exact ⟨m, e, decimal, (whole?_scaled_eq_some_iff m e).mp read⟩
    · rintro ⟨m, e, decimal, reads⟩
      exact ⟨_, ⟨m, e, decimal, rfl⟩, (whole?_scaled_eq_some_iff m e).mpr reads⟩

theorem based?_whole_eq_some_iff {base : ℕ} {ds : List Char} {n : ℕ} :
    (based? base ds).bind Magnitude.whole? = some n ↔
      ∃ k : ℕ, ds ≠ [] ∧ digitsValue? base ds = some k ∧ ReadsAs k n := by
  unfold based?
  cases ds with
  | nil => simp
  | cons d ds =>
      have whole (k : ℕ) : (Magnitude.fraction k 1).whole? = some n ↔ ReadsAs k n :=
        whole?_fraction_eq_some_iff one_pos (by rw [Nat.cast_one, div_one])
      simp [Option.bind_eq_some_iff, whole]

theorem whole?_numeral_eq_some_iff {size? : Option Magnitude} {negative : Bool} {n : ℕ} :
    (size?.map (⟨negative, ·⟩)).bind Numeral.whole? = some n ↔
      size?.bind Magnitude.whole? = some n ∧ (negative = true → n = 0) := by
  cases size? with
  | none => simp
  | some size =>
      cases size with
      | infinite => simp [Numeral.whole?, Magnitude.whole?]
      | fraction p q =>
          simp only [Option.map_some, Option.bind_some, Numeral.whole?, Magnitude.whole?]
          split
          · next zero => simp +contextual [zero, eq_comm]
          · next value nonzero read => cases negative <;> simp [read]; grind
          · next read => simp [read]

/-- A decimal numeral is told from one with a mark by its characters. -/
theorem IsDecimal.ne_marked {cs : List Char} {m : ℕ} {e : ℤ} (decimal : IsDecimal cs m e)
    {mark : Char} {base : ℕ} (marks : (mark, base) ∈ baseMarks) (ds : List Char) :
    cs ≠ '0' :: mark :: ds := by
  rintro rfl
  have other : ∀ mark ∈ baseMarks, ¬ (mark.1.isDigit ∨ mark.1 ∈ decimalMarks) := by decide
  exact other (mark, base) marks (decimal.chars mark (by simp))

theorem IsDecimal.ne_signed {cs : List Char} {m : ℕ} {e : ℤ} (decimal : IsDecimal cs m e)
    (rest : List Char) : cs ≠ '-' :: rest ∧ cs ≠ '+' :: rest := by
  obtain ⟨c, tail, rfl, head⟩ := decimal.exists_cons
  constructor <;>
    · intro same
      obtain ⟨rfl, -⟩ := List.cons.inj same
      exact absurd head (by decide)

theorem denotes_based_iff {mark : Char} {base : ℕ} (marks : (mark, base) ∈ baseMarks)
    {ds : List Char} {n : ℕ} :
    Denotes ('0' :: mark :: ds) n ↔
      ∃ k : ℕ, ds ≠ [] ∧ digitsValue? base ds = some k ∧ ReadsAs k n := by
  constructor
  · rintro ⟨negative, x, writes, reads, -⟩
    generalize same : '0' :: mark :: ds = cs at writes
    cases writes with
    | unsigned decimal => exact absurd same.symm (decimal.ne_marked marks ds)
    | plus => cases same
    | minus => cases same
    | @based _ other k _ otherMarks given digits =>
        cases same
        have functional : ∀ one ∈ baseMarks, ∀ two ∈ baseMarks, one.1 = two.1 → one.2 = two.2 := by
          decide
        have same : base = other := functional (mark, base) marks (mark, other) otherMarks rfl
        exact ⟨k, given, same ▸ digits, reads⟩
  · rintro ⟨k, given, digits, reads⟩
    exact ⟨false, k, .based marks given digits, reads, nofun⟩

theorem denotes_minus_iff {cs : List Char} {n : ℕ} :
    Denotes ('-' :: cs) n ↔ (∃ m e, IsDecimal cs m e ∧ ReadsAs (m * 10 ^ e) n) ∧ n = 0 := by
  constructor
  · rintro ⟨negative, x, writes, reads, bound⟩
    generalize same : '-' :: cs = all at writes
    cases writes with
    | unsigned decimal => exact absurd same.symm (decimal.ne_signed cs).1
    | plus => cases same
    | minus decimal =>
        cases same
        exact ⟨⟨_, _, decimal, reads⟩, bound rfl⟩
    | based => cases same
  · rintro ⟨⟨m, e, decimal, reads⟩, zero⟩
    exact ⟨true, _, .minus decimal, reads, fun _ => zero⟩

theorem denotes_plus_iff {cs : List Char} {n : ℕ} :
    Denotes ('+' :: cs) n ↔ ∃ m e, IsDecimal cs m e ∧ ReadsAs (m * 10 ^ e) n := by
  constructor
  · rintro ⟨negative, x, writes, reads, -⟩
    generalize same : '+' :: cs = all at writes
    cases writes with
    | unsigned decimal => exact absurd same.symm (decimal.ne_signed cs).2
    | plus decimal =>
        cases same
        exact ⟨_, _, decimal, reads⟩
    | minus => cases same
    | based => cases same
  · rintro ⟨m, e, decimal, reads⟩
    exact ⟨false, _, .plus decimal, reads, nofun⟩

/-- A numeral without a sign and without a mark is decimal. -/
theorem denotes_unsigned_iff {cs : List Char} {n : ℕ} (noMinus : ∀ rest, cs ≠ '-' :: rest)
    (noPlus : ∀ rest, cs ≠ '+' :: rest)
    (noMark : ∀ mark ∈ baseMarks, ∀ rest, cs ≠ '0' :: mark.1 :: rest) :
    Denotes cs n ↔ ∃ m e, IsDecimal cs m e ∧ ReadsAs (m * 10 ^ e) n := by
  constructor
  · rintro ⟨negative, x, writes, reads, -⟩
    cases writes with
    | unsigned decimal => exact ⟨_, _, decimal, reads⟩
    | plus => exact absurd rfl (noPlus _)
    | minus => exact absurd rfl (noMinus _)
    | based marks => exact absurd rfl (noMark _ marks _)
  · rintro ⟨m, e, decimal, reads⟩
    exact ⟨false, _, .unsigned decimal, reads, nofun⟩

theorem not_denotes_nil (n : ℕ) : ¬ Denotes [] n := by
  rintro ⟨negative, x, writes, -⟩
  generalize same : ([] : List Char) = cs at writes
  cases writes with
  | unsigned decimal =>
      obtain ⟨c, rest, nonempty, -⟩ := decimal.exists_cons
      cases same.trans nonempty
  | plus => cases same
  | minus => cases same
  | based => cases same

theorem whole?_marked_eq_some_iff {mark : Char} {base : ℕ} (marks : (mark, base) ∈ baseMarks)
    {ds : List Char} {n : ℕ} :
    ((based? base ds).map (⟨false, ·⟩)).bind Numeral.whole? = some n ↔
      Denotes ('0' :: mark :: ds) n := by
  rw [whole?_numeral_eq_some_iff, based?_whole_eq_some_iff, denotes_based_iff marks]
  simp

/-- Without the white space at its ends, a text is read as what it denotes, or as zero if nothing is
left of it. -/
theorem whole?_ofText?_eq_some_iff_trim {text : String} {n : ℕ} :
    (Numeral.ofText? text).bind Numeral.whole? = some n ↔
      (trimBlanks text.toList = [] ∧ n = 0) ∨ Denotes (trimBlanks text.toList) n := by
  unfold Numeral.ofText?
  generalize trimBlanks text.toList = cs
  split
  · have zero : Numeral.whole? ⟨false, .fraction 0 1⟩ = some 0 := rfl
    rw [Option.bind_some, zero, or_iff_left (not_denotes_nil n), Option.some.injEq, eq_comm]
    exact (and_iff_right rfl).symm
  -- the six marks of the bases
  iterate 6
    · rw [or_iff_right nofun]
      exact whole?_marked_eq_some_iff (by decide)
  · rw [whole?_numeral_eq_some_iff, magnitude?_whole_eq_some_iff, denotes_minus_iff]
    simp
  · rw [whole?_numeral_eq_some_iff, magnitude?_whole_eq_some_iff, denotes_plus_iff]
    simp
  · next nonempty x X o O b B noMinus noPlus =>
      have noMark : ∀ mark ∈ baseMarks, ∀ rest, cs ≠ '0' :: mark.1 :: rest := by
        simp only [baseMarks, List.forall_mem_cons]
        exact ⟨x, X, o, O, b, B, nofun⟩
      rw [whole?_numeral_eq_some_iff, magnitude?_whole_eq_some_iff,
        denotes_unsigned_iff noMinus noPlus noMark, or_iff_right fun empty => nonempty empty.1]
      simp

/-- White space at the two ends of a text without white space is what is dropped. -/
theorem trimBlanks_append {before cs after : List Char} (blankBefore : ∀ c ∈ before, isBlank c)
    (blankAfter : ∀ c ∈ after, isBlank c) (solid : ∀ c ∈ cs, isBlank c = false) :
    trimBlanks (before ++ (cs ++ after)) = cs := by
  have dropped {front rest : List Char} (blank : ∀ c ∈ front, isBlank c)
      (stop : ∀ c ∈ rest, isBlank c = false) : (front ++ rest).dropWhile isBlank = rest := by
    rw [List.dropWhile_append_of_pos blank, List.dropWhile_eq_self_iff]
    intro nonempty
    simp [stop _ (List.getElem_mem nonempty)]
  unfold trimBlanks
  cases cs with
  | nil =>
      rw [List.nil_append, List.dropWhile_append_of_pos blankBefore,
        List.dropWhile_eq_nil_iff.mpr blankAfter]
      rfl
  | cons c cs =>
      have front : (before ++ (c :: cs ++ after)).dropWhile isBlank = c :: cs ++ after := by
        rw [List.dropWhile_append_of_pos blankBefore, List.cons_append,
          List.dropWhile_cons_of_neg (by simp [solid c List.mem_cons_self])]
      rw [front, List.reverse_append,
        dropped (fun d member => blankAfter d (List.mem_reverse.mp member))
          (fun d member => solid d (List.mem_reverse.mp member)),
        List.reverse_reverse]

theorem exists_trimBlanks (text : List Char) :
    ∃ before after, text = before ++ (trimBlanks text ++ after) ∧
      (∀ c ∈ before, isBlank c) ∧ ∀ c ∈ after, isBlank c := by
  refine ⟨text.takeWhile isBlank, ((text.dropWhile isBlank).reverse.takeWhile isBlank).reverse, ?_,
    fun c => List.mem_takeWhile_imp, fun c member => ?_⟩
  · rw [trimBlanks, ← List.reverse_append, List.takeWhile_append_dropWhile, List.reverse_reverse,
      List.takeWhile_append_dropWhile]
  · exact List.mem_takeWhile_imp (List.mem_reverse.mp member)

theorem trimBlanks_eq_nil_iff {text : List Char} :
    trimBlanks text = [] ↔ ∀ c ∈ text, isBlank c := by
  constructor
  · intro empty
    obtain ⟨before, after, same, blankBefore, blankAfter⟩ := exists_trimBlanks text
    rw [same, empty]
    intro c member
    rcases List.mem_append.mp member with front | behind
    · exact blankBefore c front
    · exact blankAfter c behind
  · intro blank
    have trimmed := @trimBlanks_append text [] [] blank (by simp) (by simp)
    simpa using trimmed

theorem writesWhole_iff {text : String} {n : ℕ} :
    WritesWhole text n ↔ Denotes (trimBlanks text.toList) n := by
  constructor
  · rintro ⟨before, cs, after, same, blankBefore, blankAfter, denotes⟩
    obtain ⟨negative, x, writes, -⟩ := id denotes
    rw [same, trimBlanks_append blankBefore blankAfter writes.noBlank]
    exact denotes
  · intro denotes
    obtain ⟨before, after, same, blankBefore, blankAfter⟩ := exists_trimBlanks text.toList
    exact ⟨before, _, after, same, blankBefore, blankAfter, denotes⟩

/-- A text is read as a natural number if it writes that number, or if it is blank and the number is
zero. -/
theorem whole?_ofText?_eq_some_iff {text : String} {n : ℕ} :
    (Numeral.ofText? text).bind Numeral.whole? = some n ↔
      ((∀ c ∈ text.toList, isBlank c) ∧ n = 0) ∨ WritesWhole text n := by
  rw [whole?_ofText?_eq_some_iff_trim, trimBlanks_eq_nil_iff, writesWhole_iff]

/-!
### Decimal integers
-/

/-- A whole number of few binary digits is a double. -/
theorem exists_double_eq {n : ℕ} (small : n < 2 ^ 53) : ∃ d : Double, d.value = n := by
  rcases Nat.eq_zero_or_pos n with rfl | positive
  · exact ⟨⟨0, -1074, by norm_num, le_rfl, Or.inr rfl⟩, by simp [Double.value]⟩
  · have width : Nat.log 2 n ≤ 52 := by
      have less := Nat.log_lt_of_lt_pow positive.ne' small
      omega
    have low := Nat.pow_log_le_self 2 positive.ne'
    have high := Nat.lt_pow_succ_log_self one_lt_two n
    -- the digits are moved up until there are as many as a double takes
    obtain ⟨k, full⟩ := Nat.exists_eq_add_of_le width
    refine ⟨⟨n * 2 ^ k, -k, ?_, by omega, Or.inl ?_⟩, ?_⟩
    · calc
        n * 2 ^ k < 2 ^ (Nat.log 2 n + 1) * 2 ^ k := Nat.mul_lt_mul_of_pos_right high (by positivity)
        _ = 2 ^ 53 := by rw [← pow_add]; congr 1; omega
    · calc
        2 ^ 52 = 2 ^ Nat.log 2 n * 2 ^ k := by rw [← pow_add, ← full]
        _ ≤ n * 2 ^ k := Nat.mul_le_mul_right _ low
    · rw [Double.value, zpow_neg, zpow_natCast]
      push_cast
      field_simp

theorem readsAs_self {n : ℕ} (small : n < 2 ^ 53) : ReadsAs n n := by
  obtain ⟨d, same⟩ := exists_double_eq small
  refine ⟨?_, d, ⟨fun other => ?_, fun other alike => Or.inl ?_⟩, same⟩
  · calc
      (n : ℚ) < 2 ^ 53 := by exact_mod_cast small
      _ ≤ 2 ^ 1024 := pow_le_pow_right₀ one_le_two (by norm_num)
  · rw [same, sub_self, abs_zero]
    exact abs_nonneg _
  · rw [same, sub_self, abs_zero, eq_comm, abs_eq_zero, sub_eq_zero] at alike
    rw [same, alike]

/-- A decimal integer is a text of digits, with a sign if it has one. -/
inductive WritesInteger : String → ℤ → Prop where
  | unsigned {text : String} (some : text.toList ≠ []) (all : ∀ d ∈ text.toList, d.isDigit) :
      WritesInteger text (decimalValue text.toList)
  | plus {text : String} {ds : List Char} (spelled : text.toList = '+' :: ds) (some : ds ≠ [])
      (all : ∀ d ∈ ds, d.isDigit) : WritesInteger text (decimalValue ds)
  | minus {text : String} {ds : List Char} (spelled : text.toList = '-' :: ds) (some : ds ≠ [])
      (all : ∀ d ∈ ds, d.isDigit) : WritesInteger text (-decimalValue ds)

/-- A decimal integer that is not below zero is read as itself. -/
theorem WritesInteger.writesWhole {text : String} {n : ℕ} (writes : WritesInteger text n)
    (small : n < 2 ^ 53) : WritesWhole text n := by
  have decimal {ds : List Char} (some : ds ≠ []) (all : ∀ d ∈ ds, d.isDigit) :
      IsDecimal ds (decimalValue ds) 0 := by
    simpa using IsDecimal.whole some all .absent
  have scale (m : ℕ) : (m : ℚ) * 10 ^ (0 : ℤ) = m := by
    rw [zpow_zero, mul_one]
  have alone {cs : List Char} (spelled : text.toList = cs) (denotes : Denotes cs n) :
      WritesWhole text n :=
    ⟨[], cs, [], by simpa using spelled, by simp, by simp, denotes⟩
  have self := readsAs_self small
  generalize whole : (n : ℤ) = i at writes
  cases writes with
  | unsigned some all =>
      obtain rfl : n = _ := Int.ofNat_inj.mp whole
      exact alone rfl ⟨false, _, scale _ ▸ .unsigned (decimal some all), self, nofun⟩
  | plus spelled some all =>
      obtain rfl : n = _ := Int.ofNat_inj.mp whole
      exact alone spelled ⟨false, _, scale _ ▸ .plus (decimal some all), self, nofun⟩
  | @minus ds spelled some all =>
      obtain ⟨rfl, zero⟩ : n = 0 ∧ decimalValue ds = 0 := by omega
      refine alone spelled ⟨true, _, .minus (decimal some all), ?_, fun _ => rfl⟩
      rw [zero, scale]
      exact self

end SuperCalls.Text
