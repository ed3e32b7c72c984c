/-
Module: SuperCalls.Proofs.Text.Utf8
Purpose: Texts as bytes.  Reading the bytes of a text gives the text back, its byte-order mark
  included; the strict reading accepts exactly the well-formed bytes, and gives the text that has
  these bytes.
Main exports: Text.Utf8.scanFrom_encode, Text.Utf8.decode?_encode, Text.Utf8.mark_prefix_encode,
  Text.Utf8.WellFormed, Text.Utf8.wellFormed_iff, Text.Utf8.decode?_eq_some_iff,
  Text.Utf8.decode?_eq_none_iff
-/
import SuperCalls.Text.Utf8

namespace SuperCalls.Text.Utf8

/-!
### First bytes
-/

theorem toNat_byte {n : Nat} (small : n < 256) : (UInt8.ofNat n).toNat = n :=
  UInt8.toNat_ofNat_of_lt' small

theorem start_one {n : Nat} (small : n < 0x80) : start (UInt8.ofNat n) = .whole (Char.ofNat n) := by
  have value : (UInt8.ofNat n).toNat = n := toNat_byte (by omega)
  simp only [start, value]
  rw [if_pos small]

theorem start_two {k : Nat} (low : 2 ≤ k) (high : k < 32) :
    start (UInt8.ofNat (0xC0 + k)) = .unfinished ⟨k, 1, 0x80, 0xBF⟩ := by
  have value : (UInt8.ofNat (0xC0 + k)).toNat = 0xC0 + k := toNat_byte (by omega)
  simp only [start, value]
  rw [if_neg (by omega), if_pos (by simp; omega), Nat.add_sub_cancel_left]

theorem start_three {k : Nat} (high : k < 16) :
    start (UInt8.ofNat (0xE0 + k)) =
      .unfinished ⟨k, 2, if k = 0 then 0xA0 else 0x80, if k = 13 then 0x9F else 0xBF⟩ := by
  have value : (UInt8.ofNat (0xE0 + k)).toNat = 0xE0 + k := toNat_byte (by omega)
  have lowest : 0xE0 + k = 0xE0 ↔ k = 0 := by omega
  have highest : 0xE0 + k = 0xED ↔ k = 13 := by omega
  simp only [start, value]
  rw [if_neg (by omega), if_neg (by simp; omega), if_pos (by simp; omega), Nat.add_sub_cancel_left]
  simp only [lowest, highest]

theorem start_four {k : Nat} (high : k < 5) :
    start (UInt8.ofNat (0xF0 + k)) =
      .unfinished ⟨k, 3, if k = 0 then 0x90 else 0x80, if k = 4 then 0x8F else 0xBF⟩ := by
  have value : (UInt8.ofNat (0xF0 + k)).toNat = 0xF0 + k := toNat_byte (by omega)
  have lowest : 0xF0 + k = 0xF0 ↔ k = 0 := by omega
  have highest : 0xF0 + k = 0xF4 ↔ k = 4 := by omega
  simp only [start, value]
  rw [if_neg (by omega), if_neg (by simp; omega), if_neg (by simp; omega), if_pos (by simp; omega),
    Nat.add_sub_cancel_left]
  simp only [lowest, highest]

/-!
### Characters
-/

theorem scanFrom_tail (seen : List (Option Char)) {value owed k : Nat} {low high : UInt8}
    (small : k < 64) (above : low.toNat ≤ 0x80 + k) (below : 0x80 + k ≤ high.toNat)
    (rest : List UInt8) :
    scanFrom seen (some ⟨value, owed, low, high⟩) (UInt8.ofNat (0x80 + k) :: rest) =
      if owed ≤ 1 then scanFrom (some (Char.ofNat (value * 64 + k)) :: seen) none rest
      else scanFrom seen (some ⟨value * 64 + k, owed - 1, 0x80, 0xBF⟩) rest := by
  have byte : (UInt8.ofNat (0x80 + k)).toNat = 0x80 + k := toNat_byte (by omega)
  rw [scanFrom]
  have within : (low ≤ UInt8.ofNat (0x80 + k) && UInt8.ofNat (0x80 + k) ≤ high) = true := by
    simp only [UInt8.le_iff_toNat_le, byte, Bool.and_eq_true, decide_eq_true_eq]
    exact ⟨above, below⟩
  simp only [within, if_true, byte, Nat.add_sub_cancel_left]

/-- The bytes of a character are scanned as that character. -/
theorem scanFrom_encodeChar (seen : List (Option Char)) (c : Char) (rest : List UInt8) :
    scanFrom seen none (encodeChar c ++ rest) = scanFrom (some c :: seen) none rest := by
  have same : Char.ofNat c.toNat = c := Char.ofNat_toNat c
  have valid : c.toNat < 0xD800 ∨ 0xDFFF < c.toNat ∧ c.toNat < 0x110000 := c.valid
  unfold encodeChar
  generalize c.toNat = n at same valid
  simp only
  split
  · next one =>
      rw [List.singleton_append, scanFrom, start_one one, same]
  split
  · next many two =>
      simp only [List.cons_append, List.nil_append]
      rw [scanFrom, start_two (by omega) (by omega)]
      simp only
      rw [scanFrom_tail seen (by omega) (by simp) (by simp; omega), if_pos (Nat.le_refl 1),
        Nat.div_add_mod' n 64, same]
  split
  · next three =>
      simp only [List.cons_append, List.nil_append]
      rw [scanFrom, start_three (by omega)]
      simp only
      rw [scanFrom_tail seen (by omega) (by split <;> simp; omega) (by split <;> simp <;> omega),
        if_neg (by omega), scanFrom_tail seen (by omega) (by simp) (by simp; omega), if_pos (by omega)]
      have value : (n / 4096 * 64 + n / 64 % 64) * 64 + n % 64 = n := by omega
      rw [value, same]
  · next four =>
      simp only [List.cons_append, List.nil_append]
      rw [scanFrom, start_four (by omega)]
      simp only
      rw [scanFrom_tail seen (by omega) (by split <;> simp; omega) (by split <;> simp <;> omega),
        if_neg (by omega), scanFrom_tail seen (by omega) (by simp) (by simp; omega),
        if_neg (by omega), scanFrom_tail seen (by omega) (by simp) (by simp; omega), if_pos (by omega)]
      have value : ((n / 262144 * 64 + n / 4096 % 64) * 64 + n / 64 % 64) * 64 + n % 64 = n := by
        omega
      rw [value, same]

theorem scanFrom_encode (chars : List Char) (seen : List (Option Char)) :
    scanFrom seen none (chars.flatMap encodeChar) = seen.reverse ++ chars.map some := by
  induction chars generalizing seen with
  | nil => simp [scanFrom]
  | cons c chars ih =>
      rw [List.flatMap_cons, scanFrom_encodeChar, ih, List.reverse_cons, List.append_assoc]
      rfl

/-- Reading the bytes of a text gives the text back. -/
theorem decode?_encode (s : String) : decode? (encode s) = some s := by
  have scanned : scan (encode s) = s.toList.map some := scanFrom_encode s.toList []
  unfold decode?
  simp only [scanned]
  have whole : (s.toList.map some).all Option.isSome = true := by simp
  rw [if_pos whole, List.filterMap_map]
  simp

/-- So does the lenient reading. -/
theorem decodeLossy_encode (s : String) : decodeLossy (encode s) = s := by
  have scanned : scan (encode s) = s.toList.map some := scanFrom_encode s.toList []
  unfold decodeLossy
  rw [scanned, List.map_map, show (·.getD '\uFFFD') ∘ some = (id : Char → Char) from rfl, List.map_id,
    String.ofList_toList]

/-!
### The byte-order mark
-/

/-- The bytes of a byte-order mark. -/
def mark : List UInt8 := [0xEF, 0xBB, 0xBF]

theorem prefix_scanFrom (bytes : List UInt8) (pending : Option Pending)
    (seen : List (Option Char)) : seen.reverse <+: scanFrom seen pending bytes := by
  have later {seen : List (Option Char)} {piece : Option Char} {pieces : List (Option Char)}
      (longer : (piece :: seen).reverse <+: pieces) : seen.reverse <+: pieces := by
    rw [List.reverse_cons] at longer
    exact (List.prefix_append _ _).trans longer
  induction bytes generalizing pending seen with
  | nil =>
      cases pending with
      | none => exact List.prefix_refl _
      | some p => exact later (List.prefix_refl _)
  | cons b bytes ih =>
      cases pending with
      | none =>
          rw [scanFrom]
          split
          · exact later (ih _ _)
          · exact ih _ _
          · exact later (ih _ _)
      | some p =>
          rw [scanFrom]
          split
          · simp only
            split
            · exact later (ih _ _)
            · exact ih _ _
          · split
            · exact later (later (ih _ _))
            · exact later (ih _ _)
            · exact later (later (ih _ _))

/-- The reading of bytes that begin with a byte-order mark begins with it too. -/
theorem head?_of_mark {bytes : List UInt8} {content : String} (marked : mark <+: bytes)
    (read : decode? bytes = some content) : content.toList.head? = some '\uFEFF' := by
  obtain ⟨rest, rfl⟩ := marked
  have scanned : scan (mark ++ rest) = scanFrom [some '\uFEFF'] none rest :=
    scanFrom_encodeChar [] '\uFEFF' rest
  obtain ⟨more, pieces⟩ := prefix_scanFrom rest none [some '\uFEFF']
  unfold decode? at read
  simp only [scanned, ← pieces] at read
  split at read
  · cases read
    simp
  · cases read

theorem mark_prefix_encode {content : String} (marked : content.toList.head? = some '\uFEFF') :
    mark <+: encode content := by
  cases letters : content.toList with
  | nil =>
      rw [letters] at marked
      cases marked
  | cons c chars =>
      rw [letters] at marked
      cases marked
      rw [encode, letters, List.flatMap_cons]
      exact List.prefix_append _ _

/-!
### Well-formed bytes
-/

/-- A byte that goes on with a character. -/
def Tail (b : UInt8) : Prop :=
  0x80 ≤ b.toNat ∧ b.toNat < 0xC0

/-- The bytes stand for a number: the first byte tells how many follow, and each of those adds six
bits. -/
inductive Stands : List UInt8 → Nat → Prop where
  | one {a : UInt8} (lead : a.toNat < 0x80) : Stands [a] a.toNat
  | two {a b : UInt8} (lead : 0xC0 ≤ a.toNat ∧ a.toNat < 0xE0) (second : Tail b) :
      Stands [a, b] ((a.toNat - 0xC0) * 64 + (b.toNat - 0x80))
  | three {a b c : UInt8} (lead : 0xE0 ≤ a.toNat ∧ a.toNat < 0xF0) (second : Tail b)
      (third : Tail c) :
      Stands [a, b, c] (((a.toNat - 0xE0) * 64 + (b.toNat - 0x80)) * 64 + (c.toNat - 0x80))
  | four {a b c d : UInt8} (lead : 0xF0 ≤ a.toNat ∧ a.toNat < 0xF8) (second : Tail b)
      (third : Tail c) (fourth : Tail d) :
      Stands [a, b, c, d]
        ((((a.toNat - 0xF0) * 64 + (b.toNat - 0x80)) * 64 + (c.toNat - 0x80)) * 64
          + (d.toNat - 0x80))

/-- The least number of bytes that stand for a number. -/
def width (n : Nat) : Nat :=
  if n < 0x80 then 1 else if n < 0x800 then 2 else if n < 0x10000 then 3 else 4

/-- Well-formed bytes: one form after the other, none of them overlong, cut short, for a surrogate or
for a number above U+10FFFF. -/
inductive WellFormed : List UInt8 → Prop where
  | nil : WellFormed []
  | form {form rest : List UInt8} {n : Nat} (stands : Stands form n)
      (shortest : form.length ≤ width n) (scalar : ¬ (0xD800 ≤ n ∧ n ≤ 0xDFFF))
      (small : n ≤ 0x10FFFF) (more : WellFormed rest) : WellFormed (form ++ rest)

/-!
### Forms of characters
-/

theorem stands_encodeChar (c : Char) :
    Stands (encodeChar c) c.toNat ∧ (encodeChar c).length ≤ width c.toNat := by
  have valid : c.toNat < 0xD800 ∨ 0xDFFF < c.toNat ∧ c.toNat < 0x110000 := c.valid
  have tail (k : Nat) : (UInt8.ofNat (0x80 + k % 64)).toNat = 0x80 + k % 64 :=
    toNat_byte (by omega)
  unfold encodeChar width
  generalize c.toNat = n at valid
  simp only
  split
  · next one =>
      have lead : (UInt8.ofNat n).toNat = n := toNat_byte (by omega)
      have form := Stands.one (a := UInt8.ofNat n) (by omega)
      rw [lead] at form
      exact ⟨form, Nat.le_refl 1⟩
  split
  · next two =>
      have lead : (UInt8.ofNat (0xC0 + n / 64)).toNat = 0xC0 + n / 64 := toNat_byte (by omega)
      have second := tail n
      have form := Stands.two (a := UInt8.ofNat (0xC0 + n / 64)) (by omega)
        (show Tail (UInt8.ofNat (0x80 + n % 64)) by unfold Tail; omega)
      rw [lead, second] at form
      have value : (0xC0 + n / 64 - 0xC0) * 64 + (0x80 + n % 64 - 0x80) = n := by omega
      rw [value] at form
      exact ⟨form, Nat.le_refl 2⟩
  split
  · next three =>
      have lead : (UInt8.ofNat (0xE0 + n / 4096)).toNat = 0xE0 + n / 4096 := toNat_byte (by omega)
      have second := tail (n / 64)
      have third := tail n
      have form := Stands.three (a := UInt8.ofNat (0xE0 + n / 4096)) (by omega)
        (show Tail (UInt8.ofNat (0x80 + n / 64 % 64)) by unfold Tail; omega)
        (show Tail (UInt8.ofNat (0x80 + n % 64)) by unfold Tail; omega)
      rw [lead, second, third] at form
      have value : ((0xE0 + n / 4096 - 0xE0) * 64 + (0x80 + n / 64 % 64 - 0x80)) * 64 +
          (0x80 + n % 64 - 0x80) = n := by omega
      rw [value] at form
      exact ⟨form, Nat.le_refl 3⟩
  · next four =>
      have lead : (UInt8.ofNat (0xF0 + n / 262144)).toNat = 0xF0 + n / 262144 :=
        toNat_byte (by omega)
      have second := tail (n / 4096)
      have third := tail (n / 64)
      have fourth := tail n
      have form := Stands.four (a := UInt8.ofNat (0xF0 + n / 262144)) (by omega)
        (show Tail (UInt8.ofNat (0x80 + n / 4096 % 64)) by unfold Tail; omega)
        (show Tail (UInt8.ofNat (0x80 + n / 64 % 64)) by unfold Tail; omega)
        (show Tail (UInt8.ofNat (0x80 + n % 64)) by unfold Tail; omega)
      rw [lead, second, third, fourth] at form
      have value : (((0xF0 + n / 262144 - 0xF0) * 64 + (0x80 + n / 4096 % 64 - 0x80)) * 64 +
          (0x80 + n / 64 % 64 - 0x80)) * 64 + (0x80 + n % 64 - 0x80) = n := by omega
      rw [value] at form
      exact ⟨form, Nat.le_refl 4⟩

/-- A number needs so many bytes exactly if fewer cannot hold it. -/
theorem le_width (n : Nat) :
    (2 ≤ width n ↔ 0x80 ≤ n) ∧ (3 ≤ width n ↔ 0x800 ≤ n) ∧ (4 ≤ width n ↔ 0x10000 ≤ n) := by
  unfold width
  split
  · omega
  split
  · omega
  split <;> omega

theorem ofNat_eq {n : Nat} {b : UInt8} (same : n = b.toNat) : UInt8.ofNat n = b := by
  rw [same, UInt8.ofNat_toNat]

/-- The shortest form of the number of a character is the bytes of that character. -/
theorem encodeChar_of_stands {form : List UInt8} {n : Nat} (stands : Stands form n)
    (shortest : form.length ≤ width n) (scalar : ¬ (0xD800 ≤ n ∧ n ≤ 0xDFFF))
    (small : n ≤ 0x10FFFF) : encodeChar (Char.ofNat n) = form := by
  have valid : n.isValidChar := by
    show n < 0xD800 ∨ 0xDFFF < n ∧ n < 0x110000
    omega
  have number : (Char.ofNat n).toNat = n := by
    rw [Char.ofNat, dif_pos valid]
    rfl
  obtain ⟨two, three, four⟩ := le_width n
  unfold encodeChar
  rw [number]
  cases stands with
  | one lead =>
      rw [if_pos lead, UInt8.ofNat_toNat]
  | @two a b lead second =>
      obtain ⟨low, high⟩ := second
      have least := two.mp shortest
      simp only
      rw [if_neg (by omega), if_pos (by omega), ofNat_eq (b := a) (by omega),
        ofNat_eq (b := b) (by omega)]
  | @three a b c lead second third =>
      obtain ⟨low, high⟩ := second
      obtain ⟨low', high'⟩ := third
      have least := three.mp shortest
      simp only
      rw [if_neg (by omega), if_neg (by omega), if_pos (by omega), ofNat_eq (b := a) (by omega),
        ofNat_eq (b := b) (by omega), ofNat_eq (b := c) (by omega)]
  | @four a b c d lead second third fourth =>
      obtain ⟨low, high⟩ := second
      obtain ⟨low', high'⟩ := third
      obtain ⟨low'', high''⟩ := fourth
      have least := four.mp shortest
      simp only
      rw [if_neg (by omega), if_neg (by omega), if_neg (by omega), ofNat_eq (b := a) (by omega),
        ofNat_eq (b := b) (by omega), ofNat_eq (b := c) (by omega), ofNat_eq (b := d) (by omega)]

/-- Bytes are well-formed exactly if they are the bytes of a text. -/
theorem wellFormed_iff {bytes : List UInt8} : WellFormed bytes ↔ ∃ s, encode s = bytes := by
  constructor
  · intro formed
    induction formed with
    | nil => exact ⟨"", rfl⟩
    | @form form rest n stands shortest scalar small _ ih =>
        obtain ⟨s, rfl⟩ := ih
        refine ⟨String.ofList (Char.ofNat n :: s.toList), ?_⟩
        unfold encode
        rw [String.toList_ofList, List.flatMap_cons,
          encodeChar_of_stands stands shortest scalar small]
  · rintro ⟨s, rfl⟩
    unfold encode
    induction s.toList with
    | nil => exact .nil
    | cons c chars ih =>
        obtain ⟨stands, shortest⟩ := stands_encodeChar c
        have valid : c.toNat < 0xD800 ∨ 0xDFFF < c.toNat ∧ c.toNat < 0x110000 := c.valid
        rw [List.flatMap_cons]
        exact .form stands shortest (by omega) (by omega) ih

/-!
### What the machine accepts

A malformed part that was read stays among the pieces.  So when there is none in the end, every byte
was one that the machine could go on with.
-/

/-- The pieces hold no malformed part. -/
def Unspoilt (pieces : List (Option Char)) : Prop :=
  none ∉ pieces

theorem not_unspoilt {seen : List (Option Char)} (spoilt : none ∈ seen) (pending : Option Pending)
    (bytes : List UInt8) : ¬ Unspoilt (scanFrom seen pending bytes) := by
  intro unspoilt
  apply unspoilt
  apply (prefix_scanFrom bytes pending seen).subset
  exact List.mem_reverse.mpr spoilt

/-- A byte begins a character of one byte, or one of more whose number of tails it tells. -/
theorem start_cases (a : UInt8) :
    (a.toNat < 0x80 ∧ start a = .whole (Char.ofNat a.toNat)) ∨
    (0xC2 ≤ a.toNat ∧ a.toNat < 0xE0 ∧ start a = .unfinished ⟨a.toNat - 0xC0, 1, 0x80, 0xBF⟩) ∨
    (0xE0 ≤ a.toNat ∧ a.toNat < 0xF0 ∧ start a = .unfinished ⟨a.toNat - 0xE0, 2,
      if a.toNat = 0xE0 then 0xA0 else 0x80, if a.toNat = 0xED then 0x9F else 0xBF⟩) ∨
    (0xF0 ≤ a.toNat ∧ a.toNat < 0xF5 ∧ start a = .unfinished ⟨a.toNat - 0xF0, 3,
      if a.toNat = 0xF0 then 0x90 else 0x80, if a.toNat = 0xF4 then 0x8F else 0xBF⟩) ∨
    start a = .malformed := by
  simp only [start, Bool.and_eq_true, decide_eq_true_eq]
  split
  · next one => exact Or.inl ⟨one, rfl⟩
  split
  · next two => exact Or.inr (Or.inl ⟨two.1, Nat.lt_succ_of_le two.2, rfl⟩)
  split
  · next three => exact Or.inr (Or.inr (Or.inl ⟨three.1, Nat.lt_succ_of_le three.2, rfl⟩))
  split
  · next four =>
      exact Or.inr (Or.inr (Or.inr (Or.inl ⟨four.1, Nat.lt_succ_of_le four.2, rfl⟩)))
  · exact Or.inr (Or.inr (Or.inr (Or.inr rfl)))

/-- Inside a character a byte within the range comes next, and the machine goes on with it. -/
theorem next_of_unspoilt {seen : List (Option Char)} {p : Pending} {bytes : List UInt8}
    (unspoilt : Unspoilt (scanFrom seen (some p) bytes)) :
    ∃ b rest, bytes = b :: rest ∧ p.low.toNat ≤ b.toNat ∧ b.toNat ≤ p.high.toNat ∧
      Unspoilt (if p.owed ≤ 1 then
          scanFrom (some (Char.ofNat (p.value * 64 + (b.toNat - 0x80))) :: seen) none rest
        else scanFrom seen (some ⟨p.value * 64 + (b.toNat - 0x80), p.owed - 1, 0x80, 0xBF⟩)
          rest) := by
  cases bytes with
  | nil => exact absurd (by simp [scanFrom]) unspoilt
  | cons b rest =>
      rw [scanFrom] at unspoilt
      split at unspoilt
      · next within =>
          simp only [Bool.and_eq_true, decide_eq_true_eq, UInt8.le_iff_toNat_le] at within
          exact ⟨b, rest, rfl, within.1, within.2, unspoilt⟩
      · have spoilt (piece : Option Char) : none ∈ piece :: none :: seen := by simp
        split at unspoilt
        · exact absurd unspoilt (not_unspoilt (spoilt _) _ _)
        · exact absurd unspoilt (not_unspoilt List.mem_cons_self _ _)
        · exact absurd unspoilt (not_unspoilt (spoilt _) _ _)

/-- The machine reads one form, and goes on behind it. -/
theorem form_of_unspoilt {seen : List (Option Char)} {a : UInt8} {bytes : List UInt8}
    (unspoilt : Unspoilt (scanFrom seen none (a :: bytes))) :
    ∃ form rest n c, a :: bytes = form ++ rest ∧ form ≠ [] ∧ Stands form n ∧
      form.length ≤ width n ∧ ¬ (0xD800 ≤ n ∧ n ≤ 0xDFFF) ∧ n ≤ 0x10FFFF ∧
      Unspoilt (scanFrom (some c :: seen) none rest) := by
  rw [scanFrom] at unspoilt
  rcases start_cases a with ⟨small, begun⟩ | ⟨low, high, begun⟩ | ⟨low, high, begun⟩ |
    ⟨low, high, begun⟩ | begun
  · rw [begun] at unspoilt
    have shortest : width a.toNat = 1 := if_pos small
    exact ⟨[a], bytes, a.toNat, _, rfl, List.cons_ne_nil _ _, .one small,
      Nat.le_of_eq shortest.symm, by omega, by omega, unspoilt⟩
  · rw [begun] at unspoilt
    obtain ⟨b, rest, rfl, low', high', more⟩ := next_of_unspoilt unspoilt
    simp only [UInt8.reduceToNat] at low' high'
    refine ⟨[a, b], rest, _, _, rfl, List.cons_ne_nil _ _,
      .two ⟨by omega, high⟩ ⟨low', by omega⟩, ?_, by omega, by omega, more⟩
    exact (le_width _).1.mpr (by omega)
  · rw [begun] at unspoilt
    obtain ⟨b, behind, rfl, low', high', more⟩ := next_of_unspoilt unspoilt
    obtain ⟨c, rest, rfl, third, third', more'⟩ := next_of_unspoilt more
    dsimp only at low' high'
    simp only [UInt8.reduceToNat] at third third'
    -- the range of the second byte shuts out overlong forms and surrogates
    have below : 0x80 ≤ b.toNat ∧ (a.toNat = 0xE0 → 0xA0 ≤ b.toNat) := by
      split at low' <;> simp only [UInt8.reduceToNat] at low' <;> omega
    have above : b.toNat < 0xC0 ∧ (a.toNat = 0xED → b.toNat < 0xA0) := by
      split at high' <;> simp only [UInt8.reduceToNat] at high' <;> omega
    refine ⟨[a, b, c], rest, _, _, rfl, List.cons_ne_nil _ _,
      .three ⟨low, high⟩ ⟨below.1, above.1⟩ ⟨third, by omega⟩, ?_, by omega, by omega, more'⟩
    exact (le_width _).2.1.mpr (by omega)
  · rw [begun] at unspoilt
    obtain ⟨b, behind, rfl, low', high', more⟩ := next_of_unspoilt unspoilt
    obtain ⟨c, behind, rfl, third, third', more'⟩ := next_of_unspoilt more
    obtain ⟨d, rest, rfl, fourth, fourth', more''⟩ := next_of_unspoilt more'
    dsimp only at low' high'
    simp only [UInt8.reduceToNat] at third third' fourth fourth'
    -- the range of the second byte shuts out overlong forms and numbers above U+10FFFF
    have below : 0x80 ≤ b.toNat ∧ (a.toNat = 0xF0 → 0x90 ≤ b.toNat) := by
      split at low' <;> simp only [UInt8.reduceToNat] at low' <;> omega
    have above : b.toNat < 0xC0 ∧ (a.toNat = 0xF4 → b.toNat < 0x90) := by
      split at high' <;> simp only [UInt8.reduceToNat] at high' <;> omega
    refine ⟨[a, b, c, d], rest, _, _, rfl, List.cons_ne_nil _ _,
      .four ⟨low, by omega⟩ ⟨below.1, above.1⟩ ⟨third, by omega⟩ ⟨fourth, by omega⟩, ?_, by omega,
      by omega, more''⟩
    exact (le_width _).2.2.mpr (by omega)
  · rw [begun] at unspoilt
    exact absurd unspoilt (not_unspoilt List.mem_cons_self _ _)

/-- Bytes without a malformed part are well-formed. -/
theorem wellFormed_of_scanFrom (bytes : List UInt8) :
    ∀ {seen : List (Option Char)}, Unspoilt (scanFrom seen none bytes) → WellFormed bytes := by
  induction bytes using WellFounded.induction (measure List.length).wf with
  | _ bytes ih =>
      intro seen unspoilt
      cases bytes with
      | nil => exact .nil
      | cons a bytes =>
          obtain ⟨form, rest, n, c, split, named, stands, shortest, scalar, small, more⟩ :=
            form_of_unspoilt unspoilt
          have shorter : rest.length < (a :: bytes).length := by
            rw [split, List.length_append]
            exact Nat.lt_add_of_pos_left (List.length_pos_iff.mpr named)
          rw [split]
          exact .form stands shortest scalar small (ih rest shorter more)

/-- Bytes are read as a text exactly if they are the bytes of that text. -/
theorem decode?_eq_some_iff {bytes : List UInt8} {s : String} :
    decode? bytes = some s ↔ encode s = bytes := by
  constructor
  · intro read
    have formed : WellFormed bytes := by
      apply wellFormed_of_scanFrom bytes
      intro spoilt
      unfold decode? at read
      simp only at read
      split at read
      · next whole => exact absurd (List.all_eq_true.mp whole none spoilt) (by decide)
      · cases read
    obtain ⟨text, rfl⟩ := wellFormed_iff.mp formed
    rw [decode?_encode] at read
    rw [Option.some.inj read]
  · rintro rfl
    exact decode?_encode s

/-- Bytes are refused exactly if they are not well-formed. -/
theorem decode?_eq_none_iff {bytes : List UInt8} : decode? bytes = none ↔ ¬ WellFormed bytes := by
  rw [Option.eq_none_iff_forall_not_mem, wellFormed_iff, not_exists]
  exact forall_congr' fun s => not_congr decode?_eq_some_iff

end SuperCalls.Text.Utf8
