/-
Module: SuperCalls.Proofs.Text.JsonRoundTrip
Purpose: The reading of a JSON text that was written gives the value back, for every value without
  numbers whose objects have their keys in order.
Main exports: Json.stringTail_quoted, Json.Legible, Json.Legible.reads, Json.read_render
-/
import SuperCalls.Json.Reader
import SuperCalls.Proofs.Rules.ListedCounts

namespace SuperCalls.Json

/-!
### Strings
-/

/-- A control character is read from its hexadecimal digits. -/
theorem hexUnit?_hexDigit {n : Nat} (small : n < 32) :
    hexUnit? '0' '0' (hexDigit (n / 16)) (hexDigit (n % 16)) = some n := by
  revert n
  decide

/-- The escape of a control character is read as the character. -/
theorem pushUnit_of_control (seen : List Char) {c : Char} (control : c.toNat < 0x20) :
    StringPart.pushUnit ⟨seen, none⟩ c.toNat = ⟨c :: seen, none⟩ := by
  unfold StringPart.pushUnit
  have low : ¬ (0xD800 ≤ c.toNat && c.toNat < 0xDC00) = true := by simp; omega
  have high : ¬ (0xDC00 ≤ c.toNat && c.toNat < 0xE000) = true := by simp; omega
  rw [if_neg low, if_neg high, Char.ofNat_toNat]
  rfl

/-- A character that needs no escape is read as it is. -/
theorem stringTail_of_plain (seen : List Char) {c : Char} (noQuote : c ≠ '"') (noEscape : c ≠ '\\')
    (noControl : ¬ c.toNat < 0x20) (rest : List Char) :
    stringTail ⟨seen, none⟩ (c :: rest) = stringTail ⟨c :: seen, none⟩ rest := by
  rw [stringTail.eq_def]
  split
  case h_7 same =>
    cases same
    rw [if_neg noControl]
    rfl
  all_goals simp_all

/-- An escaped character is read as the character. -/
theorem stringTail_escape (seen : List Char) (c : Char) (rest : List Char) :
    stringTail ⟨seen, none⟩ (escape c ++ rest) = stringTail ⟨c :: seen, none⟩ rest := by
  have known {n : Nat} (code : c.toNat = n) : Char.ofNat n = c := by rw [← code, Char.ofNat_toNat]
  unfold escape
  split
  · next quote => subst quote; rfl
  next noQuote =>
  split
  · next backslash => subst backslash; rfl
  next noEscape =>
  split
  · next feed => subst feed; rfl
  split
  · next tab => subst tab; rfl
  split
  · next back => subst back; rfl
  split
  · next code => cases known code; rfl
  split
  · next code => cases known code; rfl
  split
  · next control =>
      simp only [List.cons_append, List.nil_append]
      rw [stringTail, hexUnit?_hexDigit control]
      simp only [pushUnit_of_control seen control]
  · next noControl => exact stringTail_of_plain seen noQuote noEscape noControl rest

/-- The characters of a text are read from their escapes. -/
theorem stringTail_escapes (text seen rest : List Char) :
    stringTail ⟨seen, none⟩ (text.flatMap escape ++ '"' :: rest) =
      .ok (String.ofList (seen.reverse ++ text), rest) := by
  induction text generalizing seen with
  | nil =>
      rw [List.append_nil]
      rfl
  | cons c text ih =>
      rw [List.flatMap_cons, List.append_assoc, stringTail_escape, ih, List.reverse_cons,
        List.append_assoc]
      rfl

theorem toList_quote (s : String) : (quote s).toList = '"' :: (s.toList.flatMap escape ++ ['"']) :=
  String.toList_ofList

/-- A text between quotes is read as the text. -/
theorem stringTail_quoted (s : String) (rest : List Char) :
    stringTail ⟨[], none⟩ (s.toList.flatMap escape ++ '"' :: rest) = .ok (s, rest) := by
  rw [stringTail_escapes, List.reverse_nil, List.nil_append, String.ofList_toList]

/-!
### Values

A value is read from its text whatever follows it, if the number of steps is bounded by the length
of the text or by more.
-/

/-- A value that the reader gives back: it holds no number, and the keys of each object in it are
distinct and in the order of records. -/
inductive Legible : Json → Prop where
  | null : Legible .null
  | bool (b : Bool) : Legible (.bool b)
  | string (s : String) : Legible (.string s)
  | array {list : List Json} (each : ∀ json ∈ list, Legible json) : Legible (.array list)
  | object {record : Record Json} (each : ∀ field ∈ record, Legible field.2)
      (keyed : record.Keyed) (ordered : record.Ordered) : Legible (.object record)

/-- A value is read from its text. -/
def Reads (json : Json) : Prop :=
  ∀ bound rest, (render json).toList.length ≤ bound →
    value bound ((render json).toList ++ rest) = .ok (json, rest)

theorem toList_array (list : List Json) :
    (render (.array list)).toList = '[' :: ((renderItems list).toList ++ [']']) := by
  rw [render, String.toList_append, String.toList_append]
  rfl

theorem toList_object (record : Record Json) :
    (render (.object record)).toList = '\x7b' :: ((renderFields record).toList ++ ['\x7d']) := by
  rw [render, String.toList_append, String.toList_append]
  rfl

theorem toList_renderItems_cons (json next : Json) (list : List Json) :
    (renderItems (json :: next :: list)).toList =
      (render json).toList ++ ',' :: (renderItems (next :: list)).toList := by
  rw [renderItems, String.toList_append, String.toList_append, List.append_assoc]
  · rfl
  · exact List.cons_ne_nil next list

theorem toList_renderFields_singleton (key : String) (json : Json) :
    (renderFields [(key, json)]).toList = (quote key).toList ++ ':' :: (render json).toList := by
  rw [renderFields, String.toList_append, String.toList_append, List.append_assoc]
  rfl

theorem toList_renderFields_cons (key : String) (json : Json) (next : String × Json)
    (record : Record Json) :
    (renderFields ((key, json) :: next :: record)).toList =
      (quote key).toList ++ ':' ::
        ((render json).toList ++ ',' :: (renderFields (next :: record)).toList) := by
  rw [renderFields, String.toList_append, String.toList_append, String.toList_append,
    String.toList_append]
  · simp
  · exact List.cons_ne_nil next record

/-- The text of a value begins with a character that is neither blank nor a closing bracket. -/
theorem Legible.starts {json : Json} (legible : Legible json) :
    ∃ c more, (render json).toList = c :: more ∧ c ∈ ['n', 't', 'f', '"', '[', '\x7b'] := by
  cases legible with
  | null => exact ⟨'n', _, rfl, by decide⟩
  | bool b =>
      cases b with
      | true => exact ⟨'t', _, rfl, by decide⟩
      | false => exact ⟨'f', _, rfl, by decide⟩
  | string s => exact ⟨'"', _, toList_quote s, by decide⟩
  | array _ => exact ⟨'[', _, toList_array _, by decide⟩
  | object _ _ _ => exact ⟨'\x7b', _, toList_object _, by decide⟩

theorem Legible.exists_succ {json : Json} (legible : Legible json) {bound : Nat}
    (enough : (render json).toList.length ≤ bound) : ∃ less, bound = less + 1 := by
  obtain ⟨c, more, text, _⟩ := legible.starts
  rw [text, List.length_cons] at enough
  exact ⟨bound - 1, by omega⟩

theorem skipBlanks_of_starts {c : Char} (starts : c ∈ ['n', 't', 'f', '"', '[', '\x7b'])
    (text : List Char) : skipBlanks (c :: text) = c :: text := by
  have solid : (c == ' ' || c == '\t' || c == '\n' || c == '\r') = false := by
    simp only [List.mem_cons, List.not_mem_nil, or_false] at starts
    rcases starts with rfl | rfl | rfl | rfl | rfl | rfl <;> rfl
  rw [skipBlanks, List.dropWhile_cons, solid]
  rfl

theorem Legible.starts_items {json : Json} (legible : Legible json) (list : List Json) :
    ∃ c more, (renderItems (json :: list)).toList = c :: more ∧
      c ∈ ['n', 't', 'f', '"', '[', '\x7b'] := by
  obtain ⟨c, more, text, starts⟩ := legible.starts
  cases list with
  | nil => exact ⟨c, more, by rw [renderItems, text], starts⟩
  | cons next list => exact ⟨c, _, by rw [toList_renderItems_cons, text, List.cons_append], starts⟩

theorem starts_fields (field : String × Json) (record : Record Json) :
    ∃ more, (renderFields (field :: record)).toList = '"' :: more := by
  obtain ⟨key, json⟩ := field
  cases record with
  | nil => exact ⟨_, by rw [toList_renderFields_singleton, toList_quote, List.cons_append]⟩
  | cons next record => exact ⟨_, by rw [toList_renderFields_cons, toList_quote, List.cons_append]⟩

section Steps

variable {bound : Nat} {json : Json} {text more : List Char}

/-- An opening bracket and the beginning of a value open an array with items. -/
theorem value_of_bracket {c : Char} (starts : c ∈ ['n', 't', 'f', '"', '[', '\x7b']) :
    value (bound + 1) ('[' :: c :: text) = items bound [] (c :: text) := by
  rw [value, skipBlanks_of_starts (by decide)]
  simp only [skipBlanks_of_starts starts]
  split
  · next closed =>
      cases closed
      exact absurd starts (by decide)
  · rfl

/-- An opening brace and a quote open an object with fields. -/
theorem value_of_brace :
    value (bound + 1) ('\x7b' :: '"' :: text) = fields bound .noName [] ('"' :: text) := by
  rw [value, skipBlanks_of_starts (by decide)]
  simp only [skipBlanks_of_starts (show '"' ∈ ['n', 't', 'f', '"', '[', '\x7b'] by decide)]
  rfl

theorem items_of_comma {seen : List Json} (item : value bound text = .ok (json, ',' :: more)) :
    items (bound + 1) seen text = items bound (json :: seen) more := by
  rw [items, item]
  rfl

theorem items_of_end {seen : List Json} (item : value bound text = .ok (json, ']' :: more)) :
    items (bound + 1) seen text = .ok (.array (json :: seen).reverse, more) := by
  rw [items, item]
  rfl

/-- A name in quotes and a colon are read as the name. -/
theorem fieldName_quote (fault : SyntaxFault) (key : String) (rest : List Char) :
    fieldName fault ((quote key).toList ++ ':' :: rest) = .ok (key, rest) := by
  have start : skipBlanks ((quote key).toList ++ ':' :: rest) =
      '"' :: (key.toList.flatMap escape ++ '"' :: ':' :: rest) := by
    rw [toList_quote]
    simp [skipBlanks]
  rw [fieldName, start]
  simp only [stringTail_quoted]
  rfl

variable {fault : SyntaxFault} {seen : Record Json} {key : String}

theorem fields_of_comma (field : value bound text = .ok (json, ',' :: more)) :
    fields (bound + 1) fault seen ((quote key).toList ++ ':' :: text) =
      fields bound .noQuotedName (seen.set key json) more := by
  rw [fields, fieldName_quote]
  simp only [bind, Except.bind, field]
  rfl

theorem fields_of_end (field : value bound text = .ok (json, '\x7d' :: more)) :
    fields (bound + 1) fault seen ((quote key).toList ++ ':' :: text) =
      .ok (.object (seen.set key json), more) := by
  rw [fields, fieldName_quote]
  simp only [bind, Except.bind, field]
  rfl

end Steps

/-- The items of an array are read behind those that were read before. -/
theorem items_render {list : List Json} (each : ∀ json ∈ list, Reads json) (some : list ≠ [])
    (rest : List Char) :
    ∀ bound seen, (renderItems list).toList.length + 1 ≤ bound →
      items bound seen ((renderItems list).toList ++ ']' :: rest) =
        .ok (.array (seen.reverse ++ list), rest) := by
  induction list with
  | nil => exact absurd rfl some
  | cons json list ih =>
      intro bound seen enough
      obtain ⟨bound, rfl⟩ : ∃ less, bound = less + 1 := ⟨bound - 1, by omega⟩
      cases list with
      | nil =>
          rw [renderItems] at enough ⊢
          rw [items_of_end (each json List.mem_cons_self bound _ (by omega)), List.reverse_cons]
      | cons next list =>
          rw [toList_renderItems_cons] at enough ⊢
          rw [List.length_append, List.length_cons] at enough
          rw [List.append_assoc, List.cons_append,
            items_of_comma (each json List.mem_cons_self bound _ (by omega)),
            ih (fun other member => each other (List.mem_cons_of_mem json member))
              (List.cons_ne_nil next list) bound (json :: seen) (by omega),
            List.reverse_cons, List.append_assoc, List.singleton_append]

/-- The fields of an object are read behind those that were read before. -/
theorem fields_render {record : Record Json} (each : ∀ field ∈ record, Reads field.2)
    (some : record ≠ []) (rest : List Char) :
    ∀ bound fault (seen : Record Json), (renderFields record).toList.length + 1 ≤ bound →
      Record.Keyed (seen ++ record) → Record.Ordered (seen ++ record) →
      fields bound fault seen ((renderFields record).toList ++ '\x7d' :: rest) =
        .ok (.object (seen ++ record), rest) := by
  induction record with
  | nil => exact absurd rfl some
  | cons field record ih =>
      obtain ⟨key, json⟩ := field
      intro bound fault seen enough keyed ordered
      have set : seen.set key json = seen ++ [(key, json)] := by
        rw [Record.Keyed, List.map_append] at keyed
        rw [Record.Ordered, List.map_append] at ordered
        obtain ⟨_, _, apart⟩ := List.nodup_append.mp keyed
        obtain ⟨_, _, leads⟩ := List.pairwise_append.mp ordered
        exact Record.set_of_leads (fun member => apart key member key List.mem_cons_self rfl)
          fun name member => leads name member key List.mem_cons_self
      obtain ⟨bound, rfl⟩ : ∃ less, bound = less + 1 := ⟨bound - 1, by omega⟩
      cases record with
      | nil =>
          rw [toList_renderFields_singleton] at enough ⊢
          rw [List.length_append, List.length_cons] at enough
          rw [List.append_assoc, List.cons_append,
            fields_of_end (each _ List.mem_cons_self bound _ (by dsimp only; omega)), set]
      | cons next record =>
          rw [toList_renderFields_cons] at enough ⊢
          simp only [List.length_append, List.length_cons] at enough
          have same : seen ++ (key, json) :: next :: record =
              (seen ++ [(key, json)]) ++ next :: record := by
            rw [List.append_assoc, List.singleton_append]
          rw [same] at keyed ordered ⊢
          rw [List.append_assoc, List.cons_append, List.append_assoc, List.cons_append,
            fields_of_comma (each _ List.mem_cons_self bound _ (by dsimp only; omega)), set]
          exact ih (fun other member => each other (List.mem_cons_of_mem _ member))
            (List.cons_ne_nil next record) bound .noQuotedName _ (by omega) keyed ordered

/-- A value that is legible is read from its text. -/
theorem Legible.reads {json : Json} (legible : Legible json) : Reads json := by
  induction legible with
  | null =>
      intro bound rest enough
      obtain ⟨bound, rfl⟩ := Legible.null.exists_succ enough
      rfl
  | bool b =>
      intro bound rest enough
      obtain ⟨bound, rfl⟩ := (Legible.bool b).exists_succ enough
      cases b <;> rfl
  | string s =>
      intro bound rest enough
      obtain ⟨bound, rfl⟩ := (Legible.string s).exists_succ enough
      rw [render, toList_quote, List.cons_append, List.append_assoc, value,
        skipBlanks_of_starts (by decide)]
      simp only [List.singleton_append, stringTail_quoted]
      rfl
  | @array list each ih =>
      intro bound rest enough
      obtain ⟨bound, rfl⟩ := (Legible.array each).exists_succ enough
      rw [toList_array] at enough ⊢
      simp only [List.length_cons, List.length_append, List.length_nil] at enough
      rw [List.cons_append, List.append_assoc, List.singleton_append]
      cases list with
      | nil => rfl
      | cons json list =>
          have read := items_render ih (List.cons_ne_nil json list) rest bound [] (by omega)
          obtain ⟨c, more, text, starts⟩ := (each json List.mem_cons_self).starts_items list
          rw [text, List.cons_append] at read ⊢
          rw [value_of_bracket starts, read]
          rfl
  | @object record each keyed ordered ih =>
      intro bound rest enough
      obtain ⟨bound, rfl⟩ := (Legible.object each keyed ordered).exists_succ enough
      rw [toList_object] at enough ⊢
      simp only [List.length_cons, List.length_append, List.length_nil] at enough
      rw [List.cons_append, List.append_assoc, List.singleton_append]
      cases record with
      | nil => rfl
      | cons field record =>
          have read := fields_render ih (List.cons_ne_nil field record) rest bound .noName []
            (by omega) keyed ordered
          obtain ⟨more, text⟩ := starts_fields field record
          rw [text, List.cons_append] at read ⊢
          rw [value_of_brace, read]
          rfl

/-- The text of a legible value is read as the value. -/
theorem read_render {json : Json} (legible : Legible json) : read (render json) = .ok json := by
  have first := legible.reads (2 * (render json).toList.length + 2) [] (by omega)
  rw [List.append_nil] at first
  simp only [read, first]
  rfl

end SuperCalls.Json
