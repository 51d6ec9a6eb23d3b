import Muduo.Lines

/-! Self-delimiting texts. A codec writes values as lists of symbols and reads a value back from the front
of a list, together with what is behind it. Codecs are put together from parts; a value may say how the
part behind it is to be read. What is read is what was written, and nothing else is read. -/

/-- The text of a valid value is read back whatever stands behind it, and only texts are read. -/
structure Codec (α β : Type*) where
  text : β → List α
  Valid : β → Prop
  read : List α → Option (β × List α)
  read_text : ∀ {value} (later : List α), Valid value → read (text value ++ later) = some (value, later)
  text_of_read : ∀ {list value rest}, read list = some (value, rest) → list = text value ++ rest

namespace Codec

variable {α β γ : Type*}

/-! ## Parts -/

/-- As many symbols as are announced, if any number is. -/
def exactly (announced : Option Nat) : Codec α (List α) where
  text := id
  Valid value := announced = some value.length
  read list := announced.bind fun n =>
    if n ≤ list.length then some (list.take n, list.drop n) else none
  read_text {value} later hvalid := by
    have hfits : value.length ≤ (value ++ later).length := by simp
    rw [hvalid, Option.bind_some, id, if_pos hfits, List.take_left, List.drop_left]
  text_of_read {list value rest} hread := by
    obtain ⟨n, -, htaken⟩ := Option.bind_eq_some_iff.mp hread
    split_ifs at htaken
    rw [Option.some.injEq, Prod.mk.injEq] at htaken
    rw [← htaken.1, ← htaken.2]
    exact (List.take_append_drop n list).symm

/-- One part behind another. How the second is read depends on the value of the first. -/
def bind (first : Codec α β) (second : β → Codec α γ) : Codec α (β × γ) where
  text value := first.text value.1 ++ (second value.1).text value.2
  Valid value := first.Valid value.1 ∧ (second value.1).Valid value.2
  read list := (first.read list).bind fun front =>
    ((second front.1).read front.2).map fun back => ((front.1, back.1), back.2)
  read_text {value} later hvalid := by
    rw [List.append_assoc, first.read_text _ hvalid.1, Option.bind_some,
      (second value.1).read_text _ hvalid.2]
    rfl
  text_of_read {list value rest} hread := by
    obtain ⟨⟨front, middle⟩, hfirst, hmap⟩ := Option.bind_eq_some_iff.mp hread
    obtain ⟨⟨back, last⟩, hsecond, hvalue⟩ := Option.map_eq_some_iff.mp hmap
    rw [Prod.mk.injEq] at hvalue
    obtain ⟨rfl, rfl⟩ := hvalue
    have hback : middle = (second front).text back ++ last := (second front).text_of_read hsecond
    rw [first.text_of_read hfirst, hback]
    exact (List.append_assoc _ _ _).symm

/-- Values of another kind, written as values of the first. -/
def convert (c : Codec α β) (print : γ → β) (parse : β → Option γ) (Fit : γ → Prop)
    (hparse : ∀ {value}, Fit value → parse (print value) = some value)
    (hprint : ∀ {written value}, parse written = some value → written = print value) :
    Codec α γ where
  text value := c.text (print value)
  Valid value := Fit value ∧ c.Valid (print value)
  read list := (c.read list).bind fun front => (parse front.1).map fun value => (value, front.2)
  read_text {value} later hvalid := by
    rw [c.read_text later hvalid.2, Option.bind_some, hparse hvalid.1]
    rfl
  text_of_read {list value rest} hread := by
    obtain ⟨⟨written, behind⟩, hfirst, hmap⟩ := Option.bind_eq_some_iff.mp hread
    obtain ⟨other, hother, hvalue⟩ := Option.map_eq_some_iff.mp hmap
    rw [Prod.mk.injEq] at hvalue
    obtain ⟨rfl, rfl⟩ := hvalue
    have hwritten : written = print other := hprint hother
    rw [c.text_of_read hfirst, hwritten]

/-! ## Lines -/

section Lines

variable {a b : α} [DecidableEq α]

/-- A line, up to the first pair that ends one. -/
def line (hne : a ≠ b) : Codec α (List α) where
  text value := value ++ [a, b]
  Valid value := ¬ [a, b] <:+: value
  read list := (Lines.find a b list).map fun n => (list.take n, list.drop (n + 2))
  read_text {value} later hvalid := by
    rw [List.append_assoc, List.cons_append, List.cons_append, List.nil_append,
      Lines.find_line hne hvalid, Option.map_some, List.take_left, Lines.drop_line]
  text_of_read {list value rest} hread := by
    obtain ⟨n, hfind, hvalue⟩ := Option.map_eq_some_iff.mp hread
    obtain ⟨front, later, rfl, rfl, -⟩ := Lines.find_eq_some hfind
    rw [List.take_left, Lines.drop_line, Prod.mk.injEq] at hvalue
    obtain ⟨rfl, rfl⟩ := hvalue
    rw [List.append_assoc]
    rfl

/-- Read lines up to the first empty one, for a number of lines. -/
def readBlock (hne : a ≠ b) : Nat → List α → Option (List (List α) × List α)
  | 0, _ => none
  | count + 1, list =>
      match (line hne).read list with
      | none => none
      | some ([], rest) => some ([], rest)
      | some (x :: xs, rest) =>
          (readBlock hne count rest).map fun block => ((x :: xs) :: block.1, block.2)

/-- The lines with the empty one behind them. -/
def blockText (hne : a ≠ b) (lines : List (List α)) : List α :=
  lines.flatMap (line hne).text ++ (line hne).text []

theorem readBlock_text (hne : a ≠ b) {lines : List (List α)}
    (hlines : ∀ l ∈ lines, l ≠ [] ∧ ¬ [a, b] <:+: l) (later : List α) {count : Nat}
    (hcount : lines.length < count) :
    readBlock hne count (blockText hne lines ++ later) = some (lines, later) := by
  induction lines generalizing count with
  | nil =>
      obtain ⟨count, rfl⟩ := Nat.exists_eq_add_of_lt hcount
      have hempty : (line hne).Valid [] := by simp [line]
      have hread := (line hne).read_text later hempty
      simp only [blockText, List.flatMap_nil, List.nil_append, readBlock, hread]
  | cons first lines ih =>
      obtain ⟨count, rfl⟩ : ∃ n, count = n + 1 := ⟨count - 1, by omega⟩
      rw [List.length_cons] at hcount
      obtain ⟨hsome, hplain⟩ := hlines first List.mem_cons_self
      have hrest := ih (fun l hl => hlines l (List.mem_cons_of_mem _ hl)) (Nat.lt_of_succ_lt_succ hcount)
      have hread := (line hne).read_text (blockText hne lines ++ later) hplain
      have htext : blockText hne (first :: lines) ++ later =
          (line hne).text first ++ (blockText hne lines ++ later) := by
        simp only [blockText, List.flatMap_cons, List.append_assoc]
      obtain ⟨x, xs, rfl⟩ := List.exists_cons_of_ne_nil hsome
      rw [htext, readBlock, hread]
      simp only [hrest, Option.map_some]

theorem text_of_readBlock (hne : a ≠ b) {count : Nat} {list rest : List α} {lines : List (List α)}
    (hread : readBlock hne count list = some (lines, rest)) : list = blockText hne lines ++ rest := by
  induction count generalizing list lines with
  | zero => cases hread
  | succ count ih =>
      rw [readBlock] at hread
      split at hread
      · cases hread
      · rename_i later hline
        cases hread
        exact (line hne).text_of_read hline
      · rename_i x xs later hline
        obtain ⟨⟨block, last⟩, hblock, hvalue⟩ := Option.map_eq_some_iff.mp hread
        rw [Prod.mk.injEq] at hvalue
        obtain ⟨rfl, rfl⟩ := hvalue
        rw [(line hne).text_of_read hline, ih hblock]
        simp only [blockText, List.flatMap_cons, List.append_assoc]

theorem length_lt_blockText (hne : a ≠ b) (lines : List (List α)) :
    lines.length < (blockText hne lines).length := by
  have hmany : lines.length ≤ (lines.flatMap (line hne).text).length := by
    induction lines with
    | nil => exact Nat.le_refl _
    | cons first lines ih =>
        rw [List.flatMap_cons, List.length_append, List.length_cons]
        have hfirst : 2 ≤ ((line hne).text first).length := by simp [line]
        omega
  have hlast : ((line hne).text []).length = 2 := rfl
  rw [blockText, List.length_append, hlast]
  omega

/-- Lines, up to the first empty one. -/
def block (hne : a ≠ b) : Codec α (List (List α)) where
  text := blockText hne
  Valid lines := ∀ l ∈ lines, l ≠ [] ∧ ¬ [a, b] <:+: l
  read list := readBlock hne list.length list
  read_text {lines} later hvalid := by
    apply readBlock_text hne hvalid later
    have := length_lt_blockText hne lines
    rw [List.length_append]
    omega
  text_of_read hread := text_of_readBlock hne hread

end Lines

/-! ## Whole lists -/

/-- Read values to the end of a list, for a number of values. -/
def readAll (c : Codec α β) : Nat → List α → Option (List β)
  | _, [] => some []
  | 0, _ :: _ => none
  | count + 1, x :: xs =>
      match c.read (x :: xs) with
      | none => none
      | some (value, rest) => (readAll c count rest).map (value :: ·)

/-- The values a list consists of. -/
def decode (c : Codec α β) (list : List α) : Option (List β) := c.readAll list.length list

variable {c : Codec α β}

theorem readAll_texts (hsome : ∀ value, c.text value ≠ []) {values : List β}
    (hvalid : ∀ value ∈ values, c.Valid value) {count : Nat} (hcount : values.length ≤ count) :
    c.readAll count (values.flatMap c.text) = some values := by
  induction values generalizing count with
  | nil => cases count <;> rfl
  | cons value values ih =>
      obtain ⟨count, rfl⟩ : ∃ n, count = n + 1 := ⟨count - 1, by rw [List.length_cons] at hcount; omega⟩
      have hrest := ih (fun v hv => hvalid v (List.mem_cons_of_mem _ hv)) (Nat.le_of_succ_le_succ hcount)
      have hread := c.read_text (values.flatMap c.text) (hvalid value List.mem_cons_self)
      obtain ⟨x, xs, htext⟩ := List.exists_cons_of_ne_nil (hsome value)
      rw [List.flatMap_cons]
      rw [htext, List.cons_append] at hread ⊢
      rw [readAll, hread]
      simp only [hrest, Option.map_some]

theorem length_le_texts (hsome : ∀ value, c.text value ≠ []) (values : List β) :
    values.length ≤ (values.flatMap c.text).length := by
  induction values with
  | nil => exact Nat.le_refl _
  | cons value values ih =>
      have := List.length_pos_iff.mpr (hsome value)
      rw [List.flatMap_cons, List.length_append, List.length_cons]
      omega

/-- **Reading back.** The concatenation of texts is read as the values. -/
theorem decode_texts (hsome : ∀ value, c.text value ≠ []) {values : List β}
    (hvalid : ∀ value ∈ values, c.Valid value) : c.decode (values.flatMap c.text) = some values :=
  readAll_texts hsome hvalid (length_le_texts hsome values)

/-- What is decoded is a concatenation of texts. -/
theorem texts_of_decode {list : List α} {values : List β} (hdecode : c.decode list = some values) :
    list = values.flatMap c.text := by
  rw [decode] at hdecode
  generalize list.length = count at hdecode
  induction count generalizing list values with
  | zero =>
      cases list with
      | nil =>
          cases hdecode
          rfl
      | cons x xs => cases hdecode
  | succ count ih =>
      cases list with
      | nil =>
          cases hdecode
          rfl
      | cons x xs =>
          rw [readAll] at hdecode
          split at hdecode
          · cases hdecode
          · rename_i value rest hread
            obtain ⟨others, hothers, rfl⟩ := Option.map_eq_some_iff.mp hdecode
            rw [c.text_of_read hread, ih hothers, List.flatMap_cons]

end Codec
