import HeapWalk.Proofs.JsonLibrary
import HeapWalk.Proofs.Tokens

/-!
# A written tree is read back

`Reads limit item j x`: the reader `item` answers `x` for every text that writes `j`, whatever
blanks stand before it and whatever follows it. The containers pass this on: a list is read if its
items are (`reads_list`), an object if its values are (`reads_map`), and a node if the fields that
fill it are (`derived_readNode`). So the readers that the program runs on are a standard library
(`standard_ownReaders`).

A tree is read back from every text that writes it, by any standard library
(`fromText_written_tree`) and by the program's own reader (`read_written_tree`).
-/

set_option autoImplicit false

namespace HeapWalk.Tree

open Json

/-! ## What stands between tokens -/

theorem blank_nil : Blank [] := fun _ hc => absurd hc List.not_mem_nil

theorem endsNumeral_cons {c : Char} (hc : c.isDigit = false ∧ c ≠ '.' ∧ c ≠ 'e' ∧ c ≠ 'E')
    (rest : List Char) : EndsNumeral (c :: rest) := by
  intro c' hc'
  cases hc'
  exact hc

theorem EndsNumeral.blank {b rest : List Char} (hb : Blank b) (hr : EndsNumeral rest) :
    EndsNumeral (b ++ rest) := by
  cases b with
  | nil => exact hr
  | cons c b =>
    refine endsNumeral_cons ?_ _
    rcases hb c List.mem_cons_self with rfl | rfl | rfl | rfl <;> decide

theorem endsNumeral_items {items : List Json} {more : List Char} (hm : WritesItems items more)
    (rest : List Char) : EndsNumeral (more ++ ']' :: rest) := by
  cases hm with
  | nil hb => exact .blank hb (endsNumeral_cons (by decide) _)
  | cons hb =>
    rw [List.append_assoc]
    exact .blank hb (endsNumeral_cons (by decide) _)

theorem endsNumeral_fields {fields : List (String × Json)} {more : List Char}
    (hm : WritesFields fields more) (rest : List Char) : EndsNumeral (more ++ '}' :: rest) := by
  cases hm with
  | nil hb => exact .blank hb (endsNumeral_cons (by decide) _)
  | cons hb =>
    rw [List.append_assoc]
    exact .blank hb (endsNumeral_cons (by decide) _)

/-- A written value does not begin like a blank or the end of a list. -/
theorem exists_cons_of_writes {j : Json} {cs : List Char} (hj : j.Writes cs) :
    ∃ c rest, cs = c :: rest ∧ isBlank c = false ∧ c ≠ ']' := by
  cases hj with
  | text hs =>
    obtain ⟨hs⟩ := hs
    exact ⟨_, _, rfl, rfl, by decide⟩
  | natural n =>
    obtain ⟨c, digits, hd, hc⟩ := exists_toDigits_eq_cons n
    refine ⟨c, digits, hd, isBlank_of_isDigit hc, ?_⟩
    rintro rfl
    exact absurd hc (by decide)
  | emptyList | list | emptyObject | object => exact ⟨_, _, rfl, rfl, by decide⟩

/-! ## Values -/

/-- The reader answers `x` for each text of fewer than `limit` characters that writes `j`. -/
def Reads {α : Type} (limit : Nat) (item : Reader α) (j : Json) (x : α) : Prop :=
  ∀ ⦃a cs rest : List Char⦄, Blank a → j.Writes cs → cs.length < limit → EndsNumeral rest →
    item (a ++ (cs ++ rest)) = .ok (x, rest)

theorem reads_text (limit : Nat) (s : String) : Reads limit readText (.text s) s := by
  intro a cs rest ha hw _ _
  cases hw with
  | text hs => exact readText_of_writes ha hs rest

theorem reads_natural (limit : Nat) {n : Nat} (hn : n < wordLimit) :
    Reads limit readLineNumber (.natural n) n := by
  intro a cs rest ha hw _ hr
  cases hw with
  | natural => exact readLineNumber_of_natural hn ha hr

theorem Reads.at_start {α : Type} {limit : Nat} {item : Reader α} {j : Json} {x : α}
    (h : Reads limit item j x) {cs rest : List Char} (hw : j.Writes cs) (hl : cs.length < limit)
    (hr : EndsNumeral rest) : item (cs ++ rest) = .ok (x, rest) :=
  h blank_nil hw hl hr

/-! ## Lists -/

section Lists

variable {α : Type} {limit : Nat} {item : Reader α}

theorem nextItem_close (first : Bool) {a : List Char} (ha : Blank a) (rest : List Char) :
    nextItem first (a ++ ']' :: rest) = .ok (false, ']' :: rest) := by
  unfold nextItem
  rw [skipBlank_cons ha rfl]
  rfl

theorem nextItem_first {a cs : List Char} {j : Json} (ha : Blank a) (hj : j.Writes cs)
    (rest : List Char) : nextItem true (a ++ (cs ++ rest)) = .ok (true, cs ++ rest) := by
  obtain ⟨c, cs, rfl, hblank, hne⟩ := exists_cons_of_writes hj
  unfold nextItem
  rw [List.cons_append, skipBlank_cons ha hblank]
  simp only [if_neg hne, if_true]

theorem nextItem_more {b a cs : List Char} {j : Json} (hb : Blank b) (ha : Blank a)
    (hj : j.Writes cs) (rest : List Char) :
    nextItem false (b ++ ',' :: (a ++ (cs ++ rest))) = .ok (true, cs ++ rest) := by
  obtain ⟨c, cs, rfl, hblank, hne⟩ := exists_cons_of_writes hj
  have hcomma : ',' ≠ ']' := by decide
  unfold nextItem
  rw [skipBlank_cons hb rfl, List.cons_append]
  simp only [if_neg hcomma, Bool.false_eq_true, if_false, if_true, skipBlank_cons ha hblank]
  split
  · exact absurd ‹_› (List.cons_ne_nil _ _)
  · exact absurd (List.cons.inj ‹_›).1 hne
  · rfl

/-- The items behind the first. The fuel is above the length of their text, which falls with each
item. -/
theorem readItems_of_writes {items : List Json} {xs : List α}
    (hx : List.Forall₂ (Reads limit item) items xs) {more : List Char} {fuel : Nat}
    (hm : WritesItems items more) (hf : more.length < fuel) (hl : fuel ≤ limit) (x : α)
    (acc : List α) (rest : List Char) :
    readItems item fuel (x :: acc) (more ++ ']' :: rest) =
      .ok ((x :: acc).reverse ++ xs, rest) := by
  induction hx generalizing more fuel x acc with
  | nil =>
    cases hm with
    | nil hb =>
      obtain ⟨fuel, rfl⟩ := Nat.exists_eq_add_one_of_ne_zero (Nat.ne_zero_of_lt hf)
      simp [readItems, nextItem_close _ hb, bind, Except.bind]
  | cons hj _ ih =>
    cases hm with
    | cons hb ha hw hm =>
      obtain ⟨fuel, rfl⟩ := Nat.exists_eq_add_one_of_ne_zero (Nat.ne_zero_of_lt hf)
      simp only [List.length_append, List.length_cons] at hf
      have hread := hj.at_start hw (by omega) (endsNumeral_items hm rest)
      simp only [List.append_assoc, List.cons_append, readItems, List.isEmpty_cons,
        nextItem_more hb ha hw, hread, bind, Except.bind, if_true]
      rw [ih hm (by omega) (by omega)]
      simp

theorem readItems_first {j : Json} {items : List Json} {x : α} {xs : List α}
    (hx : Reads limit item j x) (hxs : List.Forall₂ (Reads limit item) items xs)
    {a cs more : List Char} {fuel : Nat} (ha : Blank a) (hj : j.Writes cs)
    (hm : WritesItems items more) (hf : cs.length + more.length + 1 < fuel) (hl : fuel ≤ limit)
    (rest : List Char) :
    readItems item fuel [] (a ++ (cs ++ (more ++ ']' :: rest))) = .ok (x :: xs, rest) := by
  obtain ⟨fuel, rfl⟩ := Nat.exists_eq_add_one_of_ne_zero (Nat.ne_zero_of_lt hf)
  have hread := hx.at_start hj (by omega) (endsNumeral_items hm rest)
  simp only [readItems, List.isEmpty_nil, nextItem_first ha hj, hread, bind, Except.bind, if_true]
  exact readItems_of_writes hxs hm (by omega) (by omega) x [] rest

theorem reads_list {items : List Json} {xs : List α}
    (hx : List.Forall₂ (Reads limit item) items xs) :
    Reads limit (readList limit item) (.list items) xs := by
  intro a cs rest ha hw hl hr
  unfold readList
  cases hw with
  | emptyList hb =>
    cases hx
    obtain ⟨limit, rfl⟩ := Nat.exists_eq_add_one_of_ne_zero (Nat.ne_zero_of_lt hl)
    rw [List.cons_append, skipBlank_cons ha rfl]
    simp [readItems, nextItem_close _ hb, bind, Except.bind]
  | list hb hj hm =>
    cases hx with
    | cons hx hxs =>
      simp only [List.length_append, List.length_cons] at hl
      rw [List.cons_append, skipBlank_cons ha rfl]
      simp only [List.append_assoc, List.singleton_append]
      exact readItems_first hx hxs hb hj hm (by omega) (Nat.le_refl _) rest

end Lists

/-! ## Objects -/

section Objects

theorem nextKey_close (first : Bool) {a : List Char} (ha : Blank a) (rest : List Char) :
    nextKey first (a ++ '}' :: rest) = .ok (none, rest) := by
  unfold nextKey
  rw [skipBlank_cons ha rfl]
  rfl

theorem nextKey_key {name : String} {key : List Char} (hk : WritesString name key)
    (rest : List Char) : nextKey.key (key ++ rest) = .ok (some name, rest) := by
  obtain ⟨hs⟩ := hk
  simp only [List.cons_append, List.append_assoc, List.nil_append, nextKey.key,
    readString_of_writes hs, Except.map]

theorem nextKey_first {name : String} {a key : List Char} (ha : Blank a)
    (hk : WritesString name key) (rest : List Char) :
    nextKey true (a ++ (key ++ rest)) = .ok (some name, rest) := by
  have hkey := nextKey_key hk rest
  obtain ⟨hs⟩ := hk
  have hquote : '"' ≠ '}' := by decide
  unfold nextKey
  rw [List.cons_append, skipBlank_cons ha rfl]
  simp only [if_neg hquote, if_true]
  exact hkey

theorem nextKey_more {name : String} {b a key : List Char} (hb : Blank b) (ha : Blank a)
    (hk : WritesString name key) (rest : List Char) :
    nextKey false (b ++ ',' :: (a ++ (key ++ rest))) = .ok (some name, rest) := by
  have hkey := nextKey_key hk rest
  obtain ⟨hs⟩ := hk
  have hcomma : ',' ≠ '}' := by decide
  unfold nextKey
  rw [skipBlank_cons hb rfl, List.cons_append]
  simp only [if_neg hcomma, Bool.false_eq_true, if_false, if_true]
  rw [skipBlank_cons ha rfl]
  exact hkey

theorem readColon_of_blank {b : List Char} (hb : Blank b) (rest : List Char) :
    readColon (b ++ ':' :: rest) = .ok rest := by
  unfold readColon
  rw [skipBlank_cons hb rfl]
  rfl

end Objects

/-! ## Properties -/

section Properties

variable {α : Type} {limit : Nat} {item : Reader α}

/-- The field has the name of the entry, and its value is read as the item. -/
def ReadsEntry (limit : Nat) (item : Reader α) (f : String × Json) (e : String × α) : Prop :=
  f.1 = e.1 ∧ Reads limit item f.2 e.2

theorem readEntries_next {fuel : Nat} {first : Bool} {acc : Bindings α} {text : List Char}
    {name : String} {j : Json} {x : α} {b a cs rest : List Char}
    (hkey : nextKey first text = .ok (some name, b ++ ':' :: (a ++ (cs ++ rest))))
    (hx : Reads limit item j x) (hb : Blank b) (ha : Blank a) (hj : j.Writes cs)
    (hl : cs.length < limit) (hr : EndsNumeral rest) :
    readEntries item (fuel + 1) first acc text =
      readEntries item fuel false (acc.insert name x) rest := by
  simp only [readEntries, hkey, readColon_of_blank hb, hx ha hj hl hr, bind, Except.bind]

/-- The fields behind the first, as `readItems_of_writes`. -/
theorem readEntries_of_writes {fields : List (String × Json)} {entries : List (String × α)}
    (hx : List.Forall₂ (ReadsEntry limit item) fields entries) {more : List Char} {fuel : Nat}
    (hm : WritesFields fields more) (hf : more.length < fuel) (hl : fuel ≤ limit)
    (acc : Bindings α) (rest : List Char) :
    readEntries item fuel false acc (more ++ '}' :: rest) =
      .ok (acc.insertAll entries, rest) := by
  induction hx generalizing more fuel acc with
  | nil =>
    cases hm with
    | nil hb =>
      obtain ⟨fuel, rfl⟩ := Nat.exists_eq_add_one_of_ne_zero (Nat.ne_zero_of_lt hf)
      simp [readEntries, nextKey_close _ hb, bind, Except.bind, Bindings.insertAll]
  | cons hj _ ih =>
    cases hm with
    | cons hb ha hw hm =>
      obtain ⟨hk, hb', ha', hw⟩ := hw
      obtain ⟨hname, hj⟩ := hj
      obtain ⟨fuel, rfl⟩ := Nat.exists_eq_add_one_of_ne_zero (Nat.ne_zero_of_lt hf)
      simp only [List.length_append, List.length_cons] at hf
      simp only [List.append_assoc, List.cons_append]
      rw [readEntries_next (nextKey_more hb ha hk _) hj hb' ha' hw (by omega)
        (endsNumeral_fields hm rest), ih hm (by omega) (by omega)]
      simp only at hname
      rw [hname]
      rfl

theorem readEntries_first {name : String} {j : Json} {x : α} {fields : List (String × Json)}
    {entries : List (String × α)} (hx : Reads limit item j x)
    (hxs : List.Forall₂ (ReadsEntry limit item) fields entries) {a cs more : List Char}
    {fuel : Nat} (ha : Blank a) (hw : WritesField (name, j) cs) (hm : WritesFields fields more)
    (hf : cs.length + more.length + 1 < fuel) (hl : fuel ≤ limit) (rest : List Char) :
    readEntries item fuel true [] (a ++ (cs ++ (more ++ '}' :: rest))) =
      .ok (Bindings.insertAll [] ((name, x) :: entries), rest) := by
  obtain ⟨hk, hb, ha', hj⟩ := hw
  obtain ⟨fuel, rfl⟩ := Nat.exists_eq_add_one_of_ne_zero (Nat.ne_zero_of_lt hf)
  simp only [List.length_append, List.length_cons] at hf
  simp only [List.append_assoc, List.cons_append]
  rw [readEntries_next (nextKey_first ha hk _) hx hb ha' hj (by omega)
    (endsNumeral_fields hm rest)]
  exact readEntries_of_writes hxs hm (by omega) (by omega) _ rest

theorem reads_map {fields : List (String × Json)} {entries : List (String × α)}
    (hx : List.Forall₂ (ReadsEntry limit item) fields entries) :
    Reads limit (readMap limit item) (.object fields) (Bindings.insertAll [] entries) := by
  intro a cs rest ha hw hl hr
  unfold readMap
  cases hw with
  | emptyObject hblank =>
    cases hx
    obtain ⟨limit, rfl⟩ := Nat.exists_eq_add_one_of_ne_zero (Nat.ne_zero_of_lt hl)
    rw [List.cons_append, skipBlank_cons ha rfl]
    simp [readEntries, nextKey_close _ hblank, bind, Except.bind, Bindings.insertAll]
  | object hblank hf hm =>
    cases hx with
    | cons hx hxs =>
      obtain ⟨hname, hx⟩ := hx
      simp only [List.length_append, List.length_cons] at hl
      rw [List.cons_append, skipBlank_cons ha rfl]
      simp only [List.append_assoc, List.singleton_append]
      rw [readEntries_first hx hxs hblank hf hm (by omega) (Nat.le_refl _) rest, hname]

end Properties

/-! ## The program's own readers -/

/-- A list, which may be opened if `depth` is not `0`. -/
def readListWithin {α : Type} (item : (limit depth : Nat) → Reader α) (limit : Nat) :
    (depth : Nat) → Reader (List α)
  | 0 => readTooDeep ['[']
  | depth + 1 => readList limit (item limit depth)

/-- An object, which may be opened if `depth` is not `0`. -/
def readMapWithin {α : Type} (item : (limit depth : Nat) → Reader α) (limit : Nat) :
    (depth : Nat) → Reader (Bindings α)
  | 0 => readTooDeep ['{']
  | depth + 1 => readMap limit (item limit depth)

theorem readNode_succ (limit depth : Nat) :
    readNode limit (depth + 1) =
      readOpenNode limit (readListWithin readNode limit depth)
        (readMapWithin readNode limit depth) := by
  cases depth <;> rfl

/-- The readers that the program runs on. They take the number of brackets that may be open. -/
def ownReaders : JsonLibrary where
  Error := ReadError
  Reader α := (limit depth : Nat) → Reader α
  Reads r j x := ∀ limit depth, j.depth ≤ depth → Reads limit (r limit depth) j x
  fromText := fromText
  text _ _ := readText
  natural _ _ := readLineNumber
  list := readListWithin
  map := readMapWithin

section Own

variable {α : Type} {r : ownReaders.Reader α} {limit depth : Nat}

theorem fromText_of_reads {j : Json} {x : α} {text : String} (hr : ownReaders.Reads r j x)
    (hw : j.IsWrittenAs text) (hd : j.depth ≤ 127) : fromText r text = .ok x := by
  obtain ⟨a, cs, b, ha, hw, hb, htext⟩ := hw
  have hlength : cs.length < text.length + 1 := by
    rw [← String.length_toList, htext]
    simp only [List.length_append]
    omega
  have hend : EndsNumeral b := by
    have hnil : EndsNumeral [] := fun c hc => by cases hc
    simpa using EndsNumeral.blank hb hnil
  have hread := hr (text.length + 1) maxDepth hd ha hw hlength hend
  have hblank : skipBlank b = [] := by
    have hskip := skipBlank_append hb []
    rw [List.append_nil] at hskip
    exact hskip
  unfold fromText
  rw [htext, List.append_assoc, hread]
  simp only [bind, Except.bind, hblank, List.isEmpty_nil, if_true]

/-- Items of a list lie one bracket deeper. -/
theorem reads_items_within {items : List Json} {xs : List α}
    (hx : List.Forall₂ (ownReaders.Reads r) items xs) (hd : depthOfItems items ≤ depth) :
    List.Forall₂ (Reads limit (r limit depth)) items xs := by
  induction hx with
  | nil => exact .nil
  | cons hj _ ih =>
    rw [depthOfItems] at hd
    exact .cons (hj limit depth (by omega)) (ih (by omega))

theorem reads_entries_within {fields : List (String × Json)} {entries : List (String × α)}
    (hx : List.Forall₂ (fun f e => f.1 = e.1 ∧ ownReaders.Reads r f.2 e.2) fields entries)
    (hd : depthOfFields fields ≤ depth) :
    List.Forall₂ (ReadsEntry limit (r limit depth)) fields entries := by
  induction hx with
  | nil => exact .nil
  | cons hj _ ih =>
    rw [depthOfFields] at hd
    exact .cons ⟨hj.1, hj.2 limit depth (by omega)⟩ (ih (by omega))

end Own

theorem standard_ownReaders : ownReaders.Standard where
  fromText := fromText_of_reads
  text s limit _ _ := reads_text limit s
  natural n hn limit _ _ := reads_natural limit hn
  list hx limit depth hd := by
    rw [Json.depth] at hd
    obtain ⟨depth, rfl⟩ := Nat.exists_eq_add_one_of_ne_zero (Nat.ne_zero_of_lt hd)
    exact reads_list (reads_items_within hx (by omega))
  map hx limit depth hd := by
    rw [Json.depth] at hd
    obtain ⟨depth, rfl⟩ := Nat.exists_eq_add_one_of_ne_zero (Nat.ne_zero_of_lt hd)
    exact reads_map (reads_entries_within hx (by omega))

/-! ## Nodes -/

section Fields

variable {limit depth : Nat} {n n₁ : Node}

theorem lookup_slots {name : String} {slot : Node.Slot} (h : (name, slot) ∈ Node.slots) :
    Node.slots.lookup name = some slot := by
  simp only [Node.slots, List.mem_cons, Prod.mk.injEq, List.not_mem_nil, or_false] at h
  rcases h with ⟨rfl, rfl⟩ | ⟨rfl, rfl⟩ | ⟨rfl, rfl⟩ | ⟨rfl, rfl⟩ | ⟨rfl, rfl⟩ <;> rfl

theorem reads_into {α : Type} {item : Reader α} {j : Json} {x : α} (hx : Reads limit item j x)
    (put : α → Node) : Reads limit (readInto item put) j (put x) := by
  intro a cs rest ha hw hl hr
  simp only [readInto, hx ha hw hl hr, bind, Except.bind]

theorem reads_slot (limit : Nat) {slot : Node.Slot} {j : Json}
    (h : ownReaders.Puts readNode slot j n n₁) (hd : j.depth ≤ depth) :
    Reads limit (readSlot (readListWithin readNode limit depth)
      (readMapWithin readNode limit depth) n slot) j n₁ := by
  cases h with
  | @text put _ _ _ h => exact reads_into (h limit depth hd) (put · n)
  | @natural put _ _ _ h => exact reads_into (h limit depth hd) (put · n)
  | @list put _ _ _ h => exact reads_into (h limit depth hd) (put · n)
  | @map put _ _ _ h => exact reads_into (h limit depth hd) (put · n)

/-- A field that was not read before is put into the node. -/
theorem readFields_next (fuel : Nat) {name : String} {slot : Node.Slot} {j : Json}
    {seen : List String} {first : Bool} {text b a cs rest : List Char}
    (hfirst : seen.isEmpty = first)
    (hkey : nextKey first text = .ok (some name, b ++ ':' :: (a ++ (cs ++ rest))))
    (hnew : name ∉ seen) (hslot : (name, slot) ∈ Node.slots)
    (hput : ownReaders.Puts readNode slot j n n₁) (hd : j.depth ≤ depth) (hb : Blank b)
    (ha : Blank a) (hj : j.Writes cs) (hl : cs.length < limit) (hr : EndsNumeral rest) :
    readFields limit (readListWithin readNode limit depth) (readMapWithin readNode limit depth)
        (fuel + 1) seen n text =
      readFields limit (readListWithin readNode limit depth) (readMapWithin readNode limit depth)
        fuel (name :: seen) n₁ rest := by
  have hseen : seen.contains name = false := by simpa using hnew
  have hread := reads_slot limit hput hd ha hj hl hr
  simp only [readFields, hfirst, hkey, readField, lookup_slots hslot, hseen,
    readColon_of_blank hb, hread, bind, Except.bind, Bool.false_eq_true, if_false]

/-- The fields behind the first, none of which was read before. -/
theorem readFields_of_fills {fields : List (String × Json)}
    (hfill : ownReaders.Fills readNode fields n n₁) (hdistinct : (fields.map Prod.fst).Nodup)
    (hd : depthOfFields fields ≤ depth) {seen : List String} {more : List Char} {fuel : Nat}
    (hseen : seen.isEmpty = false) (hnew : ∀ f ∈ fields, f.1 ∉ seen)
    (hm : WritesFields fields more) (hfuel : more.length < fuel) (hl : fuel ≤ limit)
    (rest : List Char) :
    readFields limit (readListWithin readNode limit depth) (readMapWithin readNode limit depth)
      fuel seen n (more ++ '}' :: rest) = .ok (n₁, rest) := by
  obtain ⟨fuel, rfl⟩ := Nat.exists_eq_add_one_of_ne_zero (Nat.ne_zero_of_lt hfuel)
  induction hfill generalizing seen more fuel with
  | nil =>
    cases hm with
    | nil hb => simp only [readFields, nextKey_close _ hb, bind, Except.bind]
  | @cons name slot j fields _ _ _ hslot hput _ ih =>
    rw [List.map_cons, List.nodup_cons] at hdistinct
    rw [depthOfFields] at hd
    cases hm with
    | cons hb ha hw hm =>
      obtain ⟨hk, hb', ha', hw⟩ := hw
      simp only [List.length_append, List.length_cons] at hfuel
      simp only [List.append_assoc, List.cons_append]
      rw [readFields_next fuel hseen (nextKey_more hb ha hk _) (hnew _ List.mem_cons_self) hslot
        hput (by omega) hb' ha' hw (by omega) (endsNumeral_fields hm rest)]
      obtain ⟨fuel, rfl⟩ := Nat.exists_eq_add_one_of_ne_zero (n := fuel) (by omega)
      refine ih hdistinct.2 (by omega) rfl (fun f hf hmem => ?_) hm fuel (by omega) (by omega)
      rcases List.mem_cons.1 hmem with heq | hmem
      · exact hdistinct.1 (List.mem_map.2 ⟨f, hf, heq⟩)
      · exact hnew f (List.mem_cons_of_mem _ hf) hmem

theorem readFields_first {f : String × Json} {fields : List (String × Json)}
    (hfill : ownReaders.Fills readNode (f :: fields) n n₁)
    (hdistinct : ((f :: fields).map Prod.fst).Nodup) (hd : depthOfFields (f :: fields) ≤ depth)
    {a cs more : List Char} {fuel : Nat} (ha : Blank a) (hw : WritesField f cs)
    (hm : WritesFields fields more) (hfuel : cs.length + more.length + 1 < fuel)
    (hl : fuel ≤ limit) (rest : List Char) :
    readFields limit (readListWithin readNode limit depth) (readMapWithin readNode limit depth)
      fuel [] n (a ++ (cs ++ (more ++ '}' :: rest))) = .ok (n₁, rest) := by
  rw [List.map_cons, List.nodup_cons] at hdistinct
  obtain ⟨hk, hb, ha', hw⟩ := hw
  obtain ⟨fuel, rfl⟩ := Nat.exists_eq_add_one_of_ne_zero (Nat.ne_zero_of_lt hfuel)
  rw [depthOfFields] at hd
  simp only [List.length_append, List.length_cons] at hfuel
  simp only [List.append_assoc, List.cons_append]
  cases hfill with
  | cons hslot hput hrest =>
    rw [readFields_next fuel List.isEmpty_nil (nextKey_first ha hk _) List.not_mem_nil hslot hput
      (by omega) hb ha' hw (by omega) (endsNumeral_fields hm rest)]
    refine readFields_of_fills hrest hdistinct.2 (by omega) rfl (fun g hg hmem => ?_) hm (by omega)
      (by omega) rest
    exact hdistinct.1 (List.mem_map.2 ⟨g, hg, List.mem_singleton.1 hmem⟩)

end Fields

/-- A node is read if the fields that fill it are, which lie one bracket deeper. -/
theorem derived_readNode : ownReaders.Derived readNode := by
  intro fields n hdistinct hfill limit depth hd a cs rest ha hw hl hr
  rw [Json.depth] at hd
  obtain ⟨depth, rfl⟩ := Nat.exists_eq_add_one_of_ne_zero (Nat.ne_zero_of_lt hd)
  rw [readNode_succ]
  unfold readOpenNode
  cases hw with
  | emptyObject hb =>
    cases hfill
    obtain ⟨limit, rfl⟩ := Nat.exists_eq_add_one_of_ne_zero (Nat.ne_zero_of_lt hl)
    rw [List.cons_append, skipBlank_cons ha rfl]
    simp [readFields, nextKey_close _ hb, bind, Except.bind]
  | object hb hw hm =>
    simp only [List.length_append, List.length_cons] at hl
    rw [List.cons_append, skipBlank_cons ha rfl]
    simp only [List.append_assoc, List.singleton_append]
    exact readFields_first hfill hdistinct (by omega) hb hw hm (by omega) (Nat.le_refl _) rest

/-- A tree is read by the program from every text that writes it, in at most `maxDepth` nested
brackets. -/
theorem read_written_tree {n : Node} {j : Json} {text : String} (hn : n.IsWritable)
    (he : j.Encodes n) (hw : j.IsWrittenAs text) (hd : j.depth ≤ 127) : read text = .ok n :=
  fromText_of_reads (standard_ownReaders.reads_of_encodes derived_readNode he hn) hw hd

/-! ## Main result -/

/-- Every standard library that derives the reader of nodes from their declaration reads a tree back
from every text that writes it, in at most 127 nested brackets. -/
theorem fromText_written_tree {L : JsonLibrary} {node : L.Reader Node} (hL : L.Standard)
    (hnode : L.Derived node) {n : Node} {j : Json} {text : String} (hn : n.IsWritable)
    (he : j.Encodes n) (hw : j.IsWrittenAs text) (hd : j.depth ≤ 127) :
    L.fromText node text = .ok n :=
  hL.fromText (hL.reads_of_encodes hnode he hn) hw hd

/-- The characters that need no escape. -/
def isPlain (c : Char) : Bool := c != '"' && c != '\\' && Nat.ble 0x20 c.toNat

theorem writesChars_self {s : List Char} (hs : s.all isPlain = true) : WritesChars s s := by
  induction s with
  | nil => exact .nil
  | cons c s ih =>
    rw [List.all_cons, Bool.and_eq_true] at hs
    obtain ⟨hc, hs⟩ := hs
    simp only [isPlain, Bool.and_eq_true, bne_iff_ne, Nat.ble_eq] at hc
    exact .cons (.plain hc.1.1 hc.1.2 hc.2) (ih hs)

/-- Two properties that are not written in their order, a child with the greatest line number, and
characters that need an escape. -/
def smiling : Node where
  label := "\"😀\""
  children := [{ line := 0xffffffffffffffff }]
  properties := [("a", {}), ("b", { description := "\t" })]

theorem isWritable_smiling : smiling.IsWritable := by
  have hleaf : ∀ {n : Node}, n.line < wordLimit → n.children = [] → n.properties = [] →
      n.IsWritable := by
    intro n hline hc hp
    refine .of_parts hline (hp ▸ List.Pairwise.nil) ?_ ?_
    · simp [hc]
    · simp [hp]
  refine .of_parts (by decide) (List.pairwise_pair.2 (by decide)) ?_ ?_
  · intro c hc
    cases List.mem_singleton.1 hc
    exact hleaf (by decide) rfl rfl
  · intro e he
    rcases List.mem_pair.1 he with rfl | rfl
    · exact hleaf (by decide) rfl rfl
    · exact hleaf (by decide) rfl rfl

def smilingValue : Json :=
  .object
    [("properties", .object [("b", .object [("description", .text "\t")]), ("a", .object [])]),
      ("children", .list [.object [("lineNumber", .natural 0xffffffffffffffff)]]),
      ("label", .text "\"😀\"")]

theorem encodes_smiling : smilingValue.Encodes smiling := by
  have hb : Encodes (.object [("description", .text "\t")]) { description := "\t" } :=
    .mk (by decide) (List.forall_mem_singleton.2 .description)
      ⟨.inr rfl, .inl (by decide), .inr rfl, .inr rfl, .inr rfl⟩
  have ha : Encodes (.object []) {} :=
    .mk (by decide) (fun f hf => absurd hf List.not_mem_nil)
      ⟨.inr rfl, .inr rfl, .inr rfl, .inr rfl, .inr rfl⟩
  have hc : Encodes (.object [("lineNumber", .natural 0xffffffffffffffff)])
      { line := 0xffffffffffffffff } :=
    .mk (by decide) (List.forall_mem_singleton.2 .line)
      ⟨.inr rfl, .inr rfl, .inr rfl, .inr rfl, .inl (by decide)⟩
  refine .mk (by decide) ?_
    ⟨.inl (by decide), .inr rfl, .inl (by decide), .inl (by decide), .inr rfl⟩
  refine List.forall_mem_cons.2 ⟨?_, List.forall_mem_cons.2 ⟨?_, List.forall_mem_singleton.2 ?_⟩⟩
  · exact .properties (.cons hb (.cons ha .nil)) (.swap _ _ _)
  · exact .children (.cons hc .nil)
  · exact .label

def smilingText : String :=
  "\x7b \"properties\":\x7b\"b\":\x7b\"description\":\"\\t\"\x7d,\"a\":\x7b\x7d\x7d,\n" ++
  "\"children\" : [\x7b\"lineNumber\":18446744073709551615\x7d],\n" ++
  "\"l\\u0061bel\":\"\\\"\\ud83d\\uDE00\\\"\" \x7d\n"

theorem isWrittenAs_smiling : smilingValue.IsWrittenAs smilingText := by
  have hspace : Blank [' '] := List.forall_mem_singleton.2 (.inl rfl)
  have hline : Blank ['\n'] := List.forall_mem_singleton.2 (.inr (.inl rfl))
  have hkey : ∀ {s : String}, s.toList.all isPlain = true →
      WritesString s ('"' :: (s.toList ++ ['"'])) := fun hs => .mk (writesChars_self hs)
  have hb : Writes (.object [("description", .text "\t")]) _ :=
    .object blank_nil (.mk (hkey (by decide)) blank_nil blank_nil
      (.text (.mk (.cons (.letter (e := 't') (by decide)) .nil)))) (.nil blank_nil)
  have hprops : Writes (.object [("b", .object [("description", .text "\t")]), ("a", .object [])])
      _ :=
    .object blank_nil (.mk (hkey (by decide)) blank_nil blank_nil hb)
      (.cons blank_nil blank_nil (.mk (hkey (by decide)) blank_nil blank_nil
        (.emptyObject blank_nil)) (.nil blank_nil))
  have hchildren : Writes (.list [.object [("lineNumber", .natural 0xffffffffffffffff)]]) _ :=
    .list blank_nil (.object blank_nil (.mk (hkey (by decide)) blank_nil blank_nil (.natural _))
      (.nil blank_nil)) (.nil blank_nil)
  have ha : WritesHex 0x61 ['0', '0', '6', '1'] :=
    .mk (a := ('0', 0)) (b := ('0', 0)) (c := ('6', 6)) (d := ('1', 1)) (by decide) (by decide)
      (by decide) (by decide)
  have hhigh : WritesHex 0xd83d ['d', '8', '3', 'd'] :=
    .mk (a := ('d', 13)) (b := ('8', 8)) (c := ('3', 3)) (d := ('d', 13)) (by decide) (by decide)
      (by decide) (by decide)
  have hlow : WritesHex 0xde00 ['D', 'E', '0', '0'] :=
    .mk (a := ('D', 13)) (b := ('E', 14)) (c := ('0', 0)) (d := ('0', 0)) (by decide) (by decide)
      (by decide) (by decide)
  have hname : WritesString "label" _ :=
    .mk (.cons (c := 'l') (.plain (by decide) (by decide) (by decide))
      (.cons (c := 'a') (.code ha) (writesChars_self (s := ['b', 'e', 'l']) (by decide))))
  have hquote : WritesChar '"' _ := .letter (e := '"') (by decide)
  have hsmile : WritesString "\"😀\"" _ :=
    .mk (.cons hquote (.cons (c := '😀') (.surrogates (by decide) hhigh hlow)
      (.cons hquote .nil)))
  refine ⟨[], _, ['\n'], blank_nil,
    .object hspace (.mk (hkey (by decide)) blank_nil blank_nil hprops)
      (.cons blank_nil hline (.mk (hkey (by decide)) hspace hspace hchildren)
        (.cons blank_nil hline (.mk hname blank_nil blank_nil (.text hsmile)) (.nil hspace))),
    hline, ?_⟩
  decide +kernel

theorem fromText_written_tree_smiling :
    ownReaders.Standard ∧ ownReaders.Derived readNode ∧ smiling.IsWritable ∧
      smilingValue.Encodes smiling ∧ smilingValue.IsWrittenAs smilingText ∧
      smilingValue.depth = 3 ∧ read smilingText = .ok smiling :=
  ⟨standard_ownReaders, derived_readNode, isWritable_smiling, encodes_smiling,
    isWrittenAs_smiling, by decide,
    fromText_written_tree standard_ownReaders derived_readNode isWritable_smiling encodes_smiling
      isWrittenAs_smiling (by decide)⟩

end HeapWalk.Tree
