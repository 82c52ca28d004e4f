import HeapWalk.Inspector.Panes
import HeapWalk.Proofs.HeapRequests

/-!
# The drawn heap map

The map of a heap is drawn from the registry alone: the range of each allocation is painted over a
row of free bytes (`Inspector.owners`), which is then cut into rows. In a well-formed heap no range
is painted over another one and the painted bytes are the reserved ones, so the map shows what the
allocator holds (`Inspector.Maps`), and as many cells are painted as the title of the pane says.
-/

set_option autoImplicit false

namespace HeapWalk.Inspector

open Screen

/-! ## Painting -/

/-- Gives the bytes of an allocation to its owner. -/
def paint (row : Array (Option Ownership)) (a : Allocation) : Array (Option Ownership) :=
  storeAt row a.pointer.address (List.replicate a.pointer.size (some a.ownership))

theorem owners_eq (h : Heap) :
    owners h = h.registry.foldl paint (Array.replicate h.capacity none) := rfl

theorem size_paint (row : Array (Option Ownership)) (a : Allocation) :
    (paint row a).size = row.size := size_storeAt _ _ _

theorem size_foldl_paint (r : Registry) (row : Array (Option Ownership)) :
    (r.foldl paint row).size = row.size := by
  induction r generalizing row with
  | nil => rfl
  | cons a rest ih => rw [List.foldl_cons, ih, size_paint]

theorem size_owners (h : Heap) : (owners h).size = h.capacity := by
  rw [owners_eq, size_foldl_paint, Array.size_replicate]

theorem getElem?_paint {row : Array (Option Ownership)} {a : Allocation}
    (ha : a.pointer.stop ≤ row.size) (i : Nat) :
    (paint row a)[i]? = if a.pointer.Covers i then some (some a.ownership) else row[i]? :=
  getElem?_storeAt_replicate _ _ _ _ _ ha

/-- A byte outside of all ranges keeps its colour. -/
theorem getElem?_foldl_paint_of_not_covers {r : Registry} {row : Array (Option Ownership)} {i : Nat}
    (hin : ∀ a ∈ r, a.pointer.stop ≤ row.size) (hi : ∀ a ∈ r, ¬ a.pointer.Covers i) :
    (r.foldl paint row)[i]? = row[i]? := by
  induction r generalizing row with
  | nil => rfl
  | cons a rest ih =>
    rw [List.foldl_cons, ih, getElem?_paint (hin a List.mem_cons_self),
      if_neg (hi a List.mem_cons_self)]
    · intro b hb
      rw [size_paint]
      exact hin b (List.mem_cons_of_mem _ hb)
    · exact fun b hb => hi b (List.mem_cons_of_mem _ hb)

/-- A byte in the range of an allocation is painted for its owner, for the ranges that are painted
later begin behind it. -/
theorem getElem?_foldl_paint_of_covers {r : Registry} {row : Array (Option Ownership)} {i : Nat}
    (hin : ∀ a ∈ r, a.pointer.stop ≤ row.size)
    (hr : r.Pairwise fun a b => a.pointer.stop ≤ b.pointer.address) {a : Allocation} (ha : a ∈ r)
    (hi : a.pointer.Covers i) : (r.foldl paint row)[i]? = some (some a.ownership) := by
  induction r generalizing row with
  | nil => cases ha
  | cons b rest ih =>
    obtain ⟨hfirst, hrest⟩ := List.pairwise_cons.1 hr
    have hin' : ∀ c ∈ rest, c.pointer.stop ≤ (paint row b).size := by
      intro c hc
      rw [size_paint]
      exact hin c (List.mem_cons_of_mem _ hc)
    rw [List.foldl_cons]
    rcases List.mem_cons.1 ha with rfl | ha
    · have hlater : ∀ c ∈ rest, ¬ c.pointer.Covers i := by
        intro c hc hci
        have := hfirst c hc
        have := hi.2
        have := hci.1
        omega
      rw [getElem?_foldl_paint_of_not_covers hin' hlater, getElem?_paint (hin _ List.mem_cons_self),
        if_pos hi]
    · exact ih hin' hrest ha

section
variable {h : Heap} (hw : h.WellFormed)
include hw

theorem getElem?_owners_eq_some {i : Nat} {o : Ownership} :
    (owners h)[i]? = some (some o) ↔
      ∃ a ∈ h.allocations, a.pointer.Covers i ∧ a.ownership = o := by
  have hin : ∀ a ∈ h.registry,
      a.pointer.stop ≤ (Array.replicate h.capacity (none : Option Ownership)).size := by
    rw [Array.size_replicate]
    exact hw.inside
  rw [owners_eq]
  constructor
  · intro ho
    by_cases hi : ∃ a ∈ h.registry, a.pointer.Covers i
    · obtain ⟨a, ha, hai⟩ := hi
      rw [getElem?_foldl_paint_of_covers hin hw.apart ha hai] at ho
      exact ⟨a, ha, hai, Option.some.inj (Option.some.inj ho)⟩
    · rw [getElem?_foldl_paint_of_not_covers hin fun a ha hai => hi ⟨a, ha, hai⟩,
        Array.getElem?_replicate] at ho
      split at ho <;> cases ho
  · rintro ⟨a, ha, hai, rfl⟩
    exact getElem?_foldl_paint_of_covers hin hw.apart ha hai

/-- The bytes that have an owner are those whose flag is set. -/
theorem map_isSome_owners : (owners h).map Option.isSome = h.reserved := by
  have hsize : (owners h).size = h.reserved.size := (size_owners h).trans hw.flags.symm
  refine Array.ext (by rw [Array.size_map, hsize]) fun i _ hi => ?_
  have hflag : h.reserved[i] = true ↔ ∃ a ∈ h.registry, a.pointer.Covers i := by
    rw [← hw.reserved i, Array.getElem?_eq_getElem hi, Option.some.injEq]
  rw [Array.getElem_map, Bool.eq_iff_iff, hflag, Option.isSome_iff_exists]
  constructor
  · rintro ⟨o, ho⟩
    have howner := (Array.getElem?_eq_getElem (hsize ▸ hi)).trans (congrArg some ho)
    obtain ⟨a, ha, hai, -⟩ := (getElem?_owners_eq_some hw).1 howner
    exact ⟨a, ha, hai⟩
  · rintro ⟨a, ha, hai⟩
    have ho := (getElem?_owners_eq_some hw).2 ⟨a, ha, hai, rfl⟩
    exact ⟨a.ownership, Option.some.inj ((Array.getElem?_eq_getElem (hsize ▸ hi)).symm.trans ho)⟩

theorem getElem?_owners_eq_none {i : Nat} :
    (owners h)[i]? = some none ↔ h.reserved[i]? = some false := by
  rw [← map_isSome_owners hw, Array.getElem?_map]
  cases (owners h)[i]? <;> simp

theorem countP_owners : (owners h).toList.countP Option.isSome = h.occupied := by
  rw [Heap.occupied, ← map_isSome_owners hw, Array.count, Array.countP_map, ← Array.countP_toList]
  exact List.countP_congr fun o _ => by simp

end

/-! ## Rows -/

theorem flatten_chunks {α : Type} (width : Nat) (l : List α) : (chunks width l).flatten = l := by
  fun_induction chunks width l with
  | case1 => rfl
  | case2 x rest ih =>
    rw [List.flatten_cons, ih, List.cons_append, List.take_append_drop]

theorem length_of_mem_chunks {α : Type} {width : Nat} (hw : 1 ≤ width) {l row : List α}
    (hrow : row ∈ chunks width l) : 1 ≤ row.length ∧ row.length ≤ width := by
  fun_induction chunks width l with
  | case1 => cases hrow
  | case2 x rest ih =>
    rcases List.mem_cons.1 hrow with rfl | hrow
    · rw [List.length_cons, List.length_take]
      omega
    · exact ih hrow

/-- A row that is not the last one is full. -/
theorem length_of_mem_dropLast_chunks {α : Type} {width : Nat} (hw : 1 ≤ width) {l row : List α}
    (hrow : row ∈ (chunks width l).dropLast) : row.length = width := by
  fun_induction chunks width l with
  | case1 => cases hrow
  | case2 x rest ih =>
    cases htail : chunks width (rest.drop (width - 1)) with
    | nil =>
      rw [htail] at hrow
      cases hrow
    | cons next more =>
      rw [htail, List.dropLast_cons_of_ne_nil (List.cons_ne_nil _ _), List.mem_cons] at hrow
      rcases hrow with rfl | hrow
      · -- something is left for the next row, so this one was cut
        have hleft : rest.drop (width - 1) ≠ [] := by
          intro hnil
          rw [hnil, chunks] at htail
          cases htail
        have hlt : width - 1 < rest.length := by
          simpa using hleft
        rw [List.length_cons, List.length_take]
        omega
      · exact ih (htail ▸ hrow)

/-! ## Cells -/

/-- The cells that a line takes. -/
def lineCells (l : Line) : List Cell := spanCells l.style l.spans

/-- The cell of a byte. -/
def byteCell : Option Ownership → Cell
  | some (.owned _) => ⟨ownedGlyph, .ofFg Theme.owned⟩
  | some (.temporary _) => ⟨temporaryGlyph, .ofFg Theme.temporary⟩
  | none => ⟨freeGlyph, .ofFg Theme.free⟩

theorem cells_span {glyph : Char} (hg : glyph ≠ '\n') (c : Color) :
    (span glyph.toString c).cells .plain = [⟨glyph, .ofFg c⟩] := by
  simp [Span.cells, span, Char.toString, hg, Style.patch, Style.plain, Style.ofFg]

theorem cells_byteSpan (o : Option Ownership) : (byteSpan o).cells .plain = [byteCell o] := by
  rcases o with _ | ⟨_ | _⟩
  all_goals exact cells_span (by decide) _

theorem spanCells_byteSpan (os : List (Option Ownership)) :
    spanCells .plain (os.map byteSpan) = os.map byteCell := by
  unfold spanCells
  rw [List.flatMap_map, List.map_eq_flatMap]
  simp only [cells_byteSpan]

theorem map_chunks {α β : Type} (f : α → β) (width : Nat) (l : List α) :
    chunks width (l.map f) = (chunks width l).map (List.map f) := by
  fun_induction chunks width l with
  | case1 => rw [List.map_nil, chunks]; rfl
  | case2 x rest ih =>
    rw [List.map_cons, chunks, ← List.map_take, ← List.map_drop, ih]
    rfl

/-- Each row of the map has the cells of its bytes. -/
theorem map_lineCells_occupancyLines (h : Heap) (width : Nat) :
    (occupancyLines h width).map lineCells =
      (chunks width (owners h).toList).map (List.map byteCell) := by
  unfold occupancyLines
  rw [map_chunks, List.map_map, List.map_map]
  exact List.map_congr_left fun os _ => spanCells_byteSpan os

/-- The cells of the map, row after row. -/
def mapCells (h : Heap) (width : Nat) : List Cell := (occupancyLines h width).flatMap lineCells

theorem mapCells_eq (h : Heap) (width : Nat) :
    mapCells h width = (owners h).toList.map byteCell := by
  unfold mapCells
  rw [List.flatMap_def, map_lineCells_occupancyLines, ← List.map_flatten, flatten_chunks]

theorem glyph_byteCell_eq_free {o : Option Ownership} :
    (byteCell o).glyph = freeGlyph ↔ o = none := by
  rcases o with _ | ⟨_ | _⟩ <;> simp [byteCell, freeGlyph, ownedGlyph, temporaryGlyph]

theorem glyph_byteCell_eq_owned {o : Option Ownership} :
    (byteCell o).glyph = ownedGlyph ↔ ∃ w, o = some w ∧ ∃ scope, w = .owned scope := by
  rcases o with _ | ⟨_ | _⟩ <;> simp [byteCell, freeGlyph, ownedGlyph, temporaryGlyph]

theorem glyph_byteCell_eq_temporary {o : Option Ownership} :
    (byteCell o).glyph = temporaryGlyph ↔ ∃ w, o = some w ∧ ∃ scope, w = .temporary scope := by
  rcases o with _ | ⟨_ | _⟩ <;> simp [byteCell, freeGlyph, ownedGlyph, temporaryGlyph]

/-! ## Main result -/

/-- The glyph of the `i`-th cell of the map. -/
def glyphAt? (h : Heap) (width i : Nat) : Option Char := ((mapCells h width)[i]?).map Cell.glyph

/-- The number of cells that are not drawn as free. -/
def paintedCount (h : Heap) (width : Nat) : Nat :=
  (mapCells h width).countP fun c => c.glyph != freeGlyph

theorem glyphAt?_eq_some {h : Heap} {width i : Nat} {g : Char} :
    glyphAt? h width i = some g ↔ ∃ o, (owners h)[i]? = some o ∧ (byteCell o).glyph = g := by
  unfold glyphAt?
  rw [mapCells_eq, List.getElem?_map, Option.map_map, Option.map_eq_some_iff,
    Array.getElem?_toList]
  rfl

/-- A glyph that stands for some owners is drawn where an allocation of one of them is. -/
theorem glyphAt?_eq_some_iff_covers {h : Heap} (hw : h.WellFormed) {width i : Nat} {g : Char}
    {P : Ownership → Prop} (hg : ∀ {o}, (byteCell o).glyph = g ↔ ∃ w, o = some w ∧ P w) :
    glyphAt? h width i = some g ↔
      ∃ a ∈ h.allocations, a.pointer.Covers i ∧ P a.ownership := by
  simp only [glyphAt?_eq_some, hg]
  constructor
  · rintro ⟨_, ho, w, rfl, hP⟩
    obtain ⟨a, ha, hai, rfl⟩ := (getElem?_owners_eq_some hw).1 ho
    exact ⟨a, ha, hai, hP⟩
  · rintro ⟨a, ha, hai, hP⟩
    exact ⟨_, (getElem?_owners_eq_some hw).2 ⟨a, ha, hai, rfl⟩, _, rfl, hP⟩

/-- The map of a heap, in rows of `width` cells, shows what the allocator holds. -/
structure Maps (h : Heap) (width : Nat) : Prop where
  onePerByte : (mapCells h width).length = h.capacity
  /-- All rows but the last are full. -/
  full : ∀ l ∈ (occupancyLines h width).dropLast, (lineCells l).length = width
  fits : ∀ l ∈ occupancyLines h width, 1 ≤ (lineCells l).length ∧ (lineCells l).length ≤ width
  free : ∀ i : Nat, glyphAt? h width i = some freeGlyph ↔ h.reserved[i]? = some false
  owned : ∀ i : Nat, glyphAt? h width i = some ownedGlyph ↔
    ∃ a ∈ h.allocations, a.pointer.Covers i ∧ ∃ scope, a.ownership = .owned scope
  temporary : ∀ i : Nat, glyphAt? h width i = some temporaryGlyph ↔
    ∃ a ∈ h.allocations, a.pointer.Covers i ∧ ∃ scope, a.ownership = .temporary scope
  /-- The title of the pane counts the cells that are not free. -/
  titled : ∀ size focused offset, heapPane size focused h offset =
    listPane size s!" Heap {paintedCount h width}/{h.capacity} bytes " focused 0
      (heapLines h (max (size.width - 2) 8)) offset

theorem paintedCount_eq {h : Heap} (hw : h.WellFormed) (width : Nat) :
    paintedCount h width = h.occupied := by
  unfold paintedCount
  rw [mapCells_eq, List.countP_map, ← countP_owners hw]
  refine List.countP_congr fun o _ => ?_
  rw [Function.comp_apply, bne_iff_ne, ne_eq, glyph_byteCell_eq_free, Option.isSome_iff_ne_none]

theorem maps_of_wellFormed {h : Heap} (hw : h.WellFormed) {width : Nat} (hwidth : 1 ≤ width) :
    Maps h width where
  onePerByte := by
    rw [mapCells_eq, List.length_map, Array.length_toList, size_owners]
  full l hl := by
    have hcells : lineCells l ∈ ((occupancyLines h width).map lineCells).dropLast := by
      rw [← List.map_dropLast]
      exact List.mem_map_of_mem hl
    rw [map_lineCells_occupancyLines, ← List.map_dropLast, List.mem_map] at hcells
    obtain ⟨row, hrow, heq⟩ := hcells
    rw [← heq, List.length_map]
    exact length_of_mem_dropLast_chunks hwidth hrow
  fits l hl := by
    have hcells : lineCells l ∈ (occupancyLines h width).map lineCells := List.mem_map_of_mem hl
    rw [map_lineCells_occupancyLines, List.mem_map] at hcells
    obtain ⟨row, hrow, heq⟩ := hcells
    rw [← heq, List.length_map]
    exact length_of_mem_chunks hwidth hrow
  free i := by
    simp only [glyphAt?_eq_some, glyph_byteCell_eq_free, exists_eq_right]
    exact getElem?_owners_eq_none hw
  owned _ := glyphAt?_eq_some_iff_covers hw glyph_byteCell_eq_owned
  temporary _ := glyphAt?_eq_some_iff_covers hw glyph_byteCell_eq_temporary
  titled size focused offset := by
    rw [paintedCount_eq hw]
    rfl

/-- After any requests, the map that is drawn of a heap agrees with the allocator byte by byte. -/
theorem heap_map_agrees_with_allocator (capacity : Nat) (requests : List Heap.Request) {width : Nat}
    (hwidth : 1 ≤ width) : Maps ((Heap.ofCapacity capacity).afterAll requests) width :=
  maps_of_wellFormed ((Heap.wellFormed_ofCapacity capacity).afterAll requests) hwidth

/-- The map of a heap in which a range was reclaimed between others and its end taken again. -/
theorem heap_map_agrees_around_gap :
    let h := (Heap.ofCapacity 8).afterAll [.allocate 2 (.temporary 0), .allocate 3 (.owned 0),
      .allocate 1 (.owned 1), .free ⟨3, 3, 2⟩, .allocate 2 (.owned 1)]
    1 ≤ 3 ∧ Maps h 3 ∧ h.occupied = 5 ∧ (owners h).toList = [none, none, some (.owned 1), none,
      some (.owned 1), some (.owned 1), some (.temporary 0), some (.temporary 0)] :=
  ⟨by decide, heap_map_agrees_with_allocator 8 _ (by decide), by decide, by decide⟩

end HeapWalk.Inspector
