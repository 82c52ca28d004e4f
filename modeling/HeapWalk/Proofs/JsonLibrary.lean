import HeapWalk.Proofs.JsonText
import Mathlib.Data.List.Forall2

/-!
# Reading a tree with a JSON library

Trees come as JSON text, and a library reads them. `JsonLibrary` is what such a library offers:
readers of strings, natural numbers, lists and objects with any names, and the use of a reader on a
text. `JsonLibrary.Standard` says what is relied upon: which values these readers take, and that
every text that writes such a value is understood, if it nests no deeper than the library allows.
`JsonLibrary.Derived` says what is relied upon of the reader that the library makes out of the
fields declared in `Node.slots`.

On that ground a value that stands for a node is taken for this node (`reads_of_encodes`), by
induction on its depth. The fields of an object are followed one by one: the node that they have
filled so far has the fields of those names, and defaults for the others (`Node.only`).
-/

set_option autoImplicit false

namespace HeapWalk

/-! ## Adding pairs in any order -/

namespace Bindings

variable {α : Type}

theorem insert_perm {b : Bindings α} {name : String} (hn : ∀ e ∈ b, e.1 ≠ name) (x : α) :
    (b.insert name x).Perm ((name, x) :: b) := by
  induction b with
  | nil => exact .refl _
  | cons e rest ih =>
    obtain ⟨n, y⟩ := e
    have hne : name ≠ n := Ne.symm (hn _ List.mem_cons_self)
    simp only [insert, if_neg hne]
    split
    · exact .refl _
    · exact .trans (.cons _ (ih fun e he => hn e (List.mem_cons_of_mem _ he))) (.swap _ _ _)

/-- Binds the names of the pairs, one after the other. -/
def insertAll (b : Bindings α) (entries : List (String × α)) : Bindings α :=
  entries.foldl (fun b e => b.insert e.1 e.2) b

theorem Ordered.insertAll {b : Bindings α} (hb : b.Ordered) (entries : List (String × α)) :
    (b.insertAll entries).Ordered := by
  induction entries generalizing b with
  | nil => exact hb
  | cons e rest ih => exact ih (hb.insert e.1 e.2)

theorem insertAll_perm {b : Bindings α} {entries : List (String × α)}
    (hd : ((entries ++ b).map Prod.fst).Nodup) : (b.insertAll entries).Perm (entries ++ b) := by
  induction entries generalizing b with
  | nil => exact .refl _
  | cons e rest ih =>
    have hmove : (rest ++ e :: b).Perm (e :: (rest ++ b)) := List.perm_middle
    have hd' : ((rest ++ e :: b).map Prod.fst).Nodup := (hmove.map Prod.fst).nodup_iff.2 hd
    have hnew : ∀ e' ∈ b, e'.1 ≠ e.1 := by
      intro e' he' heq
      refine (List.nodup_cons.1 hd).1 (heq ▸ List.mem_map_of_mem ?_)
      exact List.mem_append_right _ he'
    have hperm : (rest ++ b.insert e.1 e.2).Perm (rest ++ e :: b) :=
      (insert_perm hnew e.2).append_left rest
    exact (ih ((hperm.map Prod.fst).nodup_iff.2 hd')).trans (hperm.trans hmove)

theorem Ordered.nodup_names {b : Bindings α} (hb : b.Ordered) : (b.map Prod.fst).Nodup := by
  refine List.pairwise_map.2 (List.Pairwise.imp ?_ hb)
  intro x y hlt heq
  exact String.lt_irrefl y.1 (heq ▸ hlt)

theorem Ordered.eq_of_perm {b c : Bindings α} (hb : b.Ordered) (hc : c.Ordered) (hp : b.Perm c) :
    b = c := by
  refine hp.eq_of_pairwise (fun x y _ _ hxy hyx => ?_) hb hc
  exact absurd (String.lt_trans hxy hyx) (String.lt_irrefl _)

/-- Ordered bindings are restored from their pairs, whatever order they come in. -/
theorem Ordered.insertAll_eq {b : Bindings α} (hb : b.Ordered) {entries : List (String × α)}
    (hp : entries.Perm b) : Bindings.insertAll [] entries = b := by
  have hd : ((entries ++ []).map Prod.fst).Nodup := by
    rw [List.append_nil]
    exact (hp.map Prod.fst).nodup_iff.2 hb.nodup_names
  have hperm := insertAll_perm hd
  rw [List.append_nil] at hperm
  exact (Ordered.insertAll List.Pairwise.nil entries).eq_of_perm hb (hperm.trans hp)

end Bindings

/-! ## Parts of a tree -/

namespace Node.IsWritable

variable {n : Node}

theorem child (hn : n.IsWritable) {c : Node} (hc : c ∈ n.children) : c.IsWritable :=
  fun x hx => hn x (.child hc hx)

/-- A node can be written if its own line number and names allow it and its parts can. -/
theorem of_parts (hline : n.line < Tree.wordLimit) (hordered : Bindings.Ordered n.properties)
    (hc : ∀ c ∈ n.children, c.IsWritable) (hp : ∀ e ∈ n.properties, e.2.IsWritable) :
    n.IsWritable := by
  intro x hx
  cases hx with
  | root => exact ⟨hline, hordered⟩
  | child hmem hx => exact hc _ hmem x hx
  | property hget hx => exact hp _ (hordered.get?_eq_some.1 hget) x hx

theorem property (hn : n.IsWritable) {e : String × Node} (he : e ∈ n.properties) :
    e.2.IsWritable := by
  intro x hx
  have hordered := (hn n (.root n)).2
  exact hn x (.property (hordered.get?_eq_some.2 he) hx)

end Node.IsWritable

/-- The node with its fields of these names, and defaults for the others. -/
def Node.only (n : Node) (names : List String) : Node where
  label := if "label" ∈ names then n.label else ""
  description := if "description" ∈ names then n.description else ""
  children := if "children" ∈ names then n.children else []
  properties := if "properties" ∈ names then n.properties else []
  line := if "lineNumber" ∈ names then n.line else 0

theorem Node.only_nil (n : Node) : n.only [] = {} := rfl

namespace Tree

open Json

/-! ## Libraries -/

/-- What a library for JSON offers to those who read text with it. -/
structure JsonLibrary where
  Error : Type
  /-- The readers of values of a type. -/
  Reader : Type → Type
  /-- What a reader takes a value for, wherever the value stands in a text. -/
  Reads {α : Type} : Reader α → Json → α → Prop
  fromText {α : Type} : Reader α → String → Except Error α
  text : Reader String
  natural : Reader Nat
  list {α : Type} : Reader α → Reader (List α)
  map {α : Type} : Reader α → Reader (Bindings α)

namespace JsonLibrary

/-- The library reads JSON as its grammar says, up to a depth of 127, and numbers of 64 bits. -/
structure Standard (L : JsonLibrary) : Prop where
  fromText : ∀ {α : Type} {r : L.Reader α} {j : Json} {x : α} {text : String}, L.Reads r j x →
    j.IsWrittenAs text → j.depth ≤ 127 → L.fromText r text = .ok x
  text : ∀ s : String, L.Reads L.text (.text s) s
  natural : ∀ n : Nat, n < wordLimit → L.Reads L.natural (.natural n) n
  list : ∀ {α : Type} {r : L.Reader α} {items : List Json} {xs : List α},
    List.Forall₂ (L.Reads r) items xs → L.Reads (L.list r) (.list items) xs
  /-- Of two fields with the same name the later counts. -/
  map : ∀ {α : Type} {r : L.Reader α} {fields : List (String × Json)} {entries : List (String × α)},
    List.Forall₂ (fun f e => f.1 = e.1 ∧ L.Reads r f.2 e.2) fields entries →
    L.Reads (L.map r) (.object fields) (Bindings.insertAll [] entries)

/-- The value is read as its slot asks, and put into the node. -/
inductive Puts (L : JsonLibrary) (node : L.Reader Node) :
    Node.Slot → Json → Node → Node → Prop where
  | text {put : String → Node → Node} {j : Json} {x : String} {n : Node} (h : L.Reads L.text j x) :
    Puts L node (.text put) j n (put x n)
  | natural {put : Nat → Node → Node} {j : Json} {x : Nat} {n : Node}
    (h : L.Reads L.natural j x) : Puts L node (.natural put) j n (put x n)
  | list {put : List Node → Node → Node} {j : Json} {x : List Node} {n : Node}
    (h : L.Reads (L.list node) j x) : Puts L node (.list put) j n (put x n)
  | map {put : Bindings Node → Node → Node} {j : Json} {x : Bindings Node} {n : Node}
    (h : L.Reads (L.map node) j x) : Puts L node (.map put) j n (put x n)

/-- The fields are declared, and put into the node one after the other. -/
inductive Fills (L : JsonLibrary) (node : L.Reader Node) :
    List (String × Json) → Node → Node → Prop where
  | nil {n : Node} : Fills L node [] n n
  | cons {name : String} {slot : Node.Slot} {j : Json} {fields : List (String × Json)}
    {n n₁ n₂ : Node} (hslot : (name, slot) ∈ Node.slots) (hput : Puts L node slot j n n₁)
    (hrest : Fills L node fields n₁ n₂) : Fills L node ((name, j) :: fields) n n₂

/-- The reader of nodes is derived from their declaration: it takes an object with some of the
declared fields, in any order, for the node that these fields make of the default one. -/
def Derived (L : JsonLibrary) (node : L.Reader Node) : Prop :=
  ∀ {fields : List (String × Json)} {n : Node}, (fields.map Prod.fst).Nodup →
    L.Fills node fields {} n → L.Reads node (.object fields) n

end JsonLibrary

/-! ## The fields of a node -/

theorem Json.DefaultsExcept.only_eq {n : Node} {names : List String} (h : DefaultsExcept names n) :
    n.only names = n := by
  have hfield : ∀ {α : Type} {p : Prop} [Decidable p] {x y : α}, p ∨ x = y →
      (if p then x else y) = x := by
    intro α p _ x y h
    split
    · rfl
    · exact (h.resolve_left ‹_›).symm
  unfold Node.only
  rw [hfield h.label, hfield h.description, hfield h.children, hfield h.properties, hfield h.line]
  cases n
  rfl

namespace JsonLibrary

variable {L : JsonLibrary} {node : L.Reader Node}

/-- A field that holds a field of the node is put into its slot. -/
theorem Standard.puts_of_encodes (hL : L.Standard) {n : Node} {f : String × Json}
    (hf : EncodesField n f) (hn : n.IsWritable)
    (hc : ∀ items, f.2 = .list items → EncodesItems items n.children →
      List.Forall₂ (L.Reads node) items n.children)
    (hp : ∀ fields entries, f.2 = .object fields → EncodesEntries fields entries →
      entries.Perm n.properties →
      List.Forall₂ (fun f e => f.1 = e.1 ∧ L.Reads node f.2 e.2) fields entries)
    (names : List String) :
    ∃ slot, (f.1, slot) ∈ Node.slots ∧
      L.Puts node slot f.2 (n.only names) (n.only (names ++ [f.1])) := by
  obtain ⟨hline, hordered⟩ := hn n (.root n)
  cases hf with
  | label =>
    refine ⟨_, .head _, ?_⟩
    rw [show n.only (names ++ ["label"]) = { n.only names with label := n.label } by
      simp [Node.only]]
    exact .text (hL.text _)
  | description =>
    refine ⟨_, .tail _ (.head _), ?_⟩
    rw [show n.only (names ++ ["description"]) =
      { n.only names with description := n.description } by simp [Node.only]]
    exact .text (hL.text _)
  | children hi =>
    refine ⟨_, .tail _ (.tail _ (.head _)), ?_⟩
    rw [show n.only (names ++ ["children"]) = { n.only names with children := n.children } by
      simp [Node.only]]
    exact .list (hL.list (hc _ rfl hi))
  | properties he ho =>
    refine ⟨_, .tail _ (.tail _ (.tail _ (.head _))), ?_⟩
    rw [show n.only (names ++ ["properties"]) =
      { n.only names with properties := n.properties } by simp [Node.only]]
    have hmap := hL.map (hp _ _ rfl he ho)
    rw [hordered.insertAll_eq ho] at hmap
    exact .map hmap
  | line =>
    refine ⟨_, .tail _ (.tail _ (.tail _ (.tail _ (.head _)))), ?_⟩
    rw [show n.only (names ++ ["lineNumber"]) = { n.only names with line := n.line } by
      simp [Node.only]]
    exact .natural (hL.natural _ hline)

/-- The fields to come fill what those read before have left. -/
theorem fills_of_puts {n : Node} {fields : List (String × Json)}
    (hf : ∀ f ∈ fields, ∀ names, ∃ slot, (f.1, slot) ∈ Node.slots ∧
      L.Puts node slot f.2 (n.only names) (n.only (names ++ [f.1]))) (names : List String) :
    L.Fills node fields (n.only names) (n.only (names ++ fields.map Prod.fst)) := by
  induction fields generalizing names with
  | nil =>
    rw [List.map_nil, List.append_nil]
    exact .nil
  | cons f fields ih =>
    obtain ⟨slot, hslot, hput⟩ := hf f List.mem_cons_self names
    refine .cons hslot hput ?_
    rw [List.map_cons, List.append_cons names f.1 (fields.map Prod.fst)]
    exact ih (fun g hg => hf g (List.mem_cons_of_mem _ hg)) _

end JsonLibrary

/-! ## Trees -/

theorem depth_le_of_mem_items {items : List Json} {j : Json} (hj : j ∈ items) :
    j.depth ≤ depthOfItems items := by
  induction items with
  | nil => cases hj
  | cons i items ih =>
    rw [depthOfItems]
    rcases List.mem_cons.1 hj with rfl | hj
    · exact Nat.le_max_left _ _
    · exact Nat.le_trans (ih hj) (Nat.le_max_right _ _)

theorem depth_le_of_mem_fields {fields : List (String × Json)} {f : String × Json}
    (hf : f ∈ fields) : f.2.depth ≤ depthOfFields fields := by
  induction fields with
  | nil => cases hf
  | cons g fields ih =>
    rw [depthOfFields]
    rcases List.mem_cons.1 hf with rfl | hf
    · exact Nat.le_max_left _ _
    · exact Nat.le_trans (ih hf) (Nat.le_max_right _ _)

theorem forall₂_of_encodesItems {R : Json → Node → Prop} {items : List Json} {nodes : List Node}
    (he : EncodesItems items nodes)
    (hR : ∀ j ∈ items, ∀ n ∈ nodes, j.Encodes n → R j n) : List.Forall₂ R items nodes := by
  induction items generalizing nodes with
  | nil =>
    cases he
    exact .nil
  | cons j items ih =>
    cases he with
    | cons hj hr =>
      refine .cons (hR _ List.mem_cons_self _ List.mem_cons_self hj) (ih hr ?_)
      intro i hi m hm
      exact hR i (List.mem_cons_of_mem _ hi) m (List.mem_cons_of_mem _ hm)

theorem forall₂_of_encodesEntries {R : String × Json → String × Node → Prop}
    {fields : List (String × Json)} {entries : List (String × Node)}
    (he : EncodesEntries fields entries)
    (hR : ∀ f ∈ fields, ∀ e ∈ entries, f.1 = e.1 → f.2.Encodes e.2 → R f e) :
    List.Forall₂ R fields entries := by
  induction fields generalizing entries with
  | nil =>
    cases he
    exact .nil
  | cons f fields ih =>
    cases he with
    | cons hj hr =>
      refine .cons (hR _ List.mem_cons_self _ List.mem_cons_self rfl hj) (ih hr ?_)
      intro g hg e he
      exact hR g (List.mem_cons_of_mem _ hg) e (List.mem_cons_of_mem _ he)

/-- The depth falls from a node to those in its lists and objects. -/
theorem JsonLibrary.Standard.reads_of_encodes {L : JsonLibrary} {node : L.Reader Node}
    (hL : L.Standard) (hnode : L.Derived node) {j : Json} {n : Node} (he : j.Encodes n)
    (hn : n.IsWritable) : L.Reads node j n := by
  induction hd : j.depth using Nat.strongRecOn generalizing j n with
  | ind depth ih =>
    obtain ⟨hdistinct, hf, hdefaults⟩ := he
    rename_i fields
    rw [Json.depth] at hd
    have hfills : L.Fills node fields (n.only []) (n.only ([] ++ fields.map Prod.fst)) := by
      refine fills_of_puts (fun f hmem => hL.puts_of_encodes (hf f hmem) hn ?_ ?_) []
      all_goals have hdepth := depth_le_of_mem_fields hmem
      · intro items hitems hc
        rw [hitems, Json.depth] at hdepth
        refine forall₂_of_encodesItems hc fun i hi c hmem hic => ?_
        have hle := depth_le_of_mem_items hi
        exact ih _ (by omega) hic (hn.child hmem) rfl
      · intro fields entries hfields hp ho
        rw [hfields, Json.depth] at hdepth
        refine forall₂_of_encodesEntries hp fun f hf e hmem hname hfe => ⟨hname, ?_⟩
        have hle := depth_le_of_mem_fields hf
        exact ih _ (by omega) hfe (hn.property (ho.mem_iff.1 hmem)) rfl
    rw [Node.only_nil, List.nil_append, hdefaults.only_eq] at hfills
    exact hnode hdistinct hfills

end Tree

end HeapWalk
