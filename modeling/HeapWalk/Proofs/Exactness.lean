import HeapWalk.Proofs.Grammar
import Mathlib.Data.List.Nodup
import Mathlib.Data.List.Perm.Subperm
import Mathlib.Data.List.TakeWhile

/-!
# A tree becomes a program exactly if the grammar says so

`Node.Decides n answer R`: the answer for the node `n` is a value exactly if the value is in `R`,
and otherwise a defect of one of two codes, which carries the line of a node that occurs in `n`.
There is one rule for each way in which an answer is put together, and each function on nodes
decides the relation that the grammar gives for it.

Main statement: `Node.lowering_decides_grammar`. The induction is on the size of the tree; what the
grammar says of a label is an equivalence of its own, such as `Node.isStmt_of_cond`.
-/

set_option autoImplicit false

namespace HeapWalk

/-! ## Literals -/

theorem literal_of_ofLiteral? {text : String} {x : Number}
    (h : Number.ofLiteral? text = some x) : Literal text (.number x) := by
  have hsplit : text.toList.takeWhile Char.isDigit ++ text.toList.dropWhile Char.isDigit =
      text.toList := List.takeWhile_append_dropWhile
  have hwhole : ∀ c ∈ text.toList.takeWhile Char.isDigit, c.isDigit = true :=
    fun c hc => List.mem_takeWhile_imp hc
  simp only [Number.ofLiteral?] at h
  split at h
  · rename_i hrest
    rw [hrest, List.append_nil] at hsplit
    split at h
    · cases h
    · rename_i hne
      obtain rfl := Option.some.inj h
      exact .whole _ hsplit.symm (by simpa using hne) hwhole
  · rename_i point places hrest
    rw [hrest] at hsplit
    split at h
    · rename_i hcond
      obtain rfl := Option.some.inj h
      simp only [Bool.and_eq_true, decide_eq_true_eq, List.all_eq_true, Bool.not_eq_true',
        Bool.and_eq_false_iff, List.isEmpty_eq_false_iff] at hcond
      obtain ⟨⟨rfl, hplaces⟩, hne⟩ := hcond
      exact .decimal _ _ hsplit.symm hne hwhole hplaces
    · cases h

theorem ofLiteral?_of_literal {text : String} {x : Number} (h : Literal text (.number x)) :
    Number.ofLiteral? text = some x := by
  cases h with
  | whole digits ht hne hd =>
    simp only [Number.ofLiteral?, ht, List.dropWhile_eq_nil_iff.2 hd,
      List.takeWhile_eq_self_iff.2 hd]
    simp [hne]
  | decimal whole places ht hne hw hp =>
    have hpoint : ¬ Char.isDigit '.' = true := by decide
    have hne' : (whole.isEmpty && places.isEmpty) = false := by
      rw [Bool.and_eq_false_iff]
      simpa using hne
    simp only [Number.ofLiteral?, ht, List.takeWhile_append_of_pos hw,
      List.dropWhile_append_of_pos hw, List.takeWhile_cons_of_neg hpoint,
      List.dropWhile_cons_of_neg hpoint, List.append_nil]
    simpa [hne'] using hp

/-- The words are no numbers. -/
theorem not_literal_number_of_boolean {text : String} {b : Bool} {x : Number}
    (hb : Literal text (.boolean b)) : ¬ Literal text (.number x) := by
  have hword : ∃ c ∈ text.toList, c.isDigit = false ∧ c ≠ '.' := by
    cases hb with
    | true ht => exact ⟨'t', by rw [ht]; decide, by decide, by decide⟩
    | false ht => exact ⟨'f', by rw [ht]; decide, by decide, by decide⟩
  obtain ⟨c, hc, hdigit, hpoint⟩ := hword
  intro hx
  cases hx with
  | whole digits ht hne hd =>
    rw [hd c (ht ▸ hc)] at hdigit
    cases hdigit
  | decimal whole places ht hne hw hp =>
    rw [ht] at hc
    simp only [List.mem_append, List.mem_cons, hpoint, false_or] at hc
    have : c.isDigit = true := hc.elim (hw c) (hp c)
    rw [this] at hdigit
    cases hdigit

theorem ofBooleanLiteral?_eq_some {text : String} {b : Bool} :
    Value.ofBooleanLiteral? text = some b ↔ Literal text (.boolean b) := by
  constructor
  · intro h
    unfold Value.ofBooleanLiteral? at h
    split at h
    · rename_i ht
      obtain rfl := Option.some.inj h
      exact .true ht
    · split at h
      · rename_i ht
        obtain rfl := Option.some.inj h
        exact .false ht
      · cases h
  · intro h
    cases h with
    | true ht => simp [Value.ofBooleanLiteral?, ht]
    | false ht => simp [Value.ofBooleanLiteral?, ht]

theorem Value.ofLiteral?_eq_some {text : String} {v : Value} :
    ofLiteral? text = some v ↔ Literal text v := by
  unfold ofLiteral?
  rw [Option.orElse_eq_orElse, Option.orElse_eq_or, Option.or_eq_some_iff]
  cases v with
  | number x =>
    simp only [Option.map_eq_some_iff, number.injEq, exists_eq_right, reduceCtorEq, and_false,
      exists_false, or_false]
    exact ⟨literal_of_ofLiteral?, ofLiteral?_of_literal⟩
  | boolean b =>
    simp only [Option.map_eq_some_iff, boolean.injEq, exists_eq_right, reduceCtorEq, and_false,
      exists_false, false_or, ofBooleanLiteral?_eq_some, Option.map_eq_none_iff,
      and_iff_right_iff_imp]
    intro hb
    rw [Option.eq_none_iff_forall_ne_some]
    exact fun x hx => not_literal_number_of_boolean hb (literal_of_ofLiteral? hx)

theorem Value.ofLiteral?_eq_none {text : String} :
    ofLiteral? text = none ↔ ∀ v, ¬ Literal text v := by
  simp only [← ofLiteral?_eq_some, Option.eq_none_iff_forall_ne_some, ne_eq]

namespace Node

/-! ## Answers -/

/-- The answer for a node is a value exactly if the value is in the relation. A defect is one of two
kinds and carries the line of a node of the tree. -/
structure Decides {α : Type} (n : Node) (answer : Except Defect α) (R : α → Prop) : Prop where
  ok : ∀ a, answer = .ok a ↔ R a
  code : ∀ d, answer = .error d → d.code = .invalidOperator ∨ d.code = .malformedTree
  line : ∀ d, answer = .error d → ∃ x, n.Occurs x ∧ x.line = d.line

namespace Decides

variable {α β : Type} {n : Node} {answer : Except Defect α} {R S : α → Prop}

theorem congr (h : n.Decides answer R) (hR : ∀ a, R a ↔ S a) : n.Decides answer S :=
  ⟨fun a => (h.ok a).trans (hR a), h.code, h.line⟩

theorem of_ok {a : α} (hR : ∀ b, R b ↔ b = a) : n.Decides (.ok a) R where
  ok b := by rw [hR, Except.ok.injEq, eq_comm]
  code _ hd := by cases hd
  line _ hd := by cases hd

theorem of_error {d : Defect} (hd : d.line = n.line) (hR : ∀ a, ¬ R a) :
    n.Decides (.error d) R where
  ok a := ⟨fun h => (by cases h), fun h => absurd h (hR a)⟩
  code _ h := by
    cases h
    cases d with
    | invalidOperator symbol line => exact .inl rfl
    | malformed m line => exact .inr rfl
  line _ h := by
    cases h
    exact ⟨n, .root n, hd.symm⟩

theorem malformed {m : Malformation} (hR : ∀ a, ¬ R a) : n.Decides (n.malformed m) R :=
  of_error rfl hR

theorem bind {f : α → Except Defect β} {S : α → β → Prop} (h : n.Decides answer R)
    (hf : ∀ a, R a → n.Decides (f a) (S a)) :
    n.Decides (answer >>= f) fun b => ∃ a, R a ∧ S a b := by
  cases answer with
  | error d =>
    refine ⟨fun b => ⟨fun hb => (by cases hb), ?_⟩, fun e he => ?_, fun e he => ?_⟩
    · intro hb
      obtain ⟨a, ha, -⟩ := hb
      cases (h.ok a).2 ha
    · cases he
      exact h.code d rfl
    · cases he
      exact h.line d rfl
  | ok a =>
    have hRa : R a := (h.ok a).1 rfl
    refine ⟨fun b => ⟨fun hb => ⟨a, hRa, ((hf a hRa).ok b).1 hb⟩, ?_⟩, (hf a hRa).code,
      (hf a hRa).line⟩
    intro hb
    obtain ⟨a', ha', hb⟩ := hb
    obtain rfl := Except.ok.inj ((h.ok a').2 ha')
    exact ((hf a hRa).ok b).2 hb

/-- The last step of an answer. -/
theorem map {f : α → β} (h : n.Decides answer R) :
    n.Decides (answer >>= fun a => .ok (f a)) fun b => ∃ a, R a ∧ b = f a :=
  h.bind fun _ _ => of_ok fun _ => Iff.rfl

/-- What is decided for a child is decided for its parent. -/
theorem of_child {c : Node} (hc : c ∈ n.children) (h : c.Decides answer R) :
    n.Decides answer R := by
  refine ⟨h.ok, h.code, fun d hd => ?_⟩
  obtain ⟨x, hx, hline⟩ := h.line d hd
  exact ⟨x, .child hc hx, hline⟩

theorem of_property {p : Node} {name : String} (hp : n.property? name = some p)
    (h : p.Decides answer R) : n.Decides answer R := by
  refine ⟨h.ok, h.code, fun d hd => ?_⟩
  obtain ⟨x, hx, hline⟩ := h.line d hd
  exact ⟨x, .property hp hx, hline⟩

/-- A list of answers. -/
theorem mapM {f : β → Except Defect α} {S : β → α → Prop} {xs : List β}
    (h : ∀ x ∈ xs, n.Decides (f x) (S x)) : n.Decides (xs.mapM f) (List.Forall₂ S xs) := by
  induction xs with
  | nil =>
    rw [List.mapM_nil]
    exact of_ok fun as => List.forall₂_nil_left_iff
  | cons x xs ih =>
    rw [List.mapM_cons]
    refine ((h x List.mem_cons_self).bind fun a _ => map (ih fun y hy => ?_)).congr fun as => ?_
    · exact h y (List.mem_cons_of_mem _ hy)
    · rw [List.forall₂_cons_left_iff]
      constructor
      · rintro ⟨a, ha, bs, hbs, rfl⟩
        exact ⟨a, bs, ha, hbs, rfl⟩
      · rintro ⟨a, bs, ha, hbs, rfl⟩
        exact ⟨a, ha, bs, hbs, rfl⟩

/-- An answer that is asked for only if there is something to ask. -/
theorem optional {f : β → Except Defect α} {S : β → α → Prop} {x : Option β}
    (h : ∀ y ∈ x, n.Decides (f y) (S y)) : n.Decides (x.mapM f) (Option.Rel S x) := by
  cases x with
  | none =>
    refine of_ok fun a => ?_
    cases a <;> simp
  | some y =>
    refine (map (h y rfl)).congr fun a => ?_
    cases a <;> simp

end Decides

end Node

/-! ## Labels -/

/-- The texts of a label. -/
def Label.texts : Label → List String
  | block => ["scope", "block"]
  | literal => ["literal"]
  | primary => ["primary"]
  | operator => ["operator"]
  | call => ["call"]
  | function => ["function"]
  | cond => ["if"]
  | loop => ["loop"]
  | ret => ["return"]
  | brk => ["break"]

namespace Node

theorem kind?_eq_some {n : Node} {k : Label} : n.kind? = some k ↔ n.label ∈ k.texts := by
  unfold kind? Label.ofText?
  split <;> cases k <;> simp_all [Label.texts]

/-! ## The grammar by labels -/

section Expressions

variable {n x y : Node} {e : Expr}

theorem isExpr_of_literal (hl : n.label = "literal") :
    n.IsExpr e ↔ ∃ v, Literal n.description v ∧ e = .literal v n.line := by
  constructor
  · intro h
    cases h with
    | literal _ hv => exact ⟨_, hv, rfl⟩
    | _ => simp_all
  · rintro ⟨v, hv, rfl⟩
    exact .literal hl hv

theorem isExpr_of_composite (hl : n.label = "primary") (hc : n.children ≠ []) :
    n.IsExpr e ↔ e = .composite n.description n.line := by
  constructor
  · intro h
    cases h with
    | composite _ _ => rfl
    | _ => simp_all
  · rintro rfl
    exact .composite hl hc

theorem isExpr_of_primary (hl : n.label = "primary") (hc : n.children = []) :
    n.IsExpr e ↔ (∃ v, Literal n.description v ∧ e = .literal v n.line) ∨
      (IsName n.description ∧ e = .identifier n.description n.line) := by
  constructor
  · intro h
    cases h with
    | constant _ _ hv => exact .inl ⟨_, hv, rfl⟩
    | identifier _ _ hn => exact .inr ⟨hn, rfl⟩
    | _ => simp_all
  · rintro (⟨v, hv, rfl⟩ | ⟨hn, rfl⟩)
    · exact .constant hl hc hv
    · exact .identifier hl hc hn

theorem isExpr_of_one (hl : n.label = "operator") (hc : n.children = [x]) :
    n.IsExpr e ↔ ∃ d, x.IsExpr d ∧
      ((∃ op : UnaryOp, n.description = op.symbol ∧ e = .unary op d n.line) ∨
        (n.description = "#" ∧ e = .print d n.line)) := by
  constructor
  · intro h
    cases h with
    | unary op _ hc' hs hx =>
      obtain rfl : _ = x := by simpa using hc'.symm.trans hc
      exact ⟨_, hx, .inl ⟨op, hs, rfl⟩⟩
    | print _ hc' hs hx =>
      obtain rfl : _ = x := by simpa using hc'.symm.trans hc
      exact ⟨_, hx, .inr ⟨hs, rfl⟩⟩
    | _ => simp_all
  · rintro ⟨d, hx, ⟨op, hs, rfl⟩ | ⟨hs, rfl⟩⟩
    · exact .unary op hl hc hs hx
    · exact .print hl hc hs hx

/-- The sign of an assignment is no binary operator. -/
theorem symbol_ne_assign (op : BinaryOp) : op.symbol ≠ "=" := by
  cases op <;> decide

theorem isExpr_of_assign (hl : n.label = "operator") (hc : n.children = [x, y])
    (hs : n.description = "=") :
    n.IsExpr e ↔ ∃ name, x.Names name ∧ ∃ d, y.IsExpr d ∧ e = .assign name d n.line := by
  constructor
  · intro h
    cases h with
    | assign _ hc' _ hx hy =>
      obtain ⟨rfl, rfl⟩ : _ = x ∧ _ = y := by simpa using hc'.symm.trans hc
      exact ⟨_, hx, _, hy, rfl⟩
    | binary op _ _ hs' => exact absurd (hs'.symm.trans hs) (symbol_ne_assign op)
    | _ => simp_all
  · rintro ⟨name, hx, d, hy, rfl⟩
    exact .assign hl hc hs hx hy

theorem isExpr_of_two (hl : n.label = "operator") (hc : n.children = [x, y])
    (hs : n.description ≠ "=") :
    n.IsExpr e ↔ ∃ op : BinaryOp, n.description = op.symbol ∧ ∃ d, x.IsExpr d ∧
      ∃ d', y.IsExpr d' ∧ e = .binary op d d' n.line := by
  constructor
  · intro h
    cases h with
    | assign _ _ hs' _ _ => exact absurd hs' hs
    | binary op _ hc' hs' hx hy =>
      obtain ⟨rfl, rfl⟩ : _ = x ∧ _ = y := by simpa using hc'.symm.trans hc
      exact ⟨op, hs', _, hx, _, hy, rfl⟩
    | _ => simp_all
  · rintro ⟨op, hs', d, hx, d', hy, rfl⟩
    exact .binary op hl hc hs' hx hy

/-- An operator has one operand or two. -/
theorem IsExpr.operands (h : n.IsExpr e) (hl : n.label = "operator") :
    (∃ x, n.children = [x]) ∨ ∃ x y, n.children = [x, y] := by
  cases h with
  | unary op _ hc _ _ => exact .inl ⟨_, hc⟩
  | print _ hc _ _ => exact .inl ⟨_, hc⟩
  | assign _ hc _ _ _ => exact .inr ⟨_, _, hc⟩
  | binary op _ hc _ _ _ => exact .inr ⟨_, _, hc⟩
  | _ => simp_all

theorem isExpr_of_call (hl : n.label = "call") :
    n.IsExpr e ↔ n.description ≠ "" ∧ ∃ es, n.HasActuals 0 es ∧
      e = .call n.description es n.line := by
  constructor
  · intro h
    cases h with
    | call _ hs ha => exact ⟨hs, _, ha, rfl⟩
    | _ => simp_all
  · rintro ⟨hs, es, ha, rfl⟩
    exact .call hl hs ha

/-- The labels of expressions. -/
theorem IsExpr.label (h : n.IsExpr e) :
    n.kind? = some .literal ∨ n.kind? = some .primary ∨ n.kind? = some .operator ∨
      n.kind? = some .call := by
  simp only [kind?_eq_some, Label.texts, List.mem_singleton]
  cases h <;> simp_all

end Expressions

/-! ## Actuals -/

theorem actualName_injective : Function.Injective actualName := by
  intro j k h
  have hrepr : j.repr = k.repr := by simpa [actualName] using h
  have hdigits : Nat.toDigits 10 j = Nat.toDigits 10 k := by
    have := congrArg String.toList hrepr
    simpa [Nat.repr] using this
  have := congrArg (Nat.ofDigitChars 10 · 0) hdigits
  simpa using this

/-- A node has fewer properties than there are names of actuals. -/
theorem exists_missing_actual (n : Node) :
    ∃ k ≤ n.properties.length, n.property? (actualName k) = none := by
  by_contra hall
  have hsub : (List.range (n.properties.length + 1)).map actualName ⊆
      n.properties.map Prod.fst := by
    intro name hname
    obtain ⟨k, hk, rfl⟩ := List.mem_map.1 hname
    by_contra hmem
    refine hall ⟨k, Nat.le_of_lt_succ (List.mem_range.1 hk), List.lookup_eq_none_iff.2 ?_⟩
    intro p hp
    simp only [bne_iff_ne, ne_eq]
    intro heq
    exact hmem (List.mem_map.2 ⟨p, hp, heq.symm⟩)
  have hle :=
    (List.subperm_of_subset (List.nodup_range.map actualName_injective) hsub).length_le
  simp only [List.length_map, List.length_range] at hle
  omega

/-- The bound on the number of actuals cuts none off: one of the names up to it is missing. -/
theorem hasActuals_iff {n : Node} {count k j : Nat} (hkj : k ≤ j) (hj : j ≤ k + count)
    (hmissing : n.property? (actualName j) = none) {es : List Expr} :
    n.HasActuals k es ↔ List.Forall₂ IsExpr (n.actualsFrom count k) es := by
  induction count generalizing k es with
  | zero =>
    obtain rfl : j = k := by omega
    simp only [actualsFrom, List.forall₂_nil_left_iff]
    constructor
    · intro h
      cases h with
      | nil _ => rfl
      | cons ha _ _ => simp [hmissing] at ha
    · rintro rfl
      exact .nil hmissing
  | succ count ih =>
    unfold actualsFrom
    split
    · rename_i a ha
      have hlt : k ≠ j := by
        rintro rfl
        simp [hmissing] at ha
      have ih : ∀ {rest : List Expr}, n.HasActuals (k + 1) rest ↔
          List.Forall₂ IsExpr (n.actualsFrom count (k + 1)) rest := ih (by omega) (by omega)
      rw [List.forall₂_cons_left_iff]
      constructor
      · intro h
        cases h with
        | nil hnone => simp [hnone] at ha
        | cons ha' hx hr =>
          obtain rfl := Option.some.inj (ha'.symm.trans ha)
          exact ⟨_, _, hx, ih.1 hr, rfl⟩
      · rintro ⟨e, rest, hx, hr, rfl⟩
        exact .cons ha hx (ih.2 hr)
    · rename_i hnone
      rw [List.forall₂_nil_left_iff]
      constructor
      · intro h
        cases h with
        | nil _ => rfl
        | cons ha _ _ => simp [hnone] at ha
      · rintro rfl
        exact .nil hnone

theorem hasActuals_zero {n : Node} {es : List Expr} :
    n.HasActuals 0 es ↔ List.Forall₂ IsExpr n.actuals es := by
  obtain ⟨k, hk, hmissing⟩ := n.exists_missing_actual
  exact hasActuals_iff (Nat.zero_le k) (by omega) hmissing

theorem exists_property_of_mem_actualsFrom {n a : Node} {count k : Nat}
    (h : a ∈ n.actualsFrom count k) : ∃ name, n.property? name = some a := by
  induction count generalizing k with
  | zero => simp [actualsFrom] at h
  | succ count ih =>
    unfold actualsFrom at h
    split at h
    · rename_i b hb
      rcases List.mem_cons.1 h with rfl | h
      · exact ⟨_, hb⟩
      · exact ih h
    · simp at h

/-! ## Expressions -/

section

variable {n : Node}

theorem decides_target (n : Node) : n.Decides n.target n.Names := by
  unfold target
  split
  · rename_i h
    simp only [isTarget, Bool.and_eq_true, Bool.or_eq_true, decide_eq_true_eq, bne_iff_ne,
      List.isEmpty_iff, Option.isNone_iff_eq_none, Value.ofLiteral?_eq_none] at h
    obtain ⟨⟨⟨hl, hc⟩, hne⟩, hlit⟩ := h
    refine .of_ok fun name => ⟨fun hn => hn.text.symm, ?_⟩
    rintro rfl
    exact ⟨hl, hc, rfl, hne, hlit⟩
  · rename_i h
    refine .malformed fun name hn => h ?_
    obtain ⟨hl, hc, rfl, hne, hlit⟩ := hn
    simp only [isTarget, Bool.and_eq_true, Bool.or_eq_true, decide_eq_true_eq, bne_iff_ne,
      List.isEmpty_iff, Option.isNone_iff_eq_none, Value.ofLiteral?_eq_none]
    exact ⟨⟨⟨hl, hc⟩, hne⟩, hlit⟩

theorem decides_primaryExpr (hl : n.label = "primary") : n.Decides n.primaryExpr n.IsExpr := by
  unfold primaryExpr
  split
  · rename_i hc
    exact .of_ok fun e => isExpr_of_composite hl (by simpa using hc)
  · rename_i hc
    have hc : n.children = [] := by simpa using hc
    split
    · rename_i v hv
      refine .of_ok fun e => (isExpr_of_primary hl hc).trans ?_
      simp [IsName, ← Value.ofLiteral?_eq_some, hv]
    · rename_i hv
      have hv := Value.ofLiteral?_eq_none.1 hv
      split
      · rename_i hne
        refine .malformed fun e he => ?_
        obtain ⟨v, hv', -⟩ | ⟨hn, -⟩ := (isExpr_of_primary hl hc).1 he
        · exact hv v hv'
        · exact hn.1 hne
      · rename_i hne
        exact .of_ok fun e => by simp [isExpr_of_primary hl hc, IsName, hv, hne]

theorem decides_unaryExpr (n : Node) (d : Expr) :
    n.Decides (n.unaryExpr d) fun e =>
      (∃ op : UnaryOp, n.description = op.symbol ∧ e = .unary op d n.line) ∨
        (n.description = "#" ∧ e = .print d n.line) := by
  unfold unaryExpr
  split
  · rename_i hs
    refine .of_ok fun e => ⟨?_, fun he => .inl ⟨.plus, hs, he⟩⟩
    rintro (⟨op, hop, rfl⟩ | ⟨hs', rfl⟩)
    · cases op <;> simp_all [UnaryOp.symbol]
    · simp [hs] at hs'
  · rename_i hs
    refine .of_ok fun e => ⟨?_, fun he => .inl ⟨.neg, hs, he⟩⟩
    rintro (⟨op, hop, rfl⟩ | ⟨hs', rfl⟩)
    · cases op <;> simp_all [UnaryOp.symbol]
    · simp [hs] at hs'
  · rename_i hs
    refine .of_ok fun e => ⟨?_, fun he => .inr ⟨hs, he⟩⟩
    rintro (⟨op, hop, rfl⟩ | ⟨hs', rfl⟩)
    · cases op <;> simp_all [UnaryOp.symbol]
    · rfl
  · rename_i hplus hneg hprint
    refine .of_error rfl fun e => ?_
    rintro (⟨op, hop, rfl⟩ | ⟨hs', rfl⟩)
    · cases op <;> simp_all [UnaryOp.symbol]
    · exact hprint hs'

/-- The two tables of operators are inverse. -/
theorem ofSymbol?_eq_some {s : String} {op : BinaryOp} :
    BinaryOp.ofSymbol? s = some op ↔ s = op.symbol := by
  constructor
  · intro h
    unfold BinaryOp.ofSymbol? at h
    split at h <;> cases h <;> rfl
  · rintro rfl
    cases op <;> rfl

theorem line_operandDefect (n : Node) : n.operandDefect.line = n.line := by
  simp only [operandDefect]
  split <;> rfl

/-- An operator, if its operands are decided. -/
theorem decides_operator (hk : n.kind? = some .operator)
    (ih : ∀ x ∈ n.children, x.Decides x.toExpr x.IsExpr) : n.Decides n.toExpr n.IsExpr := by
  have hl : n.label = "operator" := by simpa [Label.texts] using kind?_eq_some.1 hk
  rw [toExpr, hk]
  simp only
  split
  · rename_i x hc
    have hx : n.Decides x.toExpr x.IsExpr := .of_child (by simp [hc]) (ih x (by simp [hc]))
    exact (hx.bind fun d _ => n.decides_unaryExpr d).congr fun e => (isExpr_of_one hl hc).symm
  · rename_i x y hc
    have hy : n.Decides y.toExpr y.IsExpr := .of_child (by simp [hc]) (ih y (by simp [hc]))
    split
    · rename_i hs
      have hx : n.Decides x.target x.Names := .of_child (by simp [hc]) x.decides_target
      exact (hx.bind fun name _ => hy.map).congr fun e => (isExpr_of_assign hl hc hs).symm
    · rename_i hs
      have hx : n.Decides x.toExpr x.IsExpr := .of_child (by simp [hc]) (ih x (by simp [hc]))
      split
      · rename_i hop
        refine .of_error rfl fun e he => ?_
        obtain ⟨op, hs', -⟩ := (isExpr_of_two hl hc hs).1 he
        simp [ofSymbol?_eq_some.2 hs'] at hop
      · rename_i op hop
        refine (hx.bind fun d _ => hy.map).congr fun e => ?_
        rw [isExpr_of_two hl hc hs]
        simp [← ofSymbol?_eq_some, hop]
  · rename_i hone htwo
    refine .of_error n.line_operandDefect fun e he => ?_
    obtain ⟨x, hc⟩ | ⟨x, y, hc⟩ := he.operands hl
    · exact hone x hc
    · exact htwo x y hc

theorem decides_toExpr (n : Node) : n.Decides n.toExpr n.IsExpr := by
  cases hk : n.kind? with
  | none =>
    rw [toExpr, hk]
    refine .malformed fun e he => ?_
    simpa [hk] using he.label
  | some k =>
    cases k with
    | literal =>
      have hl : n.label = "literal" := by simpa [Label.texts] using kind?_eq_some.1 hk
      rw [toExpr, hk]
      simp only
      split
      · rename_i v hv
        refine .of_ok fun e => (isExpr_of_literal hl).trans ?_
        simp [← Value.ofLiteral?_eq_some, hv]
      · rename_i hv
        refine .malformed fun e he => ?_
        obtain ⟨v, hv', -⟩ := (isExpr_of_literal hl).1 he
        exact Value.ofLiteral?_eq_none.1 hv v hv'
    | primary =>
      have hl : n.label = "primary" := by simpa [Label.texts] using kind?_eq_some.1 hk
      rw [toExpr, hk]
      exact decides_primaryExpr hl
    | operator => exact decides_operator hk fun x hx => x.decides_toExpr
    | call =>
      have hl : n.label = "call" := by simpa [Label.texts] using kind?_eq_some.1 hk
      rw [toExpr, hk]
      simp only
      split
      · rename_i hs
        exact .malformed fun e he => ((isExpr_of_call hl).1 he).1 hs
      · rename_i hs
        have hargs : n.Decides (n.actuals.mapM toExpr) (List.Forall₂ IsExpr n.actuals) := by
          refine .mapM fun a ha => ?_
          obtain ⟨name, hname⟩ := exists_property_of_mem_actualsFrom ha
          exact .of_property hname a.decides_toExpr
        rw [List.mapM_subtype (g := toExpr) fun _ _ => rfl, List.unattach_attach]
        refine hargs.map.congr fun e => ?_
        simp [isExpr_of_call hl, hs, hasActuals_zero]
    | _ =>
      rw [toExpr, hk]
      refine .malformed fun e he => ?_
      simpa [hk] using he.label
termination_by sizeOf n
decreasing_by
  · exact sizeOf_lt_of_mem_children hx
  · exact sizeOf_lt_of_mem_actuals ha

end

/-! ## Statements -/

section Statements

variable {n : Node} {s : Stmt} {ss : List Stmt}

theorem isBlockLabel_iff : IsBlockLabel n.label ↔ n.kind? = some .block := by
  simp [kind?_eq_some, Label.texts, IsBlockLabel]

theorem areStmts_iff {ns : List Node} : AreStmts ns ss ↔ List.Forall₂ IsStmt ns ss := by
  constructor
  · intro h
    induction ns generalizing ss with
    | nil =>
      cases h
      exact .nil
    | cons x xs ih =>
      cases h with
      | cons hs hr => exact .cons hs (ih hr)
  · intro h
    induction h with
    | nil => exact .nil
    | cons hs _ ih => exact .cons hs ih

theorem isBlock_of_block (hl : IsBlockLabel n.label) : n.IsBlock ss ↔ AreStmts n.children ss := by
  refine ⟨fun h => ?_, .many hl⟩
  cases h with
  | many _ hs => exact hs
  | single hl' _ => exact absurd hl hl'

theorem isBlock_of_single (hl : ¬ IsBlockLabel n.label) :
    n.IsBlock ss ↔ ∃ s, n.IsStmt s ∧ ss = [s] := by
  constructor
  · intro h
    cases h with
    | many hl' _ => exact absurd hl' hl
    | single _ hs => exact ⟨_, hs, rfl⟩
  · rintro ⟨s, hs, rfl⟩
    exact .single hl hs

theorem isStmt_of_block (hl : IsBlockLabel n.label) :
    n.IsStmt s ↔ ∃ ss, AreStmts n.children ss ∧ s = .block ss n.line := by
  constructor
  · intro h
    cases h with
    | expr hx => simpa [isBlockLabel_iff.1 hl] using hx.label
    | block _ hs => exact ⟨_, hs, rfl⟩
    | _ => simp_all [IsBlockLabel]
  · rintro ⟨ss, hs, rfl⟩
    exact .block hl hs

theorem isStmt_of_cond (hl : n.label = "if") :
    n.IsStmt s ↔ ∃ c, n.property? "condition" = some c ∧ ∃ e, c.IsExpr e ∧
      ∃ b, n.property? "body" = some b ∧ ∃ ss, b.IsBlock ss ∧
        ∃ other, Option.Rel IsBlock (n.property? "else") other ∧
          s = .cond e ss other n.line := by
  constructor
  · intro h
    cases h with
    | expr hx => simpa [kind?, hl, Label.ofText?] using hx.label
    | cond _ hc hx hb hs ho => exact ⟨_, hc, _, hx, _, hb, _, hs, none, by simp [ho], rfl⟩
    | condElse _ hc hx hb hs ho ht =>
      exact ⟨_, hc, _, hx, _, hb, _, hs, some _, by simpa [ho] using ht, rfl⟩
    | _ => simp_all [IsBlockLabel]
  · rintro ⟨c, hc, e, hx, b, hb, ss, hs, other, ho, rfl⟩
    cases hp : n.property? "else" with
    | none =>
      rw [hp] at ho
      cases ho
      exact .cond hl hc hx hb hs hp
    | some o =>
      rw [hp] at ho
      cases ho with
      | some ht => exact .condElse hl hc hx hb hs hp ht

theorem isStmt_of_loop (hl : n.label = "loop") :
    n.IsStmt s ↔ ∃ condition, Option.Rel IsExpr (n.property? "condition") condition ∧
      ∃ b, n.property? "body" = some b ∧ ∃ ss, b.IsBlock ss ∧ s = .loop condition ss n.line := by
  constructor
  · intro h
    cases h with
    | expr hx => simpa [kind?, hl, Label.ofText?] using hx.label
    | forever _ hc hb hs => exact ⟨none, by simp [hc], _, hb, _, hs, rfl⟩
    | loop _ hc hx hb hs => exact ⟨some _, by simpa [hc] using hx, _, hb, _, hs, rfl⟩
    | _ => simp_all [IsBlockLabel]
  · rintro ⟨condition, hc, b, hb, ss, hs, rfl⟩
    cases hp : n.property? "condition" with
    | none =>
      rw [hp] at hc
      cases hc
      exact .forever hl hp hb hs
    | some c =>
      rw [hp] at hc
      cases hc with
      | some hx => exact .loop hl hp hx hb hs

theorem isStmt_of_function (hl : n.label = "function") :
    n.IsStmt s ↔ n.description ≠ "" ∧ ∃ params, n.HasFormals params ∧
      ∃ b, n.property? "body" = some b ∧ ∃ ss, b.IsBlock ss ∧
        s = .function n.description params ss n.line := by
  constructor
  · intro h
    cases h with
    | expr hx => simpa [kind?, hl, Label.ofText?] using hx.label
    | function _ hd hp hb hs => exact ⟨hd, _, hp, _, hb, _, hs, rfl⟩
    | _ => simp_all [IsBlockLabel]
  · rintro ⟨hd, params, hp, b, hb, ss, hs, rfl⟩
    exact .function hl hd hp hb hs

theorem isStmt_of_ret (hl : n.label = "return") :
    n.IsStmt s ↔ ∃ value, Option.Rel IsExpr n.children.head? value ∧ s = .ret value n.line := by
  constructor
  · intro h
    cases h with
    | expr hx => simpa [kind?, hl, Label.ofText?] using hx.label
    | leave _ hc => exact ⟨none, by simp [hc], rfl⟩
    | ret _ hc hx => exact ⟨some _, by simpa [hc] using hx, rfl⟩
    | _ => simp_all [IsBlockLabel]
  · rintro ⟨value, hv, rfl⟩
    cases hc : n.children with
    | nil =>
      rw [hc] at hv
      cases hv
      exact .leave hl hc
    | cons x rest =>
      rw [hc] at hv
      cases hv with
      | some hx => exact .ret hl hc hx

theorem isStmt_of_brk (hl : n.label = "break") : n.IsStmt s ↔ s = .brk n.line := by
  constructor
  · intro h
    cases h with
    | expr hx => simpa [kind?, hl, Label.ofText?] using hx.label
    | brk _ => rfl
    | _ => simp_all [IsBlockLabel]
  · rintro rfl
    exact .brk hl

/-- The label of an expression is no label of another statement. -/
theorem isStmt_of_toExpr (hk : n.kind? = some .literal ∨ n.kind? = some .primary ∨
    n.kind? = some .operator ∨ n.kind? = some .call) :
    n.IsStmt s ↔ ∃ e, n.IsExpr e ∧ s = .expr e := by
  constructor
  · intro h
    cases h with
    | expr hx => exact ⟨_, hx, rfl⟩
    | block hl _ => simp [isBlockLabel_iff.1 hl] at hk
    | _ => simp_all [kind?, Label.ofText?]
  · rintro ⟨e, hx, rfl⟩
    exact .expr hx

/-- Nodes of other labels are no statements. -/
theorem IsStmt.label (h : n.IsStmt s) : n.kind? ≠ none := by
  intro hk
  cases h with
  | expr hx => simpa [hk] using hx.label
  | block hl _ => simp [isBlockLabel_iff.1 hl] at hk
  | _ => simp_all [kind?, Label.ofText?]

theorem decides_formals (n : Node) : n.Decides n.formals n.HasFormals := by
  unfold formals
  cases hp : n.property? "args" with
  | none =>
    refine .of_ok fun params => ⟨fun h => ?_, ?_⟩
    · simpa [hp] using h.texts
    · rintro rfl
      exact ⟨by simp [hp], by simp⟩
  | some args =>
    have hparam : ∀ param ∈ args.children, args.Decides
        (if param.description = "" then param.malformed (.namelessParameter n.description)
          else .ok param.description)
        fun name => param.description ≠ "" ∧ param.description = name := by
      intro param hmem
      split
      · rename_i hne
        exact .of_child hmem (.malformed fun name h => h.1 hne)
      · rename_i hne
        exact .of_ok fun name => by simp [hne, eq_comm]
    refine .of_property hp ((Decides.mapM hparam).congr fun params => ?_)
    have htexts : List.Forall₂ (fun param name => description param = name) args.children params ↔
        args.children.map description = params := by
      rw [← List.forall₂_map_left_iff (R := Eq), List.forall₂_eq_eq_eq]
    rw [List.forall₂_and_left, htexts]
    constructor
    · rintro ⟨hne, rfl⟩
      exact ⟨by simp [hp], by simpa using hne⟩
    · rintro ⟨htext, hne⟩
      simp only [hp, Option.map_some, Option.getD_some] at htext
      subst htext
      exact ⟨by simpa using hne, rfl⟩

theorem decides_property (n : Node) (name : String) :
    n.Decides ((n.property? name).mapM toExpr) (Option.Rel IsExpr (n.property? name)) :=
  .optional fun p hp => .of_property hp p.decides_toExpr

/-- A list of statements, if the node and its children are decided. -/
theorem decides_toStmts (ih : ∀ x : Node, sizeOf x ≤ sizeOf n → x.Decides x.toStmt x.IsStmt) :
    n.Decides n.toStmts n.IsBlock := by
  rw [toStmts]
  split
  · rename_i hk
    have hl : IsBlockLabel n.label := isBlockLabel_iff.2 hk
    rw [List.mapM_subtype (g := toStmt) fun _ _ => rfl, List.unattach_attach]
    refine (Decides.mapM fun c hc => .of_child hc (ih c ?_)).congr fun ss => ?_
    · exact (sizeOf_lt_of_mem_children hc).le
    · rw [isBlock_of_block hl, areStmts_iff]
  · rename_i hk
    have hl : ¬ IsBlockLabel n.label := fun hl => hk (isBlockLabel_iff.1 hl)
    exact (ih n le_rfl).map.congr fun ss => (isBlock_of_single hl).symm

section Parts

variable (blocks : ∀ (name : String) (b : Node), n.property? name = some b →
  b.Decides b.toStmts b.IsBlock)

include blocks

theorem decides_cond (hk : n.kind? = some .cond) : n.Decides n.toStmt n.IsStmt := by
  have hl : n.label = "if" := by simpa [Label.texts] using kind?_eq_some.1 hk
  refine Decides.congr ?_ fun s => (isStmt_of_cond hl).symm
  rw [toStmt, hk]
  simp only
  cases hc : n.property? "condition" with
  | none => exact .malformed fun s hs => by simp at hs
  | some c =>
    have hx : n.Decides c.toExpr c.IsExpr := .of_property hc c.decides_toExpr
    refine (hx.bind (S := fun e s => ∃ b, n.property? "body" = some b ∧ ∃ ss, b.IsBlock ss ∧
      ∃ other, Option.Rel IsBlock (n.property? "else") other ∧ s = .cond e ss other n.line)
      fun e _ => ?_).congr fun s => (by simp)
    split
    · rename_i hb
      exact .malformed fun s hs => by simp [hb] at hs
    · rename_i b hb
      have hthen : n.Decides b.toStmts b.IsBlock := .of_property hb (blocks _ b hb)
      refine (hthen.bind (S := fun ss s => ∃ other, Option.Rel IsBlock (n.property? "else") other ∧
        s = .cond e ss other n.line) fun ss _ => ?_).congr fun s => (by simp [hb])
      split
      · rename_i ho
        exact .of_ok fun s => by simp [ho, Option.exists]
      · rename_i o ho
        have helse : n.Decides o.toStmts o.IsBlock := .of_property ho (blocks _ o ho)
        exact helse.map.congr fun s => by simp [ho, Option.exists]

theorem decides_loop (hk : n.kind? = some .loop) : n.Decides n.toStmt n.IsStmt := by
  have hl : n.label = "loop" := by simpa [Label.texts] using kind?_eq_some.1 hk
  refine Decides.congr ?_ fun s => (isStmt_of_loop hl).symm
  rw [toStmt, hk]
  refine (n.decides_property "condition").bind fun condition _ => ?_
  split
  · rename_i hb
    exact .malformed fun s hs => by simp [hb] at hs
  · rename_i b hb
    have hbody : n.Decides b.toStmts b.IsBlock := .of_property hb (blocks _ b hb)
    exact hbody.map.congr fun s => by simp [hb]

theorem decides_function (hk : n.kind? = some .function) : n.Decides n.toStmt n.IsStmt := by
  have hl : n.label = "function" := by simpa [Label.texts] using kind?_eq_some.1 hk
  refine Decides.congr ?_ fun s => (isStmt_of_function hl).symm
  rw [toStmt, hk]
  simp only
  split
  · rename_i hne
    exact .malformed fun s hs => hs.1 hne
  · rename_i hne
    refine (n.decides_formals.bind (S := fun params s => ∃ b, n.property? "body" = some b ∧
      ∃ ss, b.IsBlock ss ∧ s = .function n.description params ss n.line)
      fun params _ => ?_).congr fun s => (by simp [hne])
    split
    · rename_i hb
      exact .malformed fun s hs => by simp [hb] at hs
    · rename_i b hb
      have hbody : n.Decides b.toStmts b.IsBlock := .of_property hb (blocks _ b hb)
      exact hbody.map.congr fun s => by simp [hb]

end Parts

theorem decides_toStmt (n : Node) : n.Decides n.toStmt n.IsStmt := by
  have ih : ∀ x : Node, sizeOf x < sizeOf n → x.Decides x.toStmt x.IsStmt :=
    fun x _ => x.decides_toStmt
  have blocks : ∀ (name : String) (b : Node), n.property? name = some b →
      b.Decides b.toStmts b.IsBlock :=
    fun name b hb => decides_toStmts fun x hx =>
      ih x (Nat.lt_of_le_of_lt hx (sizeOf_lt_of_property? hb))
  cases hk : n.kind? with
  | none =>
    rw [toStmt, hk]
    exact .malformed fun s hs => hs.label hk
  | some k =>
    cases k with
    | block =>
      rw [toStmt, hk]
      simp only
      rw [List.mapM_subtype (g := toStmt) fun _ _ => rfl, List.unattach_attach]
      refine (Decides.map (.mapM fun c hc => .of_child hc (ih c ?_))).congr fun s => ?_
      · exact sizeOf_lt_of_mem_children hc
      · rw [isStmt_of_block (isBlockLabel_iff.2 hk)]
        simp only [areStmts_iff]
    | cond => exact decides_cond blocks hk
    | loop => exact decides_loop blocks hk
    | function => exact decides_function blocks hk
    | ret =>
      have hl : n.label = "return" := by simpa [Label.texts] using kind?_eq_some.1 hk
      have hvalue : n.Decides (n.children.head?.mapM toExpr)
          (Option.Rel IsExpr n.children.head?) :=
        .optional fun x hx => .of_child (List.mem_of_mem_head? hx) x.decides_toExpr
      rw [toStmt, hk]
      exact hvalue.map.congr fun s => (isStmt_of_ret hl).symm
    | brk =>
      have hl : n.label = "break" := by simpa [Label.texts] using kind?_eq_some.1 hk
      rw [toStmt, hk]
      exact .of_ok fun s => isStmt_of_brk hl
    | literal | primary | operator | call =>
      rw [toStmt, hk]
      exact n.decides_toExpr.map.congr fun s => (isStmt_of_toExpr (by simp [hk])).symm
termination_by sizeOf n

/-- Lowering accepts exactly the trees of the grammar and gives what they stand for; it refuses all
others as malformed or for an operator, at the line of one of their nodes. -/
theorem lowering_decides_grammar (n : Node) :
    n.Decides n.toProgram n.IsBlock ∧ n.Decides n.toStmt n.IsStmt ∧
      n.Decides n.toExpr n.IsExpr :=
  ⟨decides_toStmts fun x _ => x.decides_toStmt, n.decides_toStmt, n.decides_toExpr⟩

end Statements

end Node

end HeapWalk
