import HeapWalk.Proofs.Exactness
import HeapWalk.Proofs.Tokens
import Mathlib.Data.Nat.Find
import Mathlib.Order.Bounds.Basic

/-!
# The arguments of a call

`Node.Collects` is the loop that collects the arguments of a call. Each round looks up the property
that is named by the number of arguments so far, and only a missing property or a defect ends the
loop: its rounds are not counted against a bound. It ends all the same, since the names `args0`,
`args1`, … differ from one another and a node has finitely many properties
(`Node.exists_least_missing`).

Throughout the loop the arguments so far are what the properties `args0`, `args1`, … stand for, in
this order (`Node.Collected`). What a call stands for is what its loop gives
(`Node.Collects.toExpr_eq`), so it depends on no property but those up to the first that is missing.
-/

set_option autoImplicit false

namespace HeapWalk.Node

/-! ## The loop -/

/-- The loop, entered with the arguments `args`, gives `answer` after `rounds` rounds. -/
inductive Collects (n : Node) : (args : List Expr) → (rounds : Nat) →
    (answer : Except Defect (List Expr)) → Prop where
  | finish {args : List Expr} (ha : n.property? (actualName args.length) = none) :
    Collects n args 0 (.ok args)
  | refuse {args : List Expr} {a : Node} {d : Defect}
    (ha : n.property? (actualName args.length) = some a) (hd : a.toExpr = .error d) :
    Collects n args 1 (.error d)
  | take {args : List Expr} {a : Node} {e : Expr} {rounds : Nat}
    {answer : Except Defect (List Expr)} (ha : n.property? (actualName args.length) = some a)
    (he : a.toExpr = .ok e) (hr : Collects n (args ++ [e]) rounds answer) :
    Collects n args (rounds + 1) answer

/-- Each of the arguments is what the property of its index stands for. -/
def Collected (n : Node) (args : List Expr) : Prop :=
  ∀ i e, args[i]? = some e → ∃ a, n.property? (actualName i) = some a ∧ a.toExpr = .ok e

section Loop

variable {n m : Node} {args es : List Expr} {rounds k : Nat} {answer : Except Defect (List Expr)}

/-- The loop ends in one way only. -/
theorem Collects.unique {r : Nat} {b : Except Defect (List Expr)}
    (h : n.Collects args rounds answer) (h' : n.Collects args r b) : r = rounds ∧ b = answer := by
  induction h generalizing r b with
  | finish ha =>
    cases h' with
    | finish => exact ⟨rfl, rfl⟩
    | refuse ha' | take ha' => cases ha.symm.trans ha'
  | refuse ha hd =>
    cases h' with
    | finish ha' => cases ha.symm.trans ha'
    | refuse ha' hd' =>
      obtain rfl := Option.some.inj (ha.symm.trans ha')
      obtain rfl := Except.error.inj (hd.symm.trans hd')
      exact ⟨rfl, rfl⟩
    | take ha' he' =>
      obtain rfl := Option.some.inj (ha.symm.trans ha')
      cases hd.symm.trans he'
  | take ha he _ ih =>
    cases h' with
    | finish ha' => cases ha.symm.trans ha'
    | refuse ha' hd' =>
      obtain rfl := Option.some.inj (ha.symm.trans ha')
      cases he.symm.trans hd'
    | take ha' he' hr' =>
      obtain rfl := Option.some.inj (ha.symm.trans ha')
      obtain rfl := Except.ok.inj (he.symm.trans he')
      obtain ⟨rfl, rfl⟩ := ih hr'
      exact ⟨rfl, rfl⟩

theorem collected_nil : n.Collected [] := by
  intro i e h
  simp at h

/-- A round keeps the arguments in line with the properties. -/
theorem Collected.take {a : Node} {e : Expr} (h : n.Collected args)
    (ha : n.property? (actualName args.length) = some a) (he : a.toExpr = .ok e) :
    n.Collected (args ++ [e]) := by
  intro i x hx
  rcases Nat.lt_trichotomy i args.length with hi | rfl | hi
  · rw [List.getElem?_append_left hi] at hx
    exact h i x hx
  · rw [List.getElem?_concat_length] at hx
    obtain rfl := Option.some.inj hx
    exact ⟨a, ha, he⟩
  · have hlength : (args ++ [e]).length ≤ i := by simpa using Nat.succ_le_of_lt hi
    rw [List.getElem?_eq_none hlength] at hx
    cases hx

theorem Collects.collected (h : n.Collects args rounds (.ok es)) (hc : n.Collected args) :
    n.Collected es ∧ n.property? (actualName es.length) = none := by
  generalize hanswer : Except.ok es = answer at h
  induction h with
  | finish ha =>
    obtain rfl := Except.ok.inj hanswer
    exact ⟨hc, ha⟩
  | refuse => cases hanswer
  | take ha he _ ih => exact ih (hc.take ha he) hanswer

theorem Collects.length_eq (h : n.Collects args rounds (.ok es)) :
    es.length = args.length + rounds := by
  generalize hanswer : Except.ok es = answer at h
  induction h with
  | finish => rw [Except.ok.inj hanswer, Nat.add_zero]
  | refuse => cases hanswer
  | take _ _ _ ih =>
    rw [ih hanswer, List.length_append, List.length_singleton]
    omega

/-- A defect comes from the actual that was looked up last. -/
theorem Collects.refused {d : Defect} (h : n.Collects args rounds (.error d)) :
    ∃ i, i + 1 = args.length + rounds ∧
      ∃ a, n.property? (actualName i) = some a ∧ a.toExpr = .error d := by
  generalize hanswer : Except.error d = answer at h
  induction h with
  | finish => cases hanswer
  | refuse ha hd =>
    obtain rfl := Except.error.inj hanswer
    exact ⟨_, rfl, _, ha, hd⟩
  | take _ _ _ ih =>
    obtain ⟨i, hi, hactual⟩ := ih hanswer
    refine ⟨i, ?_, hactual⟩
    rw [hi, List.length_append, List.length_singleton]
    omega

/-! ## The first missing property -/

/-- There are more names of actuals than properties, so the first one that names no property comes
after at most as many as there are properties. -/
theorem exists_least_missing (n : Node) :
    ∃ k ≤ n.properties.length, IsLeast {i | n.property? (actualName i) = none} k := by
  obtain ⟨j, hj, hmissing⟩ := n.exists_missing_actual
  have hex : ∃ i, n.property? (actualName i) = none := ⟨j, hmissing⟩
  exact ⟨Nat.find hex, (Nat.find_min' hex hmissing).trans hj, Nat.find_spec hex,
    fun i hi => Nat.find_min' hex hi⟩

variable (hk : IsLeast {i | n.property? (actualName i) = none} k)

include hk

theorem exists_actual_of_lt {i : Nat} (hi : i < k) : ∃ a, n.property? (actualName i) = some a := by
  cases ha : n.property? (actualName i) with
  | none => exact absurd (hk.2 ha) (Nat.not_le.2 hi)
  | some a => exact ⟨a, rfl⟩

theorem Collected.length_le (h : n.Collected args) : args.length ≤ k := by
  by_contra hlt
  obtain ⟨a, ha, -⟩ := h k _ (List.getElem?_eq_getElem (Nat.not_le.1 hlt))
  cases hk.1.symm.trans ha

/-- While a property is found, its index is below that of the first missing one. -/
theorem Collected.length_lt {a : Node} (h : n.Collected args)
    (ha : n.property? (actualName args.length) = some a) : args.length < k := by
  refine Nat.lt_of_le_of_ne (h.length_le hk) ?_
  rintro rfl
  cases hk.1.symm.trans ha

/-- Each round takes the next of the properties before the first missing one. -/
theorem Collects.rounds_le (h : n.Collects args rounds answer) (hc : n.Collected args) :
    args.length + rounds ≤ k := by
  induction h with
  | finish => exact hc.length_le hk
  | refuse ha => exact hc.length_lt hk ha
  | take ha he _ ih =>
    have hrest := ih (hc.take ha he)
    rw [List.length_append, List.length_singleton] at hrest
    omega

theorem exists_collects (hc : n.Collected args) :
    ∃ rounds answer, n.Collects args rounds answer := by
  -- The induction is on the number of properties that are left before the first missing one.
  induction hleft : k - args.length generalizing args with
  | zero =>
    have hlength : args.length = k :=
      Nat.le_antisymm (hc.length_le hk) (Nat.sub_eq_zero_iff_le.1 hleft)
    exact ⟨0, .ok args, .finish (hlength ▸ hk.1)⟩
  | succ left ih =>
    obtain ⟨a, ha⟩ := exists_actual_of_lt hk (show args.length < k by omega)
    cases he : a.toExpr with
    | error d => exact ⟨1, .error d, .refuse ha he⟩
    | ok e =>
      have hleft' : k - (args ++ [e]).length = left := by
        rw [List.length_append, List.length_singleton]
        omega
      obtain ⟨rounds, answer, hr⟩ := ih (hc.take ha he) hleft'
      exact ⟨rounds + 1, answer, .take ha he hr⟩

/-- The loop looks at no property but those up to the first missing one. -/
theorem Collects.congr (h : n.Collects args rounds answer) (hc : n.Collected args)
    (hsame : ∀ i ≤ k, m.property? (actualName i) = n.property? (actualName i)) :
    m.Collects args rounds answer := by
  induction h with
  | finish ha => exact .finish ((hsame _ (hc.length_le hk)).trans ha)
  | refuse ha hd => exact .refuse ((hsame _ (hc.length_le hk)).trans ha) hd
  | take ha he _ ih => exact .take ((hsame _ (hc.length_le hk)).trans ha) he (ih (hc.take ha he))

/-- If every actual that the loop visits stands for an expression, the loop visits all of them. -/
theorem Collects.complete (h : n.Collects [] rounds answer)
    (hall : ∀ i < rounds, ∀ a, n.property? (actualName i) = some a → ∃ e, a.toExpr = .ok e) :
    rounds = k ∧ ∃ es, answer = .ok es ∧ es.length = k ∧ n.Collected es := by
  cases answer with
  | error d =>
    obtain ⟨i, hi, a, ha, hd⟩ := h.refused
    rw [List.length_nil] at hi
    obtain ⟨e, he⟩ := hall i (by omega) a ha
    cases hd.symm.trans he
  | ok es =>
    obtain ⟨hes, hmissing⟩ := h.collected collected_nil
    have hlength : es.length = k := Nat.le_antisymm (hes.length_le hk) (hk.2 hmissing)
    have hrounds := h.length_eq
    rw [List.length_nil] at hrounds
    exact ⟨by omega, es, rfl, hlength, hes⟩

end Loop

/-! ## What a call stands for -/

section Call

variable {n : Node} {args : List Expr} {rounds k : Nat} {answer : Except Defect (List Expr)}

theorem actualsFrom_of_missing {count : Nat} (h : n.property? (actualName k) = none) :
    n.actualsFrom count k = [] := by
  cases count with
  | zero => rfl
  | succ count => rw [actualsFrom, h]

theorem actualsFrom_of_actual {count : Nat} {a : Node} (h : n.property? (actualName k) = some a) :
    n.actualsFrom (count + 1) k = a :: n.actualsFrom count (k + 1) := by
  rw [actualsFrom, h]

/-- A bound that reaches the first missing property cuts nothing off. -/
theorem Collects.eq_mapM (h : n.Collects args rounds answer) (hc : n.Collected args)
    (hk : IsLeast {i | n.property? (actualName i) = none} k) {count : Nat}
    (hcount : k ≤ args.length + count) :
    ((n.actualsFrom count args.length).mapM toExpr).map (args ++ ·) = answer := by
  -- A round uses up one of `count`, and one of the properties before the first missing one.
  induction h generalizing count with
  | @finish args ha =>
    rw [actualsFrom_of_missing ha, List.mapM_nil]
    exact congrArg Except.ok (List.append_nil args)
  | refuse ha hd =>
    have hlt := hc.length_lt hk ha
    obtain ⟨count, rfl⟩ : ∃ c, count = c + 1 := ⟨count - 1, by omega⟩
    rw [actualsFrom_of_actual ha, List.mapM_cons, hd]
    rfl
  | @take args a e rounds answer ha he _ ih =>
    have hlt := hc.length_lt hk ha
    obtain ⟨count, rfl⟩ : ∃ c, count = c + 1 := ⟨count - 1, by omega⟩
    have hlength : (args ++ [e]).length = args.length + 1 := by simp
    have hrest := @ih (hc.take ha he) count (by omega)
    rw [actualsFrom_of_actual ha, List.mapM_cons, he, ← hrest, hlength]
    cases (n.actualsFrom count (args.length + 1)).mapM toExpr with
    | error d => rfl
    | ok rest => exact congrArg Except.ok (List.append_cons args e rest)

theorem toExpr_of_call (hl : n.label = "call") :
    n.toExpr = if n.description = "" then n.malformed .namelessCallee
      else (n.actuals.mapM toExpr).map (.call n.description · n.line) := by
  have hkind : n.kind? = some .call := kind?_eq_some.2 (by simp [hl, Label.texts])
  rw [toExpr, hkind]
  simp only
  rw [List.mapM_subtype (g := toExpr) fun _ _ => rfl, List.unattach_attach]
  rfl

/-- A call with a name stands for what the loop gives. -/
theorem Collects.toExpr_eq (h : n.Collects [] rounds answer) (hl : n.label = "call") :
    n.toExpr = if n.description = "" then n.malformed .namelessCallee
      else answer.map (.call n.description · n.line) := by
  obtain ⟨k, hle, hk⟩ := n.exists_least_missing
  have hanswer : (n.actuals.mapM toExpr).map ([] ++ ·) = answer :=
    h.eq_mapM collected_nil hk (by simpa using hle)
  have hmap : (n.actuals.mapM toExpr).map ([] ++ ·) = n.actuals.mapM toExpr :=
    congrFun Except.map_id _
  rw [toExpr_of_call hl, ← hanswer, hmap]

end Call

/-! ## Names -/

/-- The names that a call looks up if the first property it misses has the index `k`. -/
def lookedUp (k : Nat) : List String := (List.range (k + 1)).map actualName

theorem mem_lookedUp {name : String} {k : Nat} :
    name ∈ lookedUp k ↔ ∃ i ≤ k, actualName i = name := by
  simp only [lookedUp, List.mem_map, List.mem_range, Nat.lt_succ_iff]

theorem toList_actualName (k : Nat) :
    (actualName k).toList = "args".toList ++ Nat.toDigits 10 k := by
  rw [← Nat.toList_repr, ← String.toList_append]
  rfl

theorem actualName_mem_lookedUp {j k : Nat} : actualName j ∈ lookedUp k ↔ j ≤ k := by
  rw [mem_lookedUp]
  constructor
  · rintro ⟨i, hi, heq⟩
    exact actualName_injective heq ▸ hi
  · exact fun hj => ⟨j, hj, rfl⟩

theorem args_notMem_lookedUp (k : Nat) : "args" ∉ lookedUp k := by
  rw [mem_lookedUp]
  rintro ⟨i, -, h⟩
  have hdigits := toList_actualName i
  rw [h, List.self_eq_append_right] at hdigits
  exact Nat.toDigits_ne_nil hdigits

/-- No index is written with a zero before other characters. -/
theorem padded_notMem_lookedUp (k : Nat) {s : String} (hs : s ≠ "") :
    "args0" ++ s ∉ lookedUp k := by
  rw [mem_lookedUp]
  rintro ⟨i, -, h⟩
  have hdigits : Nat.toDigits 10 i = '0' :: s.toList := by
    have hlist := (toList_actualName i).symm.trans (congrArg String.toList h)
    rw [String.toList_append] at hlist
    exact List.append_cancel_left hlist
  rcases Nat.eq_zero_or_pos i with rfl | hpos
  · rw [Nat.toDigits_zero, List.cons.injEq] at hdigits
    exact hs (String.toList_inj.1 hdigits.2.symm)
  · exact Tree.head?_toDigits_ne_zero hpos (by rw [hdigits]; rfl)

/-! ## Main result -/

/-- The collection of the arguments of a call: `k` is the index of the first property that is
missing, and the loop gives `answer` after `rounds` rounds. -/
structure TakesPrefix (n : Node) (k rounds : Nat) (answer : Except Defect (List Expr)) : Prop where
  least : IsLeast {i | n.property? (actualName i) = none} k
  ends : ∀ r b, n.Collects [] r b ↔ r = rounds ∧ b = answer
  bounded : rounds ≤ k ∧ k ≤ n.properties.length
  stands : n.toExpr = if n.description = "" then n.malformed .namelessCallee
    else answer.map (.call n.description · n.line)
  /-- Unless an actual that is visited has a defect, all actuals before the first missing one are
  taken, and no other. -/
  complete : (∀ i < rounds, ∀ a, n.property? (actualName i) = some a → ∃ e, a.toExpr = .ok e) →
    rounds = k ∧ ∃ es, answer = .ok es ∧ es.length = k ∧ n.Collected es
  /-- All but the properties that are looked up can be anything. -/
  ignores : ∀ m : Node, m.label = n.label → m.description = n.description → m.line = n.line →
    (∀ name ∈ lookedUp k, m.property? name = n.property? name) →
      m.Collects [] rounds answer ∧ m.toExpr = n.toExpr

theorem Collects.takesPrefix {n : Node} {k rounds : Nat} {answer : Except Defect (List Expr)}
    (h : n.Collects [] rounds answer) (hl : n.label = "call")
    (hk : IsLeast {i | n.property? (actualName i) = none} k) (hle : k ≤ n.properties.length) :
    n.TakesPrefix k rounds answer where
  least := hk
  ends r b := by
    refine ⟨h.unique, ?_⟩
    rintro ⟨rfl, rfl⟩
    exact h
  bounded := ⟨by simpa using h.rounds_le hk collected_nil, hle⟩
  stands := h.toExpr_eq hl
  complete := h.complete hk
  ignores m hlabel hdescription hline hsame := by
    have hm : m.Collects [] rounds answer :=
      h.congr hk collected_nil fun i hi => hsame _ (actualName_mem_lookedUp.2 hi)
    refine ⟨hm, ?_⟩
    rw [hm.toExpr_eq (hlabel.trans hl), h.toExpr_eq hl, hdescription, hline]
    simp only [malformed, hline]

/-- The loop over the actuals of a call ends, after no more rounds than the node has properties, and
takes the actuals before the first missing one. The other properties do not matter: neither `args`
nor one whose index has a leading zero nor one beyond the first missing actual is looked up. -/
theorem call_takes_contiguous_actuals {n : Node} (hl : n.label = "call") :
    ∃ k rounds answer, n.TakesPrefix k rounds answer ∧
      "args" ∉ lookedUp k ∧ (∀ s ≠ "", "args0" ++ s ∉ lookedUp k) ∧
      ∀ j > k, actualName j ∉ lookedUp k := by
  obtain ⟨k, hle, hk⟩ := n.exists_least_missing
  obtain ⟨rounds, answer, hends⟩ := exists_collects hk collected_nil
  refine ⟨k, rounds, answer, hends.takesPrefix hl hk hle, args_notMem_lookedUp k,
    fun s hs => padded_notMem_lookedUp k hs, fun j hj hmem => ?_⟩
  exact Nat.not_le.2 hj (actualName_mem_lookedUp.1 hmem)

/-- A call of `add` with the actuals `1` and `x`, among properties that stand for no expression. -/
def sparseCall : Node where
  label := "call"
  description := "add"
  properties := [
    ("args", { label := "args" }),
    ("args0", { label := "literal", description := "1" }),
    ("args01", { label := "literal", description := "one" }),
    ("args1", { label := "primary", description := "x" }),
    ("args3", { label := "break" })]

theorem call_takes_contiguous_actuals_sparse :
    sparseCall.label = "call" ∧
      (∃ one, Literal "1" one ∧
        sparseCall.TakesPrefix 2 2 (.ok [.literal one 0, .identifier "x" 0]) ∧
        sparseCall.toExpr = .ok (.call "add" [.literal one 0, .identifier "x" 0] 0)) := by
  have h0 : sparseCall.property? (actualName 0) = some ⟨"literal", "1", [], [], 0⟩ := rfl
  have h1 : sparseCall.property? (actualName 1) = some ⟨"primary", "x", [], [], 0⟩ := rfl
  have h2 : sparseCall.property? (actualName 2) = none := rfl
  have hone : Literal "1" (.number (.ofDecimal ['1'] 0)) :=
    .whole ['1'] rfl (List.cons_ne_nil _ _) (List.forall_mem_singleton.2 rfl)
  have he0 := ((decides_toExpr ⟨"literal", "1", [], [], 0⟩).ok _).2 (.literal rfl hone)
  have he1 := ((decides_toExpr ⟨"primary", "x", [], [], 0⟩).ok _).2
    (.identifier rfl rfl ⟨by decide, Value.ofLiteral?_eq_none.1 (by decide)⟩)
  obtain ⟨k, rounds, answer, h, -⟩ := call_takes_contiguous_actuals (n := sparseCall) rfl
  obtain rfl : k = 2 := by
    have hle : k ≤ 2 := h.least.2 h2
    have hmissing : sparseCall.property? (actualName k) = none := h.least.1
    obtain rfl | rfl | rfl : k = 0 ∨ k = 1 ∨ k = 2 := by omega
    · cases h0.symm.trans hmissing
    · cases h1.symm.trans hmissing
    · rfl
  have hall : ∀ i < rounds, ∀ a, sparseCall.property? (actualName i) = some a →
      ∃ e, a.toExpr = .ok e := by
    intro i hi a ha
    have hrounds := h.bounded.1
    obtain rfl | rfl : i = 0 ∨ i = 1 := by omega
    · obtain rfl := Option.some.inj (h0.symm.trans ha)
      exact ⟨_, he0⟩
    · obtain rfl := Option.some.inj (h1.symm.trans ha)
      exact ⟨_, he1⟩
  obtain ⟨rfl, es, rfl, hlength, hes⟩ := h.complete hall
  obtain ⟨x, y, rfl⟩ := List.length_eq_two.1 hlength
  obtain ⟨a, ha, hx⟩ := hes 0 x rfl
  obtain rfl := Option.some.inj (h0.symm.trans ha)
  obtain rfl := Except.ok.inj (he0.symm.trans hx)
  obtain ⟨b, hb, hy⟩ := hes 1 y rfl
  obtain rfl := Option.some.inj (h1.symm.trans hb)
  obtain rfl := Except.ok.inj (he1.symm.trans hy)
  exact ⟨rfl, _, hone, h, h.stands⟩

end HeapWalk.Node
