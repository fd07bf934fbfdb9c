import Mathlib.Data.Option.Basic
import NovelScript.Proofs.Expression.Tree

/-!
# Folding three operands at a time

An expression is read from left to right with at most three operands in view. This file proves
that the grouping by tiers comes out right: after any prefix of an expression, what is in view has
the value of that prefix, and while a product is being read behind a sum or difference, the
second operand is the value of the product so far.
-/

namespace NovelScript

/-- The arithmetic of the engine is exact arithmetic cut to 32 bits. -/
theorem Operator.apply_toOption (op : Operator) (lhs rhs : Int32) :
    (op.apply lhs rhs).toOption = op.value? lhs rhs := by
  have hzero : rhs.toInt = 0 ↔ rhs = 0 := by
    rw [← Int32.toInt_inj]
    rfl
  cases op with
  | add => simp [apply, value?, unbounded?, Except.toOption]
  | sub => simp [apply, value?, unbounded?, Except.toOption]
  | mul => simp [apply, value?, unbounded?, Except.toOption]
  | div =>
    have hdiv : Int32.ofInt (lhs.toInt.tdiv rhs.toInt) = lhs / rhs := by
      rw [Int32.ofInt_eq_iff_bmod_eq_toInt, Int32.toInt_div]
    by_cases h : rhs = 0
    · simp [apply, value?, unbounded?, Except.toOption, h]
    · simp [apply, value?, unbounded?, Except.toOption, hzero, h, hdiv]
  | mod =>
    have hmod : Int32.ofInt (lhs.toInt.tmod rhs.toInt) = lhs % rhs := by
      rw [← Int32.toInt_mod, Int32.ofInt_toInt]
    by_cases h : rhs = 0
    · simp [apply, value?, unbounded?, Except.toOption, h]
    · simp [apply, value?, unbounded?, Except.toOption, hzero, h, hmod]

namespace Expression

/-! ## Expressions as chains -/

/-- An operator and the factor after it. -/
abbrev Link := Operator × Factor

/-- The factors of a product after the first, each with the operator in front of it. -/
def Product.links : Product → List Link
  | .single _ => []
  | .join lhs op rhs => lhs.links ++ [(op.val, rhs)]

/-- The first factor of a sum. -/
def Sum.first : Sum → Factor
  | .single product => product.first
  | .join lhs _ _ => lhs.first

/-- The factors of a sum after the first, each with the operator in front of it. -/
def Sum.links : Sum → List Link
  | .single product => product.links
  | .join lhs op rhs => lhs.links ++ (op.val, rhs.first) :: rhs.links

/-! ## What is in view -/

/-- What is in view while an expression is read: its first term, or two operands and the operator
between them. -/
inductive View where
  /-- The first term. -/
  | one (value : Int32)
  /-- Two operands that are still to be combined. -/
  | two (lhs : Int32) (op : Operator) (rhs : Int32)

namespace View

/-- The value of what was read so far, if nothing follows. -/
def value? : View → Option Int32
  | one value => some value
  | two lhs op rhs => op.value? lhs rhs

/-- Takes one more operand into view: the right pair is folded if its operator binds tighter, and
the left pair otherwise. -/
def push? (next : Operator) (third : Int32) : View → Option View
  | one value => some (two value next third)
  | two lhs op rhs =>
    if !op.isTight && next.isTight then (next.value? rhs third).map (two lhs op)
    else (op.value? lhs rhs).map (two · next third)

/-- Takes the links of a chain into view, one after another. -/
def run? (store : Store) (aliases : Aliases) : View → List Link → Option View
  | view, [] => some view
  | view, (op, factor) :: links => do
    let value ← factor.value? store aliases
    let view ← view.push? op value
    run? store aliases view links

/-- Whether the first operator in view, if there is one, is an operator of products. -/
def isTight : View → Bool
  | one _ => true
  | two _ op _ => op.isTight

end View

variable {store : Store} {aliases : Aliases}

/-- A chain is taken into view part by part. -/
theorem View.run?_append (view : View) (front rest : List Link) :
    view.run? store aliases (front ++ rest) =
      (view.run? store aliases front).bind fun view => view.run? store aliases rest := by
  induction front generalizing view with
  | nil => rfl
  | cons link front ih =>
    obtain ⟨op, factor⟩ := link
    simp only [List.cons_append, View.run?, ih, Option.bind_eq_bind, Option.bind_assoc]

/-- An operator of sums folds whatever is in view. -/
theorem View.push?_loose {op : Operator} (hop : op.isTight = false) (view : View)
    (third : Int32) : view.push? op third = view.value?.map (View.two · op third) := by
  cases view with
  | one value => rfl
  | two lhs first rhs => simp [View.push?, View.value?, hop]

/-- Behind a product, every operator has the value of the product for its left operand. -/
theorem View.push?_of_isTight {view : View} (hview : view.isTight = true) (op : Operator)
    (third : Int32) :
    (view.push? op third).bind View.value? = view.value?.bind (op.value? · third) := by
  cases view with
  | one value => rfl
  | two lhs first rhs =>
    have hfirst : first.isTight = true := hview
    simp [View.push?, hfirst, Option.bind_map, Function.comp_def, View.value?]

/-- After an operator of products, what is in view still is a product. -/
theorem View.isTight_push? {op : Operator} (hop : op.isTight = true) {view view' : View}
    (hview : view.isTight = true) {third : Int32} (h : view.push? op third = some view') :
    view'.isTight = true := by
  cases view with
  | one value =>
    obtain rfl : View.two value op third = view' := Option.some.inj h
    exact hop
  | two lhs first rhs =>
    have hfirst : first.isTight = true := hview
    have hmap : (first.value? lhs rhs).map (View.two · op third) = some view' := by
      simpa [View.push?, hfirst] using h
    obtain ⟨value, -, rfl⟩ := Option.map_eq_some_iff.mp hmap
    exact hop

/-! ## The tiers -/

/-- Behind a sum or difference, reading the links of a product turns its first factor into its
value. -/
theorem Product.run?_links {op : Operator} (hop : op.isTight = false) (lhs : Int32)
    (product : Product) :
    (product.first.value? store aliases).bind
        (fun value => (View.two lhs op value).run? store aliases product.links) =
      (product.value? store aliases false).map (View.two lhs op) := by
  match product with
  | .single factor =>
    simp [Product.first, Product.links, Product.value?, View.run?, Option.map_eq_bind]
  | .join front next rhs =>
    have ih := Product.run?_links hop lhs front
    have hnext : next.val.isTight = true := next.property
    simp only [Product.first, Product.links, View.run?_append, Product.value?,
      Option.bind_eq_bind]
    rw [← Option.bind_assoc, ih]
    simp [View.run?, View.push?, hop, hnext, Option.map_eq_bind, Option.bind_assoc]

/-- What is in view after a product at the front of an expression. -/
def Product.view? (store : Store) (aliases : Aliases) (negative : Bool) (product : Product) :
    Option View :=
  (product.first.value? store aliases).bind fun value =>
    (View.one (if negative then -value else value)).run? store aliases product.links

/-- What is in view after a sum at the front of an expression. -/
def Sum.view? (store : Store) (aliases : Aliases) (negative : Bool) (sum : Sum) : Option View :=
  (sum.first.value? store aliases).bind fun value =>
    (View.one (if negative then -value else value)).run? store aliases sum.links

/-- A further factor of a product at the front is taken into what is in view. -/
theorem Product.view?_join (negative : Bool) (lhs : Product) (op : TightOperator)
    (rhs : Factor) :
    (Product.join lhs op rhs).view? store aliases negative =
      (lhs.view? store aliases negative).bind fun view =>
        (rhs.value? store aliases).bind (view.push? op ·) := by
  simp [Product.view?, Product.first, Product.links, View.run?_append, View.run?,
    Option.bind_assoc]

/-- At the front of an expression, what is in view after a product has its value, and only
operators of products. -/
theorem Product.value?_of_view? (negative : Bool) (product : Product) :
    (product.view? store aliases negative).bind View.value? =
        product.value? store aliases negative ∧
      ∀ view ∈ product.view? store aliases negative, view.isTight = true := by
  match product with
  | .single factor =>
    constructor
    · simp [Product.view?, Product.first, Product.links, Product.value?, View.run?, View.value?,
        Option.bind_assoc]
    · intro view hview
      obtain ⟨value, -, hview⟩ := Option.bind_eq_some_iff.mp hview
      obtain rfl : View.one _ = view := Option.some.inj hview
      rfl
  | .join lhs op rhs =>
    obtain ⟨hvalue, htight⟩ := Product.value?_of_view? negative lhs
    rw [Product.view?_join, Product.value?, ← hvalue]
    cases hview : lhs.view? store aliases negative with
    | none => simp
    | some view =>
      have hv : view.isTight = true := htight view hview
      constructor
      · simp only [Option.bind_some, Option.bind_assoc, View.push?_of_isTight hv,
          Option.bind_eq_bind]
        rw [Option.bind_comm]
      · intro view' hview'
        obtain ⟨value, -, hpush⟩ := Option.bind_eq_some_iff.mp
          (show (rhs.value? store aliases).bind (view.push? op.val ·) = some view' from hview')
        exact View.isTight_push? op.property hv hpush

/-- A further product of a sum is folded with everything before it. -/
theorem Sum.view?_join (negative : Bool) (lhs : Sum) (op : LooseOperator) (rhs : Product) :
    (Sum.join lhs op rhs).view? store aliases negative =
      ((lhs.view? store aliases negative).bind View.value?).bind fun value =>
        (rhs.value? store aliases false).map (View.two value op) := by
  simp only [← Product.run?_links op.property, Sum.view?, Sum.first, Sum.links, View.run?_append,
    View.run?, View.push?_loose op.property, Option.bind_eq_bind, Option.bind_assoc,
    Option.bind_map, Function.comp_def]
  congr 1
  funext first
  congr 1
  funext view
  exact Option.bind_comm _ _

/-- What is in view after a sum has the value of the sum. -/
theorem Sum.value?_of_view? (negative : Bool) (sum : Sum) :
    (sum.view? store aliases negative).bind View.value? = sum.value? store aliases negative := by
  match sum with
  | .single product => exact (Product.value?_of_view? negative product).1
  | .join lhs op rhs =>
    rw [Sum.view?_join, Sum.value?_of_view? negative lhs, Sum.value?]
    simp [Option.map_eq_bind, Option.bind_assoc, View.value?]

end Expression

end NovelScript
