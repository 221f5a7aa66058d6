import FrontEnd.Proofs.Operators.Soundness

/-!
# Printing with few parentheses

An `Expr` is an expression without groups, and `Expr.print` writes it down with parentheses only
where its operators would be read otherwise.  The main result is that precedence climbing reads
back what was printed.

The tables here are regular: all operators of one precedence lean to one side, every operator
binds tighter than the end of the input and than a closing parenthesis, and no prefix operator
lets go of its operand at less than that.

## Strategy

`Tree.Guarded` says of a tree with groups that no operand is loose in its place.  Two facts about
a guarded tree carry the proof: every operator along its left edge binds at least as tightly as its
root (`precedence_root_le`), and every bound that is open at its right end is at least the bound
of its root's level (`levelBound_root_le`).  With them a guarded tree is proper, and so it is
settled in front of the end of the input.  The printed tree is guarded by its construction.
-/

namespace FrontEnd.Operators

open FrontEnd.Parse (Precedence Parser)

/-- The side to which the operators of one precedence lean. -/
inductive Side
  | left
  | right
deriving DecidableEq

/-- How a chain of operators that lean to a side is read. -/
def Side.associativity : Side → Associativity
  | left => .left
  | right => .right

/-- A table in which all operators of one precedence lean to the side that `level` gives. -/
structure Table.Regular (table : Table) (level : Precedence → Side) : Prop where
  leans : ∀ kind associativity, table.continuation kind = some (.binary associativity) →
    associativity = (level (table.precedence kind)).associativity
  operator_pos : ∀ kind continuation, table.continuation kind = some continuation →
    1 ≤ table.precedence kind
  prefixBound_nonneg : ∀ kind bound, table.opening kind = some (.operator bound) → 0 ≤ bound
  precedence_end : table.precedence .endOfInput = 0

/-- A pair of parentheses. -/
structure Brackets (table : Table) where
  opening : Token
  closing : Token
  pair : table.opening opening.kind = some (.group closing.kind)
  precedence_closing : table.precedence closing.kind = 0

/-! ## Loose operands -/

namespace Tree

variable (table : Table) (level : Precedence → Side)

/-- Whether a tree would not stay together as the left operand of an operator of the given
precedence. -/
def looseOnLeft (precedence : Precedence) : Tree → Bool
  | prefixed _ _ => true
  | suffixed _ operator | binary _ operator _ =>
    match level precedence with
    | .left => decide (table.precedence operator.kind < precedence)
    | .right => decide (table.precedence operator.kind ≤ precedence)
  | _ => false

/-- Whether a tree would not stay together as the right operand of an operator of the given
precedence. -/
def looseOnRight (precedence : Precedence) : Tree → Bool
  | prefixed _ _ => true
  | suffixed _ operator | binary _ operator _ =>
    match level precedence with
    | .left => decide (table.precedence operator.kind ≤ precedence)
    | .right => decide (table.precedence operator.kind < precedence)
  | _ => false

/-- Whether a tree would not stay together as the operand of a prefix operator with the given
bound. -/
def looseUnder (bound : Precedence) : Tree → Bool
  | suffixed _ operator | binary _ operator _ => decide (table.precedence operator.kind ≤ bound)
  | _ => false

/-- Every token does what the table says, and no operand is loose in its place. -/
def Guarded : Tree → Prop
  | atom token => table.opening token.kind = some .atom
  | prefixed operator operand =>
    ∃ bound, table.opening operator.kind = some (.operator bound) ∧
      operand.looseUnder table bound = false ∧ operand.Guarded
  | suffixed operand operator =>
    table.continuation operator.kind = some .suffix ∧
      operand.looseOnLeft table level (table.precedence operator.kind) = false ∧ operand.Guarded
  | binary left operator right =>
    ∃ associativity, table.continuation operator.kind = some (.binary associativity) ∧
      left.looseOnLeft table level (table.precedence operator.kind) = false ∧ left.Guarded ∧
      right.looseOnRight table level (table.precedence operator.kind) = false ∧ right.Guarded
  | group opening body closing =>
    table.opening opening.kind = some (.group closing.kind) ∧
      table.precedence closing.kind = 0 ∧ body.Guarded

end Tree

/-! ## Printing -/

/-- An expression without groups. -/
inductive Expr
  | atom (token : Token)
  | prefixed (operator : Token) (operand : Expr)
  | suffixed (operand : Expr) (operator : Token)
  | binary (left : Expr) (operator : Token) (right : Expr)
deriving DecidableEq

/-- Puts a tree in parentheses if it has to be. -/
def Brackets.around {table : Table} (brackets : Brackets table) (loose : Bool) (tree : Tree) : Tree :=
  if loose then .group brackets.opening tree brackets.closing else tree

namespace Expr

/-- Builds the expression and forgets the groups. -/
def builder : Builder Expr :=
  ⟨.atom, .prefixed, .suffixed, .binary, fun _ body _ => body⟩

/-- Every token of an expression does what the table says. -/
def Fits (table : Table) : Expr → Prop
  | atom token => table.opening token.kind = some .atom
  | prefixed operator operand =>
    (∃ bound, table.opening operator.kind = some (.operator bound)) ∧ operand.Fits table
  | suffixed operand operator =>
    table.continuation operator.kind = some .suffix ∧ operand.Fits table
  | binary left operator right =>
    (∃ associativity, table.continuation operator.kind = some (.binary associativity)) ∧
      left.Fits table ∧ right.Fits table

variable {table : Table} (level : Precedence → Side) (brackets : Brackets table)

/-- The expression with parentheses around the operands that would be loose without. -/
def parenthesize : Expr → Tree
  | atom token => .atom token
  | prefixed operator operand =>
    let operand := operand.parenthesize
    .prefixed operator
      (brackets.around (operand.looseUnder table (table.prefixBound operator.kind)) operand)
  | suffixed operand operator =>
    let operand := operand.parenthesize
    .suffixed
      (brackets.around (operand.looseOnLeft table level (table.precedence operator.kind)) operand)
      operator
  | binary left operator right =>
    let left := left.parenthesize
    let right := right.parenthesize
    .binary
      (brackets.around (left.looseOnLeft table level (table.precedence operator.kind)) left)
      operator
      (brackets.around (right.looseOnRight table level (table.precedence operator.kind)) right)

/-- The tokens of an expression, with parentheses where they are needed. -/
def print (expr : Expr) : List Token :=
  (expr.parenthesize level brackets).yield

end Expr

/-! ## The bound of a level -/

section Guarded

variable {table : Table} {level : Precedence → Side}

/-- The bound for the right operand of an operator of the given precedence. -/
def levelBound (level : Precedence → Side) (precedence : Precedence) : Precedence :=
  (level precedence).associativity.operandBound precedence

private theorem toInt_one : (1 : Precedence).toInt = 1 := by decide

private theorem toInt_levelBound (level : Precedence → Side) {precedence : Precedence}
    (hpos : 1 ≤ precedence) :
    (level precedence = .left ∧ (levelBound level precedence).toInt = precedence.toInt) ∨
      (level precedence = .right ∧ (levelBound level precedence).toInt = precedence.toInt - 1) := by
  have hlt := Int32.toInt_lt precedence
  rw [Int32.le_iff_toInt_le, toInt_one] at hpos
  cases hlevel : level precedence with
  | left =>
      left
      simp [levelBound, hlevel, Side.associativity, Associativity.operandBound]
  | right =>
      right
      simp only [levelBound, hlevel, Side.associativity, Associativity.operandBound,
        Parse.Precedence.toInt_offset, true_and]
      omega

private theorem zero_le_levelBound {precedence : Precedence} (hpos : 1 ≤ precedence) :
    0 ≤ levelBound level precedence := by
  have hcases := toInt_levelBound level hpos
  have hzero : (0 : Precedence).toInt = 0 := by decide
  rw [Int32.le_iff_toInt_le, toInt_one] at hpos
  rw [Int32.le_iff_toInt_le, hzero]
  rcases hcases with ⟨-, heq⟩ | ⟨-, heq⟩ <;> omega

private theorem levelBound_le_of_lt {precedence tighter : Precedence} (hpos : 1 ≤ tighter)
    (hlt : levelBound level precedence < tighter) :
    levelBound level precedence ≤ levelBound level tighter := by
  rw [Int32.lt_iff_toInt_lt] at hlt
  rw [Int32.le_iff_toInt_le]
  rcases toInt_levelBound level hpos with ⟨-, heq⟩ | ⟨-, heq⟩ <;> omega

/-! ## Operands that are not loose -/

namespace Tree

/-- A left operand that is not loose keeps its root: the operator does not exceed the bound of the
root's level. -/
private theorem le_levelBound_of_not_loose {tree : Tree} {precedence : Precedence} {root : Token}
    (hloose : tree.looseOnLeft table level precedence = false) (hroot : tree.root? = some root)
    (hpos : 1 ≤ table.precedence root.kind) :
    precedence ≤ levelBound level (table.precedence root.kind) := by
  have hcompare : (level precedence = .left ∧ precedence ≤ table.precedence root.kind) ∨
      (level precedence = .right ∧ precedence < table.precedence root.kind) := by
    cases tree with
    | suffixed operand operator =>
        cases hroot
        cases hlevel : level precedence <;> simp_all [looseOnLeft]
    | binary left operator right =>
        cases hroot
        cases hlevel : level precedence <;> simp_all [looseOnLeft]
    | _ => simp [root?] at hroot
  rw [Int32.le_iff_toInt_le]
  rw [Int32.le_iff_toInt_le, Int32.lt_iff_toInt_lt] at hcompare
  rcases toInt_levelBound level hpos with ⟨hlevel, heq⟩ | ⟨hlevel, heq⟩
  · omega
  -- On a level that leans right the root has to bind tighter, so one less is still enough.
  · have hne : precedence.toInt ≠ (table.precedence root.kind).toInt ∨
        level precedence = .right := by
      by_cases hsame : precedence = table.precedence root.kind
      · right
        rw [hsame, hlevel]
      · left
        exact fun hint => hsame (Int32.toInt.inj hint)
    rcases hcompare with ⟨hleft, hle⟩ | ⟨-, hlt⟩
    · rcases hne with hne | hright
      · omega
      · simp [hleft] at hright
    · omega

private theorem levelBound_lt_of_not_loose {tree : Tree} {precedence : Precedence} {root : Token}
    (hloose : tree.looseOnRight table level precedence = false) (hroot : tree.root? = some root)
    (hpos : 1 ≤ precedence) :
    levelBound level precedence < table.precedence root.kind := by
  have hcompare : (level precedence = .left ∧ precedence < table.precedence root.kind) ∨
      (level precedence = .right ∧ precedence ≤ table.precedence root.kind) := by
    cases tree with
    | suffixed operand operator =>
        cases hroot
        cases hlevel : level precedence <;> simp_all [looseOnRight]
    | binary left operator right =>
        cases hroot
        cases hlevel : level precedence <;> simp_all [looseOnRight]
    | _ => simp [root?] at hroot
  rw [Int32.lt_iff_toInt_lt]
  rw [Int32.le_iff_toInt_le, Int32.lt_iff_toInt_lt] at hcompare
  rcases toInt_levelBound level hpos with ⟨hlevel, heq⟩ | ⟨hlevel, heq⟩
  · rw [hlevel] at hcompare
    simp at hcompare
    omega
  · rw [hlevel] at hcompare
    simp at hcompare
    omega

/-! ## The edges of a guarded tree -/

private theorem root_of_mem_leftOperators {tree : Tree} {operator : Token}
    (hoperator : operator ∈ tree.leftOperators) : ∃ root, tree.root? = some root := by
  cases tree with
  | suffixed operand root => exact ⟨root, rfl⟩
  | binary left root right => exact ⟨root, rfl⟩
  | _ => simp [leftOperators] at hoperator

private theorem root_of_mem_openBounds {tree : Tree} {bound : Precedence}
    (hprefixed : ∀ operator operand, tree ≠ .prefixed operator operand)
    (hbound : bound ∈ tree.openBounds table) : ∃ root, tree.root? = some root := by
  cases tree with
  | prefixed operator operand => exact absurd rfl (hprefixed operator operand)
  | binary left root right => exact ⟨root, rfl⟩
  | _ => simp [openBounds] at hbound

private theorem ne_prefixed_of_not_looseOnLeft {tree : Tree} {precedence : Precedence}
    (hloose : tree.looseOnLeft table level precedence = false) (operator : Token) (operand : Tree) :
    tree ≠ .prefixed operator operand := by
  rintro rfl
  simp [looseOnLeft] at hloose

private theorem ne_prefixed_of_not_looseOnRight {tree : Tree} {precedence : Precedence}
    (hloose : tree.looseOnRight table level precedence = false) (operator : Token) (operand : Tree) :
    tree ≠ .prefixed operator operand := by
  rintro rfl
  simp [looseOnRight] at hloose

private theorem one_le_root (regular : table.Regular level) {tree : Tree} {root : Token}
    (hguarded : tree.Guarded table level) (hroot : tree.root? = some root) :
    1 ≤ table.precedence root.kind := by
  cases tree with
  | suffixed operand operator =>
      cases hroot
      exact regular.operator_pos _ _ hguarded.1
  | binary left operator right =>
      cases hroot
      obtain ⟨associativity, hcontinuation, -⟩ := hguarded
      exact regular.operator_pos _ _ hcontinuation
  | _ => simp [root?] at hroot

/-- The operators along the left edge of a left operand bind at least as tightly as the operator
behind it, if those along the operand's own left edge bind as tightly as its root. -/
private theorem le_of_not_looseOnLeft (regular : table.Regular level) {operand : Tree}
    {precedence : Precedence} (hguarded : operand.Guarded table level)
    (hloose : operand.looseOnLeft table level precedence = false)
    (hedge : ∀ root, operand.root? = some root → ∀ operator ∈ operand.leftOperators,
      table.precedence root.kind ≤ table.precedence operator.kind)
    {operator : Token} (hoperator : operator ∈ operand.leftOperators) :
    precedence ≤ table.precedence operator.kind := by
  obtain ⟨root, hroot⟩ := root_of_mem_leftOperators hoperator
  have hpos := one_le_root regular hguarded hroot
  calc precedence
      ≤ levelBound level (table.precedence root.kind) :=
        le_levelBound_of_not_loose hloose hroot hpos
    _ ≤ table.precedence root.kind := Associativity.operandBound_le _ _
    _ ≤ table.precedence operator.kind := hedge root hroot operator hoperator

/-- Every operator along the left edge of a guarded tree binds at least as tightly as its root. -/
theorem precedence_root_le (regular : table.Regular level) {tree : Tree}
    (hguarded : tree.Guarded table level) {root : Token} (hroot : tree.root? = some root) :
    ∀ operator ∈ tree.leftOperators,
      table.precedence root.kind ≤ table.precedence operator.kind := by
  induction tree generalizing root with
  | suffixed operand own ih =>
      cases hroot
      obtain ⟨-, hloose, hoperand⟩ := hguarded
      intro operator hoperator
      rcases List.mem_cons.mp hoperator with rfl | hoperator
      · exact Int32.le_refl _
      · exact le_of_not_looseOnLeft regular hoperand hloose (fun _ => ih hoperand) hoperator
  | binary left own right ihLeft ihRight =>
      cases hroot
      obtain ⟨-, -, hloose, hleft, -⟩ := hguarded
      intro operator hoperator
      rcases List.mem_cons.mp hoperator with rfl | hoperator
      · exact Int32.le_refl _
      · exact le_of_not_looseOnLeft regular hleft hloose (fun _ => ihLeft hleft) hoperator
  | _ => simp [root?] at hroot

/-- Every bound that is open at the right end of a guarded tree is at least the bound of its root's
level. -/
theorem levelBound_root_le (regular : table.Regular level) {tree : Tree}
    (hguarded : tree.Guarded table level) {root : Token} (hroot : tree.root? = some root) :
    ∀ bound ∈ tree.openBounds table, levelBound level (table.precedence root.kind) ≤ bound := by
  induction tree generalizing root with
  | suffixed operand own ih => simp [openBounds]
  | binary left own right ihLeft ihRight =>
      cases hroot
      obtain ⟨associativity, hcontinuation, -, -, hloose, hright⟩ := hguarded
      intro bound hbound
      rcases List.mem_cons.mp hbound with rfl | hbound
      · rw [Table.rightBound_eq hcontinuation, regular.leans _ _ hcontinuation]
        exact Int32.le_refl _
      -- An open bound of the right operand is at least that of the operand's root, which binds
      -- tighter than this operator.
      · obtain ⟨inner, hinner⟩ :=
          root_of_mem_openBounds (ne_prefixed_of_not_looseOnRight hloose) hbound
        have hlt := levelBound_lt_of_not_loose hloose hinner
          (regular.operator_pos _ _ hcontinuation)
        exact Int32.le_trans (levelBound_le_of_lt (one_le_root regular hright hinner) hlt)
          (ihRight hright hinner bound hbound)
  | _ => simp [root?] at hroot

private theorem zero_le_openBounds (regular : table.Regular level) {tree : Tree}
    (hguarded : tree.Guarded table level) : ∀ bound ∈ tree.openBounds table, 0 ≤ bound := by
  induction tree with
  | prefixed operator operand ih =>
      obtain ⟨own, hopening, -, hoperand⟩ := hguarded
      intro bound hbound
      rcases List.mem_cons.mp hbound with rfl | hbound
      · rw [Table.prefixBound_eq hopening]
        exact regular.prefixBound_nonneg _ _ hopening
      · exact ih hoperand bound hbound
  | binary left operator right ihLeft ihRight =>
      obtain ⟨associativity, hcontinuation, -, -, -, hright⟩ := hguarded
      intro bound hbound
      rcases List.mem_cons.mp hbound with rfl | hbound
      · rw [Table.rightBound_eq hcontinuation, regular.leans _ _ hcontinuation]
        exact zero_le_levelBound (regular.operator_pos _ _ hcontinuation)
      · exact ihRight hright bound hbound
  | _ => simp [openBounds]

private theorem bindsAbove_zero (regular : table.Regular level) {tree : Tree}
    (hguarded : tree.Guarded table level) : tree.BindsAbove table 0 := by
  intro operator hoperator
  obtain ⟨root, hroot⟩ := root_of_mem_leftOperators hoperator
  have hpos := one_le_root regular hguarded hroot
  have hedge := precedence_root_le regular hguarded hroot operator hoperator
  exact Int32.lt_of_lt_of_le (by decide) (Int32.le_trans hpos hedge)

/-! ## Guarded trees are settled -/

private theorem admits_of_not_loose (regular : table.Regular level) {tree : Tree} {kind : Kind}
    (hguarded : tree.Guarded table level)
    (hloose : tree.looseOnLeft table level (table.precedence kind) = false) :
    tree.Admits table kind := by
  intro bound hbound
  obtain ⟨root, hroot⟩ := root_of_mem_openBounds (ne_prefixed_of_not_looseOnLeft hloose) hbound
  exact Int32.le_trans
    (le_levelBound_of_not_loose hloose hroot (one_le_root regular hguarded hroot))
    (levelBound_root_le regular hguarded hroot bound hbound)

private theorem bindsAbove_of_not_looseOnRight (regular : table.Regular level) {tree : Tree}
    {precedence : Precedence} (hguarded : tree.Guarded table level)
    (hloose : tree.looseOnRight table level precedence = false) (hpos : 1 ≤ precedence) :
    tree.BindsAbove table (levelBound level precedence) := by
  intro operator hoperator
  obtain ⟨root, hroot⟩ := root_of_mem_leftOperators hoperator
  exact Int32.lt_of_lt_of_le (levelBound_lt_of_not_loose hloose hroot hpos)
    (precedence_root_le regular hguarded hroot operator hoperator)

private theorem bindsAbove_of_not_looseUnder (regular : table.Regular level) {tree : Tree}
    {bound : Precedence} (hguarded : tree.Guarded table level)
    (hloose : tree.looseUnder table bound = false) : tree.BindsAbove table bound := by
  intro operator hoperator
  obtain ⟨root, hroot⟩ := root_of_mem_leftOperators hoperator
  have hlt : bound < table.precedence root.kind := by
    cases tree with
    | suffixed operand own => cases hroot; simpa [looseUnder] using hloose
    | binary left own right => cases hroot; simpa [looseUnder] using hloose
    | _ => simp [root?] at hroot
  exact Int32.lt_of_lt_of_le hlt (precedence_root_le regular hguarded hroot operator hoperator)

theorem proper_of_guarded (regular : table.Regular level) {tree : Tree}
    (hguarded : tree.Guarded table level) : tree.Proper table := by
  induction tree with
  | atom token => exact hguarded
  | prefixed operator operand ih =>
      obtain ⟨bound, hopening, hloose, hoperand⟩ := hguarded
      exact ⟨bound, hopening, bindsAbove_of_not_looseUnder regular hoperand hloose, ih hoperand⟩
  | suffixed operand operator ih =>
      obtain ⟨hcontinuation, hloose, hoperand⟩ := hguarded
      exact ⟨hcontinuation, admits_of_not_loose regular hoperand hloose, ih hoperand⟩
  | binary left operator right ihLeft ihRight =>
      obtain ⟨associativity, hcontinuation, hleftLoose, hleft, hrightLoose, hright⟩ := hguarded
      refine ⟨associativity, hcontinuation, admits_of_not_loose regular hleft hleftLoose,
        ihLeft hleft, ?_, ihRight hright⟩
      rw [regular.leans _ _ hcontinuation]
      exact bindsAbove_of_not_looseOnRight regular hright hrightLoose
        (regular.operator_pos _ _ hcontinuation)
  | group opening body closing ih =>
      obtain ⟨hopening, hclosing, hbody⟩ := hguarded
      refine ⟨hopening, bindsAbove_zero regular hbody, ?_, ?_, ih hbody⟩
      · rw [hclosing]
        exact Int32.le_refl 0
      · intro bound hbound
        rw [hclosing]
        exact zero_le_openBounds regular hbody bound hbound

/-- A guarded tree is what precedence climbing at zero reads in front of the end of the input. -/
theorem settled_of_guarded (regular : table.Regular level) {tree : Tree}
    (hguarded : tree.Guarded table level) : tree.Settled table 0 .endOfInput where
  proper := proper_of_guarded regular hguarded
  bindsAbove := bindsAbove_zero regular hguarded
  stops := by
    rw [regular.precedence_end]
    exact Int32.le_refl 0
  admits := by
    intro bound hbound
    rw [regular.precedence_end]
    exact zero_le_openBounds regular hguarded bound hbound

end Tree

end Guarded

theorem Table.Regular.chainable {table : Table} {level : Precedence → Side}
    (regular : table.Regular level) : table.Chainable := by
  intro kind hcontinuation
  have hleans := regular.leans kind .none hcontinuation
  cases hlevel : level (table.precedence kind) <;> simp [hlevel, Side.associativity] at hleans

/-! ## The printed tree -/

section Printed

variable {table : Table} {level : Precedence → Side} {brackets : Brackets table}

private theorem guarded_around {loose : Bool} {tree : Tree} (hguarded : tree.Guarded table level) :
    (brackets.around loose tree).Guarded table level := by
  cases loose with
  | false => exact hguarded
  | true => exact ⟨brackets.pair, brackets.precedence_closing, hguarded⟩

private theorem build_around (loose : Bool) (tree : Tree) :
    Expr.builder.build (brackets.around loose tree) = Expr.builder.build tree := by
  cases loose <;> rfl

/-- An operand in parentheses is not loose, whatever was to be avoided. -/
private theorem around_not_loose (test : Tree → Bool) (tree : Tree)
    (hgroup : ∀ opening body closing, test (.group opening body closing) = false) :
    test (brackets.around (test tree) tree) = false := by
  cases htest : test tree with
  | false => exact htest
  | true => exact hgroup _ _ _

theorem Expr.guarded_parenthesize (brackets : Brackets table) {expr : Expr}
    (hfits : expr.Fits table) :
    (expr.parenthesize level brackets).Guarded table level := by
  induction expr with
  | atom token => exact hfits
  | prefixed operator operand ih =>
      obtain ⟨⟨bound, hopening⟩, hoperand⟩ := hfits
      refine ⟨bound, hopening, ?_, guarded_around (ih hoperand)⟩
      rw [Table.prefixBound_eq hopening]
      exact around_not_loose (Tree.looseUnder table bound) _ fun _ _ _ => rfl
  | suffixed operand operator ih =>
      obtain ⟨hcontinuation, hoperand⟩ := hfits
      exact ⟨hcontinuation, around_not_loose (Tree.looseOnLeft table level _) _ fun _ _ _ => rfl,
        guarded_around (ih hoperand)⟩
  | binary left operator right ihLeft ihRight =>
      obtain ⟨⟨associativity, hcontinuation⟩, hleft, hright⟩ := hfits
      exact ⟨associativity, hcontinuation,
        around_not_loose (Tree.looseOnLeft table level _) _ fun _ _ _ => rfl,
        guarded_around (ihLeft hleft),
        around_not_loose (Tree.looseOnRight table level _) _ fun _ _ _ => rfl,
        guarded_around (ihRight hright)⟩

theorem Expr.build_parenthesize (expr : Expr) :
    Expr.builder.build (expr.parenthesize level brackets) = expr := by
  induction expr with
  | atom token => rfl
  | prefixed operator operand ih =>
      simp only [parenthesize, Builder.build, build_around, ih]
      rfl
  | suffixed operand operator ih =>
      simp only [parenthesize, Builder.build, build_around, ih]
      rfl
  | binary left operator right ihLeft ihRight =>
      simp only [parenthesize, Builder.build, build_around, ihLeft, ihRight]
      rfl

end Printed

/-! ## Parsing what was printed -/

/-- **Precedence climbing inverts printing.**  Over every stream that has the printed tokens of an
expression and then ends, the engine parses the expression: it consumes exactly these tokens and
pushes the expression itself on any stack. -/
theorem expression_print {τ : Type} [TokenStream τ] {table : Table} {level : Precedence → Side}
    (regular : table.Regular level) (brackets : Brackets table) {expr : Expr}
    (hfits : expr.Fits table) {parser : Parser τ (List Expr)} {after : Parser τ Unit}
    (hprinted : parser.input.Consumes (expr.print level brackets) after)
    (hend : after.lookahead.kind = .endOfInput) :
    ∃ cost, ∀ fuel, cost ≤ fuel →
      parser.expression (table.grammar Expr.builder) fuel 0 =
        .ok (.ok (), after.withState (expr :: parser.state)) := by
  have hsettled := Tree.settled_of_guarded regular
    (Expr.guarded_parenthesize brackets hfits)
  rw [← hend] at hsettled
  have hclimbs := (climbs_iff regular.chainable).mpr ⟨hprinted, hsettled⟩
  have hparse := expression_of_climbs Expr.builder hclimbs parser.state
  rw [Expr.build_parenthesize] at hparse
  exact hparse

namespace Arithmetic

/-- Powers lean right, and all else leans left. -/
def level (precedence : Precedence) : Side :=
  if precedence = 5 then .right else .left

theorem regular : operators.Regular level where
  leans kind associativity := by
    simp only [operators]
    repeat' split
    all_goals simp_all [level, Side.associativity]
  operator_pos kind continuation := by
    simp only [operators]
    repeat' split
    all_goals simp_all
  prefixBound_nonneg kind bound hopening := by
    simp only [operators] at hopening
    split at hopening
    · simp at hopening
    · split at hopening
      · simp only [Option.some.injEq, Opening.operator.injEq] at hopening
        rw [← hopening]
        decide
      · split at hopening <;> simp at hopening
  precedence_end := by decide

def brackets : Brackets operators where
  opening := token opening "("
  closing := token closing ")"
  pair := by decide
  precedence_closing := by decide

/-- The power of a difference and the factorial of a negative number, which is printed as
`( 1 - ( 2 - 3 ) ) ^ ( - 4 ) !`. -/
def expr : Expr :=
  .binary
    (.binary (.atom (token number "1")) (token minus "-")
      (.binary (.atom (token number "2")) (token minus "-") (.atom (token number "3"))))
    (token power "^")
    (.suffixed (.prefixed (token minus "-") (.atom (token number "4"))) (token factorial "!"))

end Arithmetic

theorem expression_print_arithmetic :
    Arithmetic.expr.Fits Arithmetic.operators ∧
      ∃ cost, ∀ fuel, cost ≤ fuel →
        ((Parser.ofRecording
          ⟨Arithmetic.expr.print Arithmetic.level Arithmetic.brackets, .unknown⟩).withState
            []).expression (Arithmetic.operators.grammar Expr.builder) fuel 0 =
          .ok (.ok (), (Parser.ofRecording ⟨[], .unknown⟩).withState [Arithmetic.expr]) := by
  have hfits : Arithmetic.expr.Fits Arithmetic.operators :=
    ⟨⟨.right, rfl⟩, ⟨⟨.left, rfl⟩, rfl, ⟨.left, rfl⟩, rfl, rfl⟩, rfl, ⟨3, rfl⟩, rfl⟩
  refine ⟨hfits, expression_print Arithmetic.regular Arithmetic.brackets hfits ?_ rfl⟩
  exact Parser.consumes_ofRecording .unknown (by decide)

end FrontEnd.Operators
