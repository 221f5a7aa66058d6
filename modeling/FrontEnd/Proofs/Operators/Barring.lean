import FrontEnd.Proofs.Operators.Climbing

/-!
# Operators that cannot be chained

An operator that cannot be chained bars its call from going on with an operator that does not bind
tighter.  The calls around it know nothing of this: the operator that was refused is offered to
them, and one of them may take it although its own left operand has a looser operator at the root.

The main result says for which tables this happens.  Every tree that is parsed respects the
precedences exactly if no operator binds looser than one that cannot be chained, except that two
operators that cannot be chained may stand on neighbouring levels.

## Strategy

If the condition holds, the induction over precedence climbing carries `Carries`: the token behind
a finished left operand exceeds the bound of the operand's root only below a barring operator
(`Leaves`), and a barring root has raised the bound of the call.  If it fails, for an operator
`low` below a barring operator `high`, the expression `x low x high x high x` is read with `low` as
the left operand of the second `high`.
-/

namespace FrontEnd.Operators

open FrontEnd.Parse (Precedence Chaining Parser)

variable {τ : Type} [TokenStream τ] {table : Table}

/-- The operator cannot be chained. -/
def Table.Bars (table : Table) (kind : Kind) : Prop :=
  table.continuation kind = some (.binary .none)

/-- A table of atoms, groups and binary operators in which all operators of one precedence are
chained in the same way, and bind tighter than the end of the input. -/
structure Table.Levelled (table : Table) : Prop where
  opening_ne : ∀ kind bound, table.opening kind ≠ some (.operator bound)
  continuation_ne : ∀ kind, table.continuation kind ≠ some .suffix
  shared : ∀ first second one other, table.continuation first = some (.binary one) →
    table.continuation second = some (.binary other) →
    table.precedence first = table.precedence second → one = other
  operator_pos : ∀ kind continuation, table.continuation kind = some continuation →
    1 ≤ table.precedence kind
  precedence_end : table.precedence .endOfInput = 0
  atom : ∃ kind, kind ≠ .endOfInput ∧ table.opening kind = some .atom

/-- No operator binds looser than one that cannot be chained, unless it cannot be chained either
and stands on the level just below. -/
def Table.Harmonious (table : Table) : Prop :=
  ∀ low high associativity, table.continuation low = some (.binary associativity) →
    table.Bars high → table.precedence low < table.precedence high →
    associativity = .none ∧ (table.precedence high).toInt = (table.precedence low).toInt + 1

namespace Tree

/-- An operand may stand beside an operator: outside of groups the operator at its root does not
bind looser, nor equally if the operator cannot be chained. -/
def Beside (table : Table) (operator : Kind) (operand : Tree) : Prop :=
  ∀ root, operand.root? = some root →
    ¬ table.precedence root.kind < table.precedence operator ∧
      (table.Bars operator → table.precedence root.kind ≠ table.precedence operator)

/-- Every operand in the tree may stand beside its operator. -/
def Respects (table : Table) : Tree → Prop
  | atom _ => True
  | prefixed _ operand => operand.Respects table
  | suffixed operand operator => operand.Beside table operator.kind ∧ operand.Respects table
  | binary left operator right =>
    left.Beside table operator.kind ∧ right.Beside table operator.kind ∧
      left.Respects table ∧ right.Respects table
  | group _ body _ => body.Respects table

end Tree

/-! ## Bounds of operands -/

/-- What binds above the bound for an operand binds at least as tightly as the operator, and
tighter than one that cannot be chained. -/
private theorem beside_of_operandBound_lt {kind : Kind} {associativity : Associativity} {operand : Tree}
    (hcontinuation : table.continuation kind = some (.binary associativity))
    (habove : ∀ root, operand.root? = some root →
      associativity.operandBound (table.precedence kind) < table.precedence root.kind) :
    operand.Beside table kind := by
  intro root hroot
  have hlt := habove root hroot
  have hupper := Int32.toInt_lt (table.precedence kind)
  constructor
  · intro hlooser
    rw [Int32.lt_iff_toInt_lt] at hlt hlooser
    cases associativity with
    | left => simp only [Associativity.operandBound] at hlt; omega
    | right =>
        simp only [Associativity.operandBound, Parse.Precedence.toInt_offset] at hlt
        omega
    | none => simp only [Associativity.operandBound] at hlt; omega
  · intro hbars hequal
    rw [Table.Bars, hcontinuation] at hbars
    cases hbars
    rw [hequal] at hlt
    exact Int32.lt_irrefl hlt

/-! ## What a call leaves behind -/

/-- The token that a call at `bound` leaves behind: it does not exceed the bound, or there is a
barring operator that binds at least as tightly. -/
def Leaves (table : Table) (bound : Precedence) (next : Kind) : Prop :=
  table.precedence next ≤ bound ∨
    ∃ high, table.Bars high ∧ table.precedence next ≤ table.precedence high

/-- What is known of the finished operand `left` of a call that was made at `start` and has the
bound `bound` now, in front of a token of the kind `next`. -/
structure Carries (table : Table) (start bound : Precedence) (next : Kind) (left : Tree) : Prop where
  respects : left.Respects table
  root_binary : ∀ root, left.root? = some root →
    ∃ associativity, table.continuation root.kind = some (.binary associativity)
  start_lt_root : ∀ root, left.root? = some root → start < table.precedence root.kind
  start_le : start ≤ bound
  leaves : ∀ root, left.root? = some root → Leaves table (table.rightBound root.kind) next
  raised : ∀ root, left.root? = some root → table.Bars root.kind →
    bound.toInt = min ((table.precedence root.kind).toInt + 1) 2147483647
  origin : bound = start ∨ (∃ high, table.Bars high ∧ bound ≤ table.precedence high) ∨
    ∃ root, left.root? = some root ∧ table.Bars root.kind

namespace Carries

variable {start bound : Precedence} {next : Kind} {left : Tree}

theorem of_root_none (hroot : left.root? = none) (hrespects : left.Respects table) :
    Carries table start start next left where
  respects := hrespects
  root_binary root hsome := by simp [hroot] at hsome
  start_lt_root root hsome := by simp [hroot] at hsome
  start_le := Int32.le_refl start
  leaves root hsome := by simp [hroot] at hsome
  raised root hsome := by simp [hroot] at hsome
  origin := .inl rfl

private theorem lt_of_bars {token root : Token} (hcarries : Carries table start bound token.kind left)
    (hroot : left.root? = some root) (hbars : table.Bars root.kind)
    (htaken : bound < table.precedence token.kind) :
    (table.precedence root.kind).toInt + 1 < (table.precedence token.kind).toInt := by
  have hraised := hcarries.raised root hroot hbars
  have hupper := Int32.toInt_lt (table.precedence token.kind)
  rw [Int32.lt_iff_toInt_lt] at htaken
  omega

/-- In a harmonious table an operator that is taken may stand behind the finished operand. -/
private theorem beside {token : Token} (hlevelled : table.Levelled)
    (hharmonious : table.Harmonious) (hcarries : Carries table start bound token.kind left)
    (htaken : bound < table.precedence token.kind) : left.Beside table token.kind := by
  intro root hroot
  obtain ⟨one, hone⟩ := hcarries.root_binary root hroot
  constructor
  · intro hlooser
    rcases hcarries.leaves root hroot with hle | ⟨high, hhigh, hle⟩
    -- The operand ended at the token because the token does not exceed its root's bound.
    · rw [Table.rightBound_eq hone] at hle
      have hroot_le := one.operandBound_le (table.precedence root.kind)
      rw [Int32.le_iff_toInt_le] at hle hroot_le
      rw [Int32.lt_iff_toInt_lt] at hlooser
      omega
    -- The operand ended early, below `high`; then its root bars, on the level just below.
    · obtain ⟨rfl, hnext⟩ := hharmonious root.kind high one hone hhigh
        (Int32.lt_of_lt_of_le hlooser hle)
      have hlt := hcarries.lt_of_bars hroot hone htaken
      rw [Int32.le_iff_toInt_le] at hle
      omega
  · intro hbars hequal
    obtain rfl : one = .none := hlevelled.shared _ _ _ _ hone hbars hequal
    have hlt := hcarries.lt_of_bars hroot hone htaken
    rw [hequal] at hlt
    omega

private theorem start_le_boundAfter {precedence : Precedence} (associativity : Associativity)
    (hstart : start ≤ bound) (htaken : bound < precedence) :
    start ≤ associativity.chaining.boundAfter precedence bound := by
  have hlower := Int32.le_toInt precedence
  have hupper := Int32.toInt_lt precedence
  cases associativity with
  | left => exact hstart
  | right => exact hstart
  | none =>
      rw [Int32.le_iff_toInt_le, Associativity.chaining, Chaining.toInt_boundAfter_barred]
      rw [Int32.le_iff_toInt_le] at hstart
      rw [Int32.lt_iff_toInt_lt] at htaken
      omega

/-- What is known of the finished operand is known again of the operator that was taken with both
its operands. -/
theorem take {token : Token} {associativity : Associativity} {right : Tree}
    (hlevelled : table.Levelled) (hharmonious : table.Harmonious)
    (hcarries : Carries table start bound token.kind left)
    (htaken : bound < table.precedence token.kind)
    (hcontinuation : table.continuation token.kind = some (.binary associativity))
    (hrespects : right.Respects table)
    (habove : ∀ root, right.root? = some root →
      associativity.operandBound (table.precedence token.kind) < table.precedence root.kind)
    (hleaves : Leaves table (associativity.operandBound (table.precedence token.kind)) next) :
    Carries table start (associativity.chaining.boundAfter (table.precedence token.kind) bound) next
      (.binary left token right) where
  respects := ⟨hcarries.beside hlevelled hharmonious htaken,
    beside_of_operandBound_lt hcontinuation habove, hcarries.respects, hrespects⟩
  root_binary root hroot := by
    cases hroot
    exact ⟨associativity, hcontinuation⟩
  start_lt_root root hroot := by
    cases hroot
    exact Int32.lt_of_le_of_lt hcarries.start_le htaken
  start_le := start_le_boundAfter associativity hcarries.start_le htaken
  leaves root hroot := by
    cases hroot
    rw [Table.rightBound_eq hcontinuation]
    exact hleaves
  raised root hroot hbars := by
    cases hroot
    obtain rfl : associativity = .none := by
      rw [Table.Bars, hcontinuation] at hbars
      cases hbars
      rfl
    exact Chaining.toInt_boundAfter_barred _ _
  origin := by
    by_cases hbars : associativity = .none
    · subst hbars
      exact .inr (.inr ⟨token, rfl, hcontinuation⟩)
    · have hbound : associativity.chaining.boundAfter (table.precedence token.kind) bound = bound := by
        cases associativity with
        | none => exact absurd rfl hbars
        | _ => rfl
      rw [hbound]
      rcases hcarries.origin with hstart | hhigh | ⟨root, hroot, hrootBars⟩
      · exact .inl hstart
      · exact .inr (.inl hhigh)
      -- A barring root has let the operator through, so there is a tighter barring operator.
      · have hlt := hcarries.lt_of_bars hroot hrootBars htaken
        rcases hcarries.leaves root hroot with hle | ⟨high, hhigh, hle⟩
        · rw [Table.rightBound_eq hrootBars, Associativity.operandBound,
            Int32.le_iff_toInt_le] at hle
          omega
        · exact .inr (.inl ⟨high, hhigh, Int32.le_of_lt (Int32.lt_of_lt_of_le htaken hle)⟩)

/-- Where the call stops, the token behind is one that a call at its first bound leaves. -/
theorem stop (hcarries : Carries table start bound next left)
    (hstop : table.precedence next ≤ bound) : Leaves table start next := by
  rcases hcarries.origin with rfl | ⟨high, hhigh, hle⟩ | ⟨root, hroot, hbars⟩
  · exact .inl hstop
  · exact .inr ⟨high, hhigh, Int32.le_trans hstop hle⟩
  · rcases hcarries.leaves root hroot with hle | hhigh
    · rw [Table.rightBound_eq hbars] at hle
      exact .inr ⟨root.kind, hbars, hle⟩
    · exact .inr hhigh

end Carries

/-! ## Harmonious tables -/

/-- What a call leaves behind in each phase. -/
private def Keeps (table : Table) (before : Parser τ Unit) (tree : Tree) (after : Parser τ Unit) :
    Phase → Prop
  | .expression bound =>
    tree.Respects table ∧
      (∀ root, tree.root? = some root → bound < table.precedence root.kind) ∧
      Leaves table bound after.lookahead.kind
  | .operators bound left =>
    ∀ start, Carries table start bound before.lookahead.kind left →
      tree.Respects table ∧
        (∀ root, tree.root? = some root → start < table.precedence root.kind) ∧
        Leaves table start after.lookahead.kind

private theorem keeps_of_climbs (hlevelled : table.Levelled) (hharmonious : table.Harmonious)
    {phase : Phase} {before after : Parser τ Unit} {tree : Tree}
    (hclimbs : Climbs table phase before tree after) : Keeps table before tree after phase := by
  induction hclimbs with
  | atom _ _ _ ihRest => exact ihRest _ (.of_root_none rfl trivial)
  | prefixed _ hopening _ _ _ _ => exact absurd hopening (hlevelled.opening_ne _ _)
  | group _ _ _ _ _ ihBody ihRest => exact ihRest _ (.of_root_none rfl ihBody.1)
  | stop hbound =>
      intro start hcarries
      exact ⟨hcarries.respects, hcarries.start_lt_root, hcarries.stop hbound⟩
  | suffixed _ _ hcontinuation _ _ => exact absurd hcontinuation (hlevelled.continuation_ne _)
  | binary hadvance hbound hcontinuation _ _ ihRight ihRest =>
      intro start hcarries
      obtain rfl := Parser.eq_lookahead_of_advance hadvance
      obtain ⟨hrespects, habove, hleaves⟩ := ihRight
      exact ihRest start
        (hcarries.take hlevelled hharmonious hbound hcontinuation hrespects habove hleaves)

/-! ## Tables that are not harmonious -/

section Inverted

variable {atom low high : Token} {associativity : Associativity}

private theorem climbs_atom {bound : Precedence} {rest : List Token} (hatomEnd : atom.isEnd = false)
    (hatom : table.opening atom.kind = some .atom)
    (hstop : table.precedence (Parser.ofRecording ⟨rest, .unknown⟩).lookahead.kind ≤ bound) :
    Climbs table (.expression bound) (Parser.ofRecording ⟨atom :: rest, .unknown⟩) (.atom atom)
      (Parser.ofRecording ⟨rest, .unknown⟩) :=
  .atom (Parser.advance_ofRecording hatomEnd rest .unknown) hatom (.stop hstop)

private theorem climbs_barring {bound : Precedence} {left : Tree} {rest : List Token}
    (hatomEnd : atom.isEnd = false) (hatom : table.opening atom.kind = some .atom)
    (hhighEnd : high.isEnd = false) (hhigh : table.Bars high.kind)
    (hbound : bound < table.precedence high.kind)
    (hstop : table.precedence (Parser.ofRecording ⟨rest, .unknown⟩).lookahead.kind ≤
      table.precedence high.kind) :
    Climbs table (.operators bound left) (Parser.ofRecording ⟨high :: atom :: rest, .unknown⟩)
      (.binary left high (.atom atom)) (Parser.ofRecording ⟨rest, .unknown⟩) := by
  refine .binary (Parser.advance_ofRecording hhighEnd _ _) hbound hhigh
    (climbs_atom hatomEnd hatom hstop) (.stop ?_)
  have hupper := Int32.toInt_lt (table.precedence high.kind)
  rw [Int32.le_iff_toInt_le] at hstop ⊢
  rw [Associativity.chaining, Chaining.toInt_boundAfter_barred]
  omega

/-- The second of two barring operators behind a looser operator takes that operator as its left
operand, unless the looser operator bars it. -/
private theorem climbs_inverted (hlevelled : table.Levelled) (hatomEnd : atom.isEnd = false)
    (hatom : table.opening atom.kind = some .atom)
    (hlowEnd : low.isEnd = false)
    (hlow : table.continuation low.kind = some (.binary associativity))
    (hhighEnd : high.isEnd = false) (hhigh : table.Bars high.kind)
    (hlooser : table.precedence low.kind < table.precedence high.kind)
    (hpasses : associativity.chaining.boundAfter (table.precedence low.kind) 0 <
      table.precedence high.kind) :
    Climbs table (.expression 0)
      (Parser.ofRecording ⟨[atom, low, atom, high, atom, high, atom], .unknown⟩)
      (.binary
        (.binary (.atom atom) low (.binary (.atom atom) high (.atom atom))) high (.atom atom))
      (Parser.ofRecording ⟨[], .unknown⟩) := by
  have hzero : ∀ kind continuation, table.continuation kind = some continuation →
      0 < table.precedence kind := by
    intro kind continuation hcontinuation
    exact Int32.lt_of_lt_of_le (by decide) (hlevelled.operator_pos kind continuation hcontinuation)
  have hend : table.precedence (Parser.ofRecording ⟨[], .unknown⟩).lookahead.kind ≤
      table.precedence high.kind := by
    have hprecedence : table.precedence
        (Parser.ofRecording ⟨[], .unknown⟩).lookahead.kind = 0 := hlevelled.precedence_end
    rw [hprecedence]
    exact Int32.le_of_lt (hzero _ _ hhigh)
  have hagain : table.precedence
      (Parser.ofRecording ⟨[high, atom], .unknown⟩).lookahead.kind ≤ table.precedence high.kind := by
    rw [Parser.ofRecording_cons hhighEnd]
    exact Int32.le_refl _
  have hinner : associativity.operandBound (table.precedence low.kind) <
      table.precedence high.kind :=
    Int32.lt_of_le_of_lt (associativity.operandBound_le _) hlooser
  -- The call for the right operand of `low` reads `x high x` and refuses the second `high`, which
  -- the outer call then takes.
  refine .atom (Parser.advance_ofRecording hatomEnd _ _) hatom
    (.binary (Parser.advance_ofRecording hlowEnd _ _) (hzero _ _ hlow) hlow
      (.atom (Parser.advance_ofRecording hatomEnd _ _) hatom
        (climbs_barring hatomEnd hatom hhighEnd hhigh hinner hagain)) ?_)
  exact climbs_barring hatomEnd hatom hhighEnd hhigh hpasses hend

end Inverted

/-- An operator passes the bound that a looser operator leaves, unless that one cannot be chained
and stands on the level just below. -/
private theorem boundAfter_lt {low high : Precedence} {associativity : Associativity}
    (hpos : 1 ≤ high) (hlooser : low < high)
    (happart : ¬ (associativity = .none ∧ high.toInt = low.toInt + 1)) :
    associativity.chaining.boundAfter low 0 < high := by
  have hzero : 0 < high := Int32.lt_of_lt_of_le (by decide) hpos
  cases associativity with
  | left => exact hzero
  | right => exact hzero
  | none =>
      have hne : high.toInt ≠ low.toInt + 1 := fun hnext => happart ⟨rfl, hnext⟩
      rw [Int32.lt_iff_toInt_lt] at hlooser
      rw [Int32.lt_iff_toInt_lt, Associativity.chaining, Chaining.toInt_boundAfter_barred]
      omega

private def bare (kind : Kind) : Token :=
  ⟨kind, "", .unknown⟩

private theorem isEnd_bare {kind : Kind} (hkind : kind ≠ .endOfInput) :
    (bare kind).isEnd = false := by
  have hvalue : kind.value ≠ 0 := by
    intro hzero
    apply hkind
    cases kind
    simp_all [Kind.endOfInput]
  simpa [bare, Token.isEnd, Kind.isEnd] using hvalue

private theorem harmonious_of_respects (hlevelled : table.Levelled)
    (hrespects : ∀ (parser after : Parser Recording (List Tree)) (fuel : Nat) (bound : Precedence)
      (tree : Tree),
      parser.expression (table.grammar Tree.builder) fuel bound = .ok (.ok (), after) →
      after.state = tree :: parser.state → tree.Respects table) :
    table.Harmonious := by
  intro low high associativity hlow hhigh hlooser
  apply Classical.byContradiction
  intro happart
  obtain ⟨atom, hne, hatom⟩ := hlevelled.atom
  have hoperator : ∀ {kind continuation}, table.continuation kind = some continuation →
      kind ≠ .endOfInput := by
    rintro kind continuation hcontinuation rfl
    have hpos := hlevelled.operator_pos _ _ hcontinuation
    rw [hlevelled.precedence_end] at hpos
    exact absurd hpos (by decide)
  have hclimbs := climbs_inverted hlevelled (isEnd_bare hne) hatom
    (isEnd_bare (hoperator hlow)) hlow (isEnd_bare (hoperator hhigh)) hhigh hlooser
    (boundAfter_lt (hlevelled.operator_pos _ _ hhigh) hlooser happart)
  obtain ⟨cost, hparse⟩ := expression_of_climbs Tree.builder hclimbs []
  rw [Tree.build_builder] at hparse
  have hinverted := hrespects _ _ cost 0 _ (hparse cost (Nat.le_refl cost)) rfl
  exact (hinverted.1 (bare low) rfl).1 hlooser

/-! ## The condition -/

/-- **Barring operators and precedence.**  In a table of binary operators all trees that are parsed
respect the precedences exactly if the table is harmonious. -/
theorem respects_iff_harmonious (hlevelled : table.Levelled) :
    (∀ (τ : Type) [TokenStream τ] (parser after : Parser τ (List Tree)) (fuel : Nat)
      (bound : Precedence) (tree : Tree),
      parser.expression (table.grammar Tree.builder) fuel bound = .ok (.ok (), after) →
      after.state = tree :: parser.state → tree.Respects table) ↔ table.Harmonious := by
  constructor
  · intro hrespects
    exact harmonious_of_respects hlevelled (hrespects Recording)
  · intro hharmonious τ _ parser after fuel bound tree hparse hstate
    obtain ⟨parsed, hclimbs, hpushed⟩ := expression_ok_iff.mp ⟨fuel, hparse⟩
    rw [Tree.build_builder, hstate] at hpushed
    obtain rfl := (List.cons.inj hpushed).1
    exact (keeps_of_climbs hlevelled hharmonious hclimbs).1

/-! ## Roots among sums and products -/

namespace Roots

def number : Kind := ⟨1⟩
def plus : Kind := ⟨2⟩
def times : Kind := ⟨3⟩
def root : Kind := ⟨4⟩

/-- Sums below products, and roots, which cannot be chained, at a level of their own. -/
def operators (level : Precedence) : Table where
  precedence kind :=
    if kind = plus then 2
    else if kind = times then 3
    else if kind = root then level
    else 0
  opening kind := if kind = number then some .atom else none
  continuation kind :=
    if kind = plus ∨ kind = times then some (.binary .left)
    else if kind = root then some (.binary .none)
    else none

variable {level : Precedence}

theorem levelled (hpos : 1 ≤ level) (hplus : level ≠ 2) (htimes : level ≠ 3) :
    (operators level).Levelled where
  opening_ne kind bound := by
    simp only [operators]
    split <;> simp
  continuation_ne kind := by
    simp only [operators]
    repeat' split
    all_goals simp
  shared first second one other hone hother hequal := by
    simp only [operators] at hone hother hequal
    grind [plus, times, root]
  operator_pos kind continuation hcontinuation := by
    simp only [operators] at hcontinuation ⊢
    grind [plus, times, root]
  precedence_end := rfl
  atom := ⟨number, by decide, rfl⟩

/-- Roots at the lowest level come in no other operator's way. -/
theorem harmonious : (operators 1).Harmonious := by
  intro low high associativity hlow hhigh hlooser
  simp only [Table.Bars, operators] at hlow hhigh hlooser
  grind [plus, times, root]

/-- `2 + 8 ~ 3 * 4` -/
def input : Parser Recording (List Tree) :=
  (Parser.ofRecording (.ofTokens
    [⟨number, "2", .unknown⟩, ⟨plus, "+", .unknown⟩, ⟨number, "8", .unknown⟩,
      ⟨root, "~", .unknown⟩, ⟨number, "3", .unknown⟩, ⟨times, "*", .unknown⟩,
      ⟨number, "4", .unknown⟩])).withState []

/-- `( 2 + ( 8 ~ 3 ) ) * 4` -/
def inverted : Tree :=
  .binary
    (.binary (.atom ⟨number, "2", .unknown⟩) ⟨plus, "+", .unknown⟩
      (.binary (.atom ⟨number, "8", .unknown⟩) ⟨root, "~", .unknown⟩
        (.atom ⟨number, "3", .unknown⟩)))
    ⟨times, "*", .unknown⟩ (.atom ⟨number, "4", .unknown⟩)

end Roots

/-- Roots at the lowest level are read with the precedences that the table gives. -/
theorem respects_of_roots_lowest :
    (Roots.operators 1).Levelled ∧
      ∃ after tree, Roots.input.expression ((Roots.operators 1).grammar Tree.builder) 100 0 =
          .ok (.ok (), after) ∧
        after.state = tree :: Roots.input.state ∧ tree.Respects (Roots.operators 1) := by
  have hlevelled : (Roots.operators 1).Levelled :=
    Roots.levelled (by decide) (by decide) (by decide)
  refine ⟨hlevelled, _, _, rfl, rfl, ?_⟩
  exact (respects_iff_harmonious hlevelled).mpr Roots.harmonious Recording Roots.input _ 100 0 _ rfl
    rfl

/-- Roots at the highest level end the sum in front of them, and the product takes it whole. -/
theorem not_respects_of_roots_highest :
    (Roots.operators 4).Levelled ∧
      ∃ after, Roots.input.expression ((Roots.operators 4).grammar Tree.builder) 100 0 =
          .ok (.ok (), after) ∧
        after.state = Roots.inverted :: Roots.input.state ∧
        ¬ Roots.inverted.Respects (Roots.operators 4) := by
  refine ⟨Roots.levelled (by decide) (by decide) (by decide), _, rfl, rfl, ?_⟩
  intro hrespects
  exact (hrespects.1 ⟨Roots.plus, "+", .unknown⟩ rfl).1 (by decide)

end FrontEnd.Operators
