import FrontEnd.Proofs.Operators.Climbing

/-!
# What precedence climbing reads

This module characterises precedence climbing for tables whose operators can all be chained.  The
result is `climbs_iff`: climbing at a bound reads a tree between two inputs exactly if the tokens
between them are the tokens of the tree and the tree is `Tree.Settled`, that is

* it is proper: inside it every operand binds above the bound of its operator, and every operator
  may stand behind its left operand;
* it binds above the bound of the call;
* the token behind it binds no tighter than the bound of the call, nor than a bound that is open at
  its right end.

From left to right this is the soundness of the engine, for all token streams.  From right to left
it is the reason why an expression can be printed and parsed again.
-/

namespace FrontEnd.Operators

open FrontEnd.Parse (Precedence Chaining Parser)

variable {τ : Type} [TokenStream τ] {table : Table}

/-- What precedence climbing at `bound` reads in front of a token of the kind `next`. -/
structure Tree.Settled (table : Table) (bound : Precedence) (next : Kind) (tree : Tree) : Prop where
  proper : tree.Proper table
  bindsAbove : tree.BindsAbove table bound
  stops : table.precedence next ≤ bound
  admits : tree.Admits table next

/-- A finished left operand of a call at `bound`, in front of a token of the kind `next`. -/
structure Tree.Pending (table : Table) (bound : Precedence) (next : Kind) (tree : Tree) : Prop where
  proper : tree.Proper table
  bindsAbove : tree.BindsAbove table bound
  admits : tree.Admits table next

/-! ## Left operands -/

namespace Tree.Pending

variable {bound : Precedence} {next : Kind} {token : Token} {tree : Tree}

theorem of_atom (hopening : table.opening token.kind = some .atom) :
    Pending table bound next (.atom token) where
  proper := hopening
  bindsAbove := by simp [BindsAbove, leftOperators]
  admits := by simp [Admits, openBounds]

theorem of_prefixed {inner : Precedence} {operand : Tree}
    (hopening : table.opening token.kind = some (.operator inner))
    (hoperand : operand.Settled table inner next) :
    Pending table bound next (.prefixed token operand) where
  proper := ⟨inner, hopening, hoperand.bindsAbove, hoperand.proper⟩
  bindsAbove := by simp [BindsAbove, leftOperators]
  admits := by
    intro limit hlimit
    rcases List.mem_cons.mp hlimit with rfl | hlimit
    · rw [Table.prefixBound_eq hopening]
      exact hoperand.stops
    · exact hoperand.admits limit hlimit

theorem of_group {closing : Token} {body : Tree}
    (hopening : table.opening token.kind = some (.group closing.kind))
    (hbody : body.Settled table 0 closing.kind) :
    Pending table bound next (.group token body closing) where
  proper := ⟨hopening, hbody.bindsAbove, hbody.stops, hbody.admits, hbody.proper⟩
  bindsAbove := by simp [BindsAbove, leftOperators]
  admits := by simp [Admits, openBounds]

theorem suffixed (hleft : tree.Pending table bound token.kind)
    (hbound : bound < table.precedence token.kind)
    (hcontinuation : table.continuation token.kind = some .suffix) :
    Pending table bound next (.suffixed tree token) where
  proper := ⟨hcontinuation, hleft.admits, hleft.proper⟩
  bindsAbove := by
    intro operator hoperator
    rcases List.mem_cons.mp hoperator with rfl | hoperator
    · exact hbound
    · exact hleft.bindsAbove operator hoperator
  admits := by simp [Admits, openBounds]

theorem binary {associativity : Associativity} {right : Tree}
    (hleft : tree.Pending table bound token.kind) (hbound : bound < table.precedence token.kind)
    (hcontinuation : table.continuation token.kind = some (.binary associativity))
    (hright : right.Settled table (associativity.operandBound (table.precedence token.kind)) next) :
    Pending table bound next (.binary tree token right) where
  proper := ⟨associativity, hcontinuation, hleft.admits, hleft.proper, hright.bindsAbove,
    hright.proper⟩
  bindsAbove := by
    intro operator hoperator
    rcases List.mem_cons.mp hoperator with rfl | hoperator
    · exact hbound
    · exact hleft.bindsAbove operator hoperator
  admits := by
    intro limit hlimit
    rcases List.mem_cons.mp hlimit with rfl | hlimit
    · rw [Table.rightBound_eq hcontinuation]
      exact hright.stops
    · exact hright.admits limit hlimit

end Tree.Pending

theorem Table.Chainable.boundAfter (hchainable : table.Chainable) {kind : Kind}
    {associativity : Associativity}
    (hcontinuation : table.continuation kind = some (.binary associativity))
    (precedence bound : Precedence) :
    associativity.chaining.boundAfter precedence bound = bound := by
  cases associativity with
  | left => rfl
  | right => rfl
  | none => exact absurd hcontinuation (hchainable kind)

/-! ## Soundness -/

/-- What climbing reads in each phase.  Behind a left operand it reads the rest of a tree that
begins with that operand. -/
private def Reads (table : Table) (before : Parser τ Unit) (tree : Tree) (after : Parser τ Unit) :
    Phase → Prop
  | .expression bound =>
    Parser.Consumes before tree.yield after ∧ tree.Settled table bound after.lookahead.kind
  | .operators bound left =>
    left.Pending table bound before.lookahead.kind →
      tree.Settled table bound after.lookahead.kind ∧
        ∃ tokens, Parser.Consumes before tokens after ∧ tree.yield = left.yield ++ tokens

private theorem Reads.expression {bound : Precedence} {before middle after : Parser τ Unit}
    {left tree : Tree} (hrest : Reads table middle tree after (.operators bound left))
    (hconsumes : Parser.Consumes before left.yield middle)
    (hleft : left.Pending table bound middle.lookahead.kind) :
    Reads table before tree after (.expression bound) := by
  obtain ⟨hsettled, tokens, htokens, hyield⟩ := hrest hleft
  refine ⟨?_, hsettled⟩
  rw [hyield]
  exact hconsumes.trans htokens

private theorem reads_of_climbs (hchainable : table.Chainable) {phase : Phase}
    {before after : Parser τ Unit} {tree : Tree} (hclimbs : Climbs table phase before tree after) :
    Reads table before tree after phase := by
  induction hclimbs with
  | atom hadvance hopening _ ihRest =>
      exact Reads.expression ihRest (.one hadvance) (.of_atom hopening)
  | prefixed hadvance hopening _ _ ihOperand ihRest =>
      obtain ⟨hconsumes, hoperand⟩ := ihOperand
      exact Reads.expression ihRest (.token hadvance hconsumes) (.of_prefixed hopening hoperand)
  | group hadvance hopening _ hclose _ ihBody ihRest =>
      obtain ⟨hconsumes, hbody⟩ := ihBody
      obtain rfl := Parser.eq_lookahead_of_advance hclose
      exact Reads.expression ihRest (.token hadvance (hconsumes.trans (.one hclose)))
        (.of_group hopening hbody)
  | stop hbound =>
      intro hleft
      exact ⟨⟨hleft.proper, hleft.bindsAbove, hbound, hleft.admits⟩, [], .nothing _, by simp⟩
  | suffixed hadvance hbound hcontinuation _ ihRest =>
      intro hleft
      obtain rfl := Parser.eq_lookahead_of_advance hadvance
      obtain ⟨hsettled, tokens, hconsumes, hyield⟩ := ihRest (hleft.suffixed hbound hcontinuation)
      exact ⟨hsettled, _ :: tokens, .token hadvance hconsumes, by simp [hyield, Tree.yield]⟩
  | binary hadvance hbound hcontinuation _ _ ihRight ihRest =>
      intro hleft
      obtain rfl := Parser.eq_lookahead_of_advance hadvance
      obtain ⟨hoperand, hright⟩ := ihRight
      rw [hchainable.boundAfter hcontinuation] at ihRest
      obtain ⟨hsettled, tokens, hconsumes, hyield⟩ :=
        ihRest (hleft.binary hbound hcontinuation hright)
      exact ⟨hsettled, _ :: (_ ++ tokens), .token hadvance (hoperand.trans hconsumes),
        by simp [hyield, Tree.yield]⟩

/-! ## Completeness -/

/-- A proper tree is climbed up to its right end, and from there on the call goes on with it as its
left operand. -/
private theorem climbs_of_rest (hchainable : table.Chainable) {left : Tree} :
    ∀ {bound : Precedence} {before middle after : Parser τ Unit} {tree : Tree},
      left.Pending table bound middle.lookahead.kind →
      Parser.Consumes before left.yield middle →
      Climbs table (.operators bound left) middle tree after →
      Climbs table (.expression bound) before tree after := by
  -- For all bounds at once: a right operand is read by a call of its own, at another bound, which
  -- ends where the tree ends.
  induction left with
  | atom token =>
      intro bound before middle after tree hleft hconsumes hrest
      cases hconsumes with
      | token hadvance hnothing =>
          cases hnothing
          exact .atom hadvance hleft.proper hrest
  | prefixed operator operand ih =>
      intro bound before middle after tree hleft hconsumes hrest
      obtain ⟨inner, hopening, habove, hproper⟩ := hleft.proper
      obtain ⟨hstops, hadmits⟩ := List.forall_mem_cons.mp hleft.admits
      rw [Table.prefixBound_eq hopening] at hstops
      cases hconsumes with
      | token hadvance hoperand =>
          exact .prefixed hadvance hopening
            (ih ⟨hproper, habove, hadmits⟩ hoperand (.stop hstops)) hrest
  | suffixed operand operator ih =>
      intro bound before middle after tree hleft hconsumes hrest
      obtain ⟨hcontinuation, hadmits, hproper⟩ := hleft.proper
      obtain ⟨hbound, habove⟩ := List.forall_mem_cons.mp hleft.bindsAbove
      obtain ⟨front, hoperand, hoperator⟩ := hconsumes.split
      cases hoperator with
      | token hadvance hnothing =>
          cases hnothing
          obtain rfl := Parser.eq_lookahead_of_advance hadvance
          exact ih ⟨hproper, habove, hadmits⟩ hoperand
            (.suffixed hadvance hbound hcontinuation hrest)
  | binary left operator right ihLeft ihRight =>
      intro bound before middle after tree hleft hconsumes hrest
      obtain ⟨associativity, hcontinuation, hadmits, hproper, hrightAbove, hrightProper⟩ :=
        hleft.proper
      obtain ⟨hbound, habove⟩ := List.forall_mem_cons.mp hleft.bindsAbove
      obtain ⟨hstops, hrightAdmits⟩ := List.forall_mem_cons.mp hleft.admits
      rw [Table.rightBound_eq hcontinuation] at hstops
      obtain ⟨front, hfront, hback⟩ := hconsumes.split
      cases hback with
      | token hadvance hright =>
          obtain rfl := Parser.eq_lookahead_of_advance hadvance
          have hoperand := ihRight ⟨hrightProper, hrightAbove, hrightAdmits⟩ hright (.stop hstops)
          refine ihLeft ⟨hproper, habove, hadmits⟩ hfront
            (.binary hadvance hbound hcontinuation hoperand ?_)
          rw [hchainable.boundAfter hcontinuation]
          exact hrest
  | group opening body closing ih =>
      intro bound before middle after tree hleft hconsumes hrest
      obtain ⟨hopening, habove, hstops, hadmits, hproper⟩ := hleft.proper
      cases hconsumes with
      | token hadvance hinner =>
          obtain ⟨behind, hbody, hclosing⟩ := Parser.Consumes.split hinner
          cases hclosing with
          | token hclose hnothing =>
              cases hnothing
              obtain rfl := Parser.eq_lookahead_of_advance hclose
              exact .group hadvance hopening
                (ih ⟨hproper, habove, hadmits⟩ hbody (.stop hstops)) hclose hrest

/-- Climbing at a bound reads exactly the trees that are settled there, and all their tokens. -/
theorem climbs_iff (hchainable : table.Chainable) {bound : Precedence}
    {before after : Parser τ Unit} {tree : Tree} :
    Climbs table (.expression bound) before tree after ↔
      Parser.Consumes before tree.yield after ∧ tree.Settled table bound after.lookahead.kind := by
  constructor
  · exact fun hclimbs => reads_of_climbs hchainable hclimbs
  · rintro ⟨hconsumes, hsettled⟩
    exact climbs_of_rest hchainable ⟨hsettled.proper, hsettled.bindsAbove, hsettled.admits⟩
      hconsumes (.stop hsettled.stops)

/-! ## The engine -/

/-- **Precedence climbing reads the settled trees.**  An expression can be parsed exactly if there is
a tree whose tokens come next and which is settled at the bound of the call in front of the token
behind it.  The parse leaves one tree more on the stack, this one, and consumes its tokens only. -/
theorem expression_iff_settled (hchainable : table.Chainable) {parser after : Parser τ (List Tree)}
    {bound : Precedence} :
    (∃ fuel, parser.expression (table.grammar Tree.builder) fuel bound = .ok (.ok (), after)) ↔
      ∃ tree, after.state = tree :: parser.state ∧
        Parser.Consumes parser.input tree.yield after.input ∧
        tree.Settled table bound after.lookahead.kind := by
  constructor
  · intro hparse
    obtain ⟨tree, hclimbs, hstate⟩ := expression_ok_iff.mp hparse
    rw [Tree.build_builder] at hstate
    exact ⟨tree, hstate, (climbs_iff hchainable).mp hclimbs⟩
  · rintro ⟨tree, hstate, hreads⟩
    rw [← Tree.build_builder tree] at hstate
    exact expression_ok_iff.mpr ⟨tree, (climbs_iff hchainable).mpr hreads, hstate⟩

/-! ## Arithmetic -/

namespace Arithmetic

def number : Kind := ⟨1⟩
def plus : Kind := ⟨2⟩
def minus : Kind := ⟨3⟩
def times : Kind := ⟨4⟩
def power : Kind := ⟨5⟩
def factorial : Kind := ⟨6⟩
def opening : Kind := ⟨7⟩
def closing : Kind := ⟨8⟩

/-- Sums, products, powers that lean right, factorials behind their operand, and a sign that takes
everything that binds tighter than a sum. -/
def operators : Table where
  precedence kind :=
    if kind = plus ∨ kind = minus then 3
    else if kind = times then 4
    else if kind = power then 5
    else if kind = factorial then 7
    else 0
  opening kind :=
    if kind = number then some .atom
    else if kind = minus then some (.operator 3)
    else if kind = opening then some (.group closing)
    else none
  continuation kind :=
    if kind = plus ∨ kind = minus ∨ kind = times then some (.binary .left)
    else if kind = power then some (.binary .right)
    else if kind = factorial then some .suffix
    else none

/-- A token that stands nowhere. -/
def token (kind : Kind) (text : String) : Token :=
  ⟨kind, text, .unknown⟩

theorem chainable : operators.Chainable := by
  intro kind
  simp only [operators]
  repeat' split
  all_goals simp

/-- `- 2 * 3 ! ^ 2 - ( 4 + 5 ) )`, with one parenthesis too many. -/
def input : Parser Recording (List Tree) :=
  (Parser.ofRecording (.ofTokens
    [token minus "-", token number "2", token times "*", token number "3", token factorial "!",
      token power "^", token number "2", token minus "-", token opening "(", token number "4",
      token plus "+", token number "5", token closing ")", token closing ")"])).withState []

end Arithmetic

/-- The sign ends in front of the difference, and the difference in front of the second closing
parenthesis. -/
theorem expression_iff_settled_arithmetic :
    Arithmetic.operators.Chainable ∧
      ∃ after, Arithmetic.input.expression (Arithmetic.operators.grammar Tree.builder) 100 0 =
          .ok (.ok (), after) ∧
        ∃ tree, after.state = tree :: Arithmetic.input.state ∧
          Parser.Consumes Arithmetic.input.input tree.yield after.input ∧
          tree.Settled Arithmetic.operators 0 after.lookahead.kind :=
  ⟨Arithmetic.chainable, _, rfl, (expression_iff_settled Arithmetic.chainable).mp ⟨100, rfl⟩⟩

end FrontEnd.Operators
