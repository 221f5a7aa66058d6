import FrontEnd.Proofs.Parse.Confinement
import FrontEnd.Table.Routine

/-!
# Tables without attempts

A routine of a table goes on behind an error only if the error came up in an attempt.  In tables
without attempts every routine therefore passes errors on.  Routines can put further bodies into the
tables while they run; these must be without attempts, too.

What such a routine still does is to log the kinds that a condition on statements was asked about.
`State.unasked` is the state without these lines.
-/

namespace FrontEnd.Table

open FrontEnd.Parse (Request Grammar)

/-! ## Bodies without attempts -/

/-- The bodies inside an instruction. -/
def Instruction.bodies : Instruction → List Body
  | branch _ yes no => [yes, no]
  | repeatWhile _ body => [body]
  | attempt body handler => [body, handler]
  | setPrefix _ body => body.toList
  | setInfix _ body => body.toList
  | setStatement _ body => body.toList
  | _ => []

/-- The instruction is no attempt, nor is one inside it. -/
inductive Instruction.Plain : Instruction → Prop
  | intro {instruction : Instruction}
      (hattempt : ∀ body handler, instruction ≠ .attempt body handler)
      (hbodies : ∀ body ∈ instruction.bodies, ∀ inner ∈ body, inner.Plain) : instruction.Plain

def Body.Plain (body : Body) : Prop :=
  ∀ instruction ∈ body, instruction.Plain

theorem Instruction.Plain.of_mem_bodies {instruction : Instruction} {body : Body}
    (hplain : instruction.Plain) (hmem : body ∈ instruction.bodies) : Body.Plain body := by
  cases hplain with
  | intro _ hbodies => exact hbodies body hmem

namespace Entries

variable {α : Type} {p : α → Prop} {entries : Entries α}

structure All (p : α → Prop) (entries : Entries α) : Prop where
  own : ∀ kind entry, (kind, some entry) ∈ entries.own → p entry
  rest : ∀ entry, entries.rest = some entry → p entry

theorem All.find (hall : entries.All p) {kind : Kind} {entry : α}
    (hfind : entries.find kind = some entry) : p entry := by
  unfold Entries.find at hfind
  split at hfind
  · rename_i hlookup
    subst hfind
    obtain ⟨before, after, hown, _⟩ := List.lookup_eq_some_iff.mp hlookup
    apply hall.own kind entry
    rw [hown]
    exact List.mem_append_right before List.mem_cons_self
  · exact hall.rest entry hfind

theorem All.set (hall : entries.All p) (key : Key) {replacement : Option α}
    (hentry : ∀ entry, replacement = some entry → p entry) : (entries.set key replacement).All p := by
  cases key with
  | kind kind =>
      refine ⟨?_, hall.rest⟩
      intro kind' entry hmem
      rcases List.mem_cons.mp hmem with heq | hmem
      · cases heq
        exact hentry entry rfl
      · exact hall.own kind' entry (List.mem_filter.mp hmem).1
  | otherwise => exact ⟨hall.own, hentry⟩

end Entries

structure Tables.Plain (tables : Tables) : Prop where
  prefixes : tables.prefixes.All Body.Plain
  infixes : tables.infixes.All Body.Plain
  statements : ∀ entries, tables.statements = some entries → entries.All Body.Plain

theorem Tables.Plain.setPrefix {tables : Tables} (hplain : tables.Plain) (key : Key)
    {body? : Option Body} (hbody : ∀ body, body? = some body → Body.Plain body) :
    ({ tables with prefixes := tables.prefixes.set key body? } : Tables).Plain :=
  { hplain with prefixes := hplain.prefixes.set key hbody }

theorem Tables.Plain.setInfix {tables : Tables} (hplain : tables.Plain) (key : Key)
    {body? : Option Body} (hbody : ∀ body, body? = some body → Body.Plain body) :
    ({ tables with infixes := tables.infixes.set key body? } : Tables).Plain :=
  { hplain with infixes := hplain.infixes.set key hbody }

theorem Tables.Plain.setStatement {tables : Tables} (hplain : tables.Plain) (key : Key)
    {body? : Option Body} (hbody : ∀ body, body? = some body → Body.Plain body) :
    ({ tables with statements := tables.statements.map (·.set key body?) } : Tables).Plain := by
  refine ⟨hplain.prefixes, hplain.infixes, ?_⟩
  intro entries hentries
  obtain ⟨before, hbefore, rfl⟩ := Option.map_eq_some_iff.mp hentries
  exact (hplain.statements before hbefore).set key hbody

/-! ## Routines without attempts -/

def Task.Plain : Task → Prop
  | perform instruction => instruction.Plain
  | guard _ => False
  | _ => True

namespace Routine

def Plain (routine : Routine) : Prop :=
  ∀ task ∈ routine.tasks, task.Plain

theorem plain_cons {routine : Routine} {task : Task} {rest : List Task} (htask : task.Plain)
    (hrest : ∀ later ∈ rest, later.Plain) : (routine.withTasks (task :: rest)).Plain :=
  List.forall_mem_cons.mpr ⟨htask, hrest⟩

theorem plain_append {routine : Routine} {body : Body} {rest : List Task} (hbody : Body.Plain body)
    (hrest : ∀ later ∈ rest, later.Plain) :
    (routine.withTasks (body.map .perform ++ rest)).Plain := by
  intro task hmem
  rcases List.mem_append.mp hmem with hmem | hmem
  · obtain ⟨instruction, hinstruction, rfl⟩ := List.mem_map.mp hmem
    exact hbody instruction hinstruction
  · exact hrest task hmem

theorem plain_start {body : Body} (hbody : Body.Plain body) (base : Nat) (token : Token) :
    (start body base token).Plain := by
  intro task hmem
  obtain ⟨instruction, hinstruction, rfl⟩ := List.mem_map.mp hmem
  exact hbody instruction hinstruction

theorem plain_resume {routine : Routine} {rest : List Task} (hrest : ∀ later ∈ rest, later.Plain)
    (result : Except Fault Unit) : (routine.resume rest result).Plain := by
  cases result with
  | ok => exact hrest
  | error fault => exact plain_cons trivial hrest

theorem confined_perform {routine : Routine} {rest : List Task} {instruction : Instruction}
    (hplain : instruction.Plain) (hrest : ∀ later ∈ rest, later.Plain) :
    (routine.perform rest instruction).Confined (fun state => state.tables.Plain) Plain := by
  cases instruction with
  | expression bound => exact plain_resume hrest
  | expressionAbove delta =>
      exact fun state hstate => ⟨hstate, plain_cons (.intro nofun nofun) hrest⟩
  | expect kind blame =>
      intro matched
      cases matched with
      | true => exact hrest
      | false =>
          cases blame with
          | nobody => exact hrest
          | _ => exact plain_cons trivial hrest
  | advance => exact fun token => plain_cons trivial hrest
  | statement => exact plain_resume hrest
  | statements accept =>
      intro result asked
      cases result with
      | ok => exact plain_cons trivial hrest
      | error fault =>
          exact plain_cons trivial (List.forall_mem_cons.mpr ⟨trivial, hrest⟩)
  | branch kind yes no =>
      intro lookahead
      refine plain_append ?_ hrest
      split
      · exact hplain.of_mem_bodies (by simp [Instruction.bodies])
      · exact hplain.of_mem_bodies (by simp [Instruction.bodies])
  | repeatWhile kind body =>
      have hbody : Body.Plain body := hplain.of_mem_bodies (by simp [Instruction.bodies])
      intro lookahead
      show Plain (if _ then _ else _)
      split
      -- The loop itself stays among the tasks, and it is plain by assumption.
      · exact plain_append hbody (List.forall_mem_cons.mpr ⟨hplain, hrest⟩)
      · exact hrest
  | skipTo kind =>
      intro lookahead
      show Plain (if _ then _ else _)
      split
      · exact hrest
      · exact plain_cons trivial (List.forall_mem_cons.mpr ⟨hplain, hrest⟩)
  | attempt body handler =>
      cases hplain with
      | intro hattempt => exact absurd rfl (hattempt body handler)
  | fail message => exact fun state hstate => ⟨hstate, plain_cons trivial hrest⟩
  | setPrefix key body? =>
      have hbody : ∀ body, body? = some body → Body.Plain body :=
        fun body hsome => hplain.of_mem_bodies (by simp [Instruction.bodies, hsome])
      exact fun state hstate => ⟨hstate.setPrefix key hbody, hrest⟩
  | setInfix key body? =>
      have hbody : ∀ body, body? = some body → Body.Plain body :=
        fun body hsome => hplain.of_mem_bodies (by simp [Instruction.bodies, hsome])
      exact fun state hstate => ⟨hstate.setInfix key hbody, hrest⟩
  | setStatement key body? =>
      have hbody : ∀ body, body? = some body → Body.Plain body :=
        fun body hsome => hplain.of_mem_bodies (by simp [Instruction.bodies, hsome])
      exact fun state hstate => ⟨hstate.setStatement key hbody, hrest⟩
  | setPrecedence key value =>
      exact fun state hstate => ⟨⟨hstate.prefixes, hstate.infixes, hstate.statements⟩, hrest⟩
  | _ => exact fun state hstate => ⟨hstate, hrest⟩

theorem handler?_eq_none {tasks : List Task} (hplain : ∀ task ∈ tasks, task.Plain) :
    handler? tasks = none := by
  induction tasks with
  | nil => rfl
  | cons task rest ih =>
      have htask := hplain task List.mem_cons_self
      have hrest := ih fun later hmem => hplain later (List.mem_cons_of_mem _ hmem)
      cases task with
      | guard handler => exact absurd htask id
      | _ => exact hrest

theorem confined_request {routine : Routine} (hplain : routine.Plain) :
    routine.request.Confined (fun state => state.tables.Plain) Plain := by
  obtain ⟨token, base, chaining, tasks⟩ := routine
  cases tasks with
  | nil => trivial
  | cons task rest =>
      have htask := hplain task List.mem_cons_self
      have hrest : ∀ later ∈ rest, later.Plain :=
        fun later hmem => hplain later (List.mem_cons_of_mem _ hmem)
      cases task with
      | perform instruction => exact confined_perform htask hrest
      | guard handler => exact absurd htask id
      | note line => exact fun state hstate => ⟨hstate, hrest⟩
      | noteAsked asked => exact fun state hstate => ⟨hstate, hrest⟩
      | discard => exact fun token => hrest
      | raise fault =>
          simp only [request, handler?_eq_none hrest]
          trivial
      | raiseAtLookahead => exact fun lookahead => plain_cons trivial hrest

end Routine

theorem confines_plain :
    grammar.Confines (fun state => state.tables.Plain) Routine.Plain := by
  refine ⟨?_, Routine.confined_request⟩
  intro state kind start hstate hoffers token
  obtain hoffers | hoffers | hoffers := hoffers
  · obtain ⟨body, hbody, rfl⟩ := Option.map_eq_some_iff.mp hoffers
    exact Routine.plain_start (hstate.prefixes.find hbody) _ token
  · obtain ⟨body, hbody, rfl⟩ := Option.map_eq_some_iff.mp hoffers
    exact Routine.plain_start (hstate.infixes.find hbody) _ token
  · obtain ⟨body, hbody, rfl⟩ := Option.map_eq_some_iff.mp hoffers
    obtain ⟨entries, hentries, hbody⟩ := Option.bind_eq_some_iff.mp hbody
    exact Routine.plain_start ((hstate.statements entries hentries).find hbody) _ token

/-! ## The record of the kinds asked about -/

/-- The state without the lines of the log that say which kinds a condition was asked about. -/
def State.unasked (state : State) : Tables × Array String × Array String :=
  (state.tables, state.stack,
    state.log.filter fun line => !"asked [".toList.isPrefixOf line.toList)

theorem State.unasked_noteAsked (state : State) (asked : List Kind) :
    (state.noteAsked asked).unasked = state.unasked := by
  have hasked (rest : String) : "asked [".toList.isPrefixOf ("asked [" ++ rest).toList = true := by
    rw [String.toList_append, List.isPrefixOf_iff_prefix]
    exact List.prefix_append _ _
  simp only [State.unasked, State.noteAsked, State.note, Array.filter_push, String.append_assoc,
    hasked, Bool.not_true, Bool.false_eq_true, if_false]

theorem Routine.givesUp_raise {routine : Routine} {rest : List Task} (fault : Fault)
    (hrest : ∀ later ∈ rest, later.Plain) :
    grammar.GivesUp State.unasked fault (routine.withTasks (.raise fault :: rest)) := by
  apply Grammar.GivesUp.fail
  show (routine.withTasks (.raise fault :: rest)).request = .fail fault
  simp only [request, withTasks, handler?_eq_none hrest]

theorem Routine.passesOn_of_plain {routine : Routine} (hplain : routine.Plain) :
    grammar.PassesOn State.unasked routine := by
  intro task resume hcall fault asked
  obtain ⟨token, base, chaining, tasks⟩ := routine
  change (Routine.request _).call? = _ at hcall
  cases tasks with
  | nil => cases hcall
  | cons first rest =>
      have hrest : ∀ later ∈ rest, later.Plain :=
        fun later hmem => hplain later (List.mem_cons_of_mem _ hmem)
      cases first with
      | perform instruction =>
          cases instruction with
          | expression bound => cases hcall; exact givesUp_raise fault hrest
          | statement => cases hcall; exact givesUp_raise fault hrest
          | statements accept =>
              cases hcall
              exact .record rfl (State.unasked_noteAsked · asked) fun _ => givesUp_raise fault hrest
          | _ => cases hcall
      | raise raised =>
          simp only [request, handler?_eq_none hrest] at hcall
          cases hcall
      | _ => cases hcall

/-- In tables without attempts, all routines pass errors on. -/
theorem allPassOn_of_plain {τ : Type} [TokenStream τ] {parser : Parse.Parser τ State}
    (hplain : parser.state.tables.Plain) (task : Parse.Task) :
    Parse.Machine.AllPassOn grammar State.unasked ⟨task.control, [], parser⟩ :=
  Parse.Machine.allPassOn_of_confines confines_plain hplain
    (fun _ => Routine.passesOn_of_plain) task

end FrontEnd.Table
