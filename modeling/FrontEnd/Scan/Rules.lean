import FrontEnd.Scan.Program
import FrontEnd.Text.CharClass

/-!
# Scanning rules

A small language of scanning functions given as data: a list of rules that is carried out in order
for each token, with branches and loops on what comes next.  A list that ends without a result
gives the kind of an unrecognised character.
-/

namespace FrontEnd.Scan

/-- What a rule can test.  A test that consumes does so only as far as it matches. -/
inductive Condition
  /-- Nothing is left to read. -/
  | atEnd
  /-- The next character is the given one, and is consumed. -/
  | takesChar (character : Char)
  /-- The next character is in the class, and is consumed. -/
  | takesOne (members : CharClass)
  /-- At least so many next characters are in the class; all that are get consumed. -/
  | takesMany (members : CharClass) (least : Nat)
  /-- The next character is in the class, and stays. -/
  | sees (members : CharClass)
  /-- The text since the last mark is the given one. -/
  | textIs (text : String)
  /-- A failed read has ended the input. -/
  | hasFailed

/-- One step of a scanning function given as data. -/
inductive Rule
  | mark
  | advance
  /-- Consume all next characters of the class. -/
  | takeAll (members : CharClass)
  /-- Return a kind. -/
  | result (kind : Kind)
  /-- If the text is a keyword, return the kind that is its index above `base`; if not, return
  `otherwise`, or go on if there is none. -/
  | keyword (words : List String) (base : Kind) (otherwise : Option Kind)
  | branch (condition : Condition) (yes no : List Rule)
  | repeatWhile (condition : Condition) (body : List Rule)

namespace Rule

/-- The request that decides a condition. -/
def decideBy {κ : Type} : Condition → (Bool → κ) → Request κ
  | .atEnd, resume => .isDone resume
  | .takesChar character, resume => .takeChar character resume
  | .takesOne members, resume => .takeIf members.accepts resume
  | .takesMany members least, resume => .takeWhile members.accepts fun count => resume (least ≤ count)
  | .sees members, resume => .peek fun next => resume (next.any members.accepts)
  | .textIs wanted, resume => .text fun text => resume (text == wanted)
  | .hasFailed, resume => .failure fun failure => resume failure.isSome

/-- The kind that stands `index` above `base`. -/
def kindAbove (base : Kind) (index : Nat) : Kind :=
  ⟨base.value + Int32.ofNat index⟩

/-- The request of a scanning function that has the rules `pending` left to carry out for this
token, where `rules` is the whole list. -/
def request (rules pending : List Rule) : Request (List Rule) :=
  match pending with
  | [] => .finish .invalid rules
  | .mark :: rest => .mark rest
  | .advance :: rest => .advance rest
  | .takeAll members :: rest => .takeWhile members.accepts fun _ => rest
  | .result kind :: _ => .finish kind rules
  | .keyword words base otherwise :: rest =>
    match Keywords.ofWords words with
    | .error cause => .halt cause
    | .ok keywords =>
      .keyword keywords fun
        | some index => [.result (kindAbove base index)]
        | none =>
          match otherwise with
          | some kind => [.result kind]
          | none => rest
  | .branch condition yes no :: rest =>
    decideBy condition fun holds => (if holds then yes else no) ++ rest
  | .repeatWhile condition body :: rest =>
    decideBy condition fun holds =>
      if holds then body ++ .repeatWhile condition body :: rest else rest

/-- The scanning function of a list of rules.  Its control points are the rules left to carry
out, and it starts each token with all of them. -/
def program (rules : List Rule) : Program (List Rule) :=
  ⟨rules, request rules⟩

end Rule

end FrontEnd.Scan
