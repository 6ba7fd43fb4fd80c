import AddressProtocols.Json.Token
import AddressProtocols.Json.Tree

/-!
# Reading JSON

A push-down machine reads a JSON text token by token.

* `Json.Builder` says what becomes of each kind of value; numbers, constants and finished objects
  may be refused, at once and wherever they stand;
* `Json.State` is what the machine knows between two tokens: the containers that are open and what
  may come next;
* `Json.step` takes one token, `Json.finish` ends the text, `Json.run` does both over a text;
* `Json.read` reads a whole text with a builder, and `Json.parse` is `read` with the builder that
  refuses nothing.

Containers may be nested up to `maxDepth` levels.
-/

namespace AddressProtocols

namespace Json

/-- The deepest nesting of arrays and objects. -/
def maxDepth : Nat := 1000

/-- What becomes of the values of a JSON text. -/
structure Builder (ε α : Type) where
  null : α
  bool : Bool → α
  string : Text → α
  array : List α → α
  integer : Text → Except ε α
  real : Text → Except ε α
  constant : Text → Except ε α
  object : List (Text × α) → Except ε α

inductive Fault (ε : Type) where
  /-- A mistake at a position counted in code points from the start. -/
  | mistake (mistake : Mistake) (position : Nat)
  | tooDeep
  /-- The builder refused a value. -/
  | refused (reason : ε)

/-- A container that is open: its parts so far, last first. -/
inductive Frame (α : Type) where
  | array (items : List α)
  | object (members : List (Text × α)) (name : Text)

/-- What the machine knows between two tokens, inside the containers that are open. -/
inductive State (α : Type) where
  /-- A value is due. -/
  | value (frames : List (Frame α))
  /-- An array was opened: its first item or its end is due. -/
  | firstItem (frames : List (Frame α))
  /-- An object was opened: its first name or its end is due. -/
  | firstName (frames : List (Frame α))
  | name (members : List (Text × α)) (frames : List (Frame α))
  | colon (members : List (Text × α)) (name : Text) (frames : List (Frame α))
  /-- A value is complete: a comma or the end of its container is due. -/
  | after (value : α) (frames : List (Frame α))

namespace State

def frames {α : Type} : State α → List (Frame α)
  | value fs => fs
  | firstItem fs => fs
  | firstName fs => fs
  | name _ fs => fs
  | colon _ _ fs => fs
  | after _ fs => fs

end State

section Machine

variable {ε α : Type} (build : Builder ε α)

/-- The state after a value that the builder may refuse. -/
def complete (frames : List (Frame α)) (value : Except ε α) : Except (Fault ε) (State α) :=
  match value with
  | .ok v => .ok (.after v frames)
  | .error reason => .error (.refused reason)

/-- The state `next` inside one more container, unless the nesting is at its limit. -/
def descend (frames : List (Frame α)) (next : State α) : Except (Fault ε) (State α) :=
  if frames.length < maxDepth then .ok next else .error .tooDeep

def stepValue (frames : List (Frame α)) (position : Nat) : Token → Except (Fault ε) (State α)
  | .null => .ok (.after build.null frames)
  | .bool b => .ok (.after (build.bool b) frames)
  | .string t => .ok (.after (build.string t) frames)
  | .integer numeral => complete frames (build.integer numeral)
  | .real numeral => complete frames (build.real numeral)
  | .constant name => complete frames (build.constant name)
  | .leftBracket => descend frames (.firstItem frames)
  | .leftBrace => descend frames (.firstName frames)
  | .badString mistake offset => .error (.mistake mistake (position + offset))
  | _ => .error (.mistake .expectedValue position)

def stepName (members : List (Text × α)) (frames : List (Frame α)) (position : Nat) :
    Token → Except (Fault ε) (State α)
  | .string t => .ok (.colon members t frames)
  | .badString mistake offset => .error (.mistake mistake (position + offset))
  | _ => .error (.mistake .expectedName position)

def stepAfter (value : α) (position : Nat) :
    List (Frame α) → Token → Except (Fault ε) (State α)
  | [], _ => .error (.mistake .extraData position)
  | .array items :: frames, .comma => .ok (.value (.array (value :: items) :: frames))
  | .array items :: frames, .rightBracket =>
    .ok (.after (build.array (value :: items).reverse) frames)
  | .object members name :: frames, .comma => .ok (.name ((name, value) :: members) frames)
  | .object members name :: frames, .rightBrace =>
    complete frames (build.object ((name, value) :: members).reverse)
  | _, _ => .error (.mistake .expectedComma position)

/-- The state after a token that starts at `position`. -/
def step (state : State α) (position : Nat) (token : Token) : Except (Fault ε) (State α) :=
  match state with
  | .value frames => stepValue build frames position token
  | .firstItem frames =>
    if token = .rightBracket then .ok (.after (build.array []) frames)
    else stepValue build (.array [] :: frames) position token
  | .firstName frames =>
    if token = .rightBrace then complete frames (build.object [])
    else stepName [] frames position token
  | .name members frames => stepName members frames position token
  | .colon members name frames =>
    if token = .colon then .ok (.value (.object members name :: frames))
    else .error (.mistake .expectedColon position)
  | .after value frames => stepAfter build value position frames token

/-- The value of a text that ends at `position`. -/
def finish (position : Nat) : State α → Except (Fault ε) α
  | .after value [] => .ok value
  | .after _ _ => .error (.mistake .expectedComma position)
  | .value _ => .error (.mistake .expectedValue position)
  | .firstItem _ => .error (.mistake .expectedValue position)
  | .firstName _ => .error (.mistake .expectedName position)
  | .name _ _ => .error (.mistake .expectedName position)
  | .colon _ _ _ => .error (.mistake .expectedColon position)

/-- Reads a text from `position` on. -/
def run (state : State α) (position : Nat) : Text → Except (Fault ε) α
  | [] => finish position state
  | c :: rest =>
    if isSpace c then run state (position + 1) rest
    else
      let (token, n) := scan c rest
      match step build state position token with
      | .error fault => .error fault
      | .ok next => run next (position + 1 + n) (rest.drop n)
  termination_by t => t.length
  decreasing_by all_goals simp; try omega

/-- Reads a whole text; a byte order mark in front is a mistake. -/
def read (t : Text) : Except (Fault ε) α :=
  if t.head? = some (.scalar '\uFEFF') then .error (.mistake .byteOrderMark 0)
  else run build (.value []) 0 t

end Machine

/-- The builder of trees, which refuses nothing. -/
def treeBuilder : Builder Empty Tree where
  null := .null
  bool := .bool
  string := .string
  array := .array
  integer numeral := .ok (.integer numeral)
  real numeral := .ok (.real numeral)
  constant name := .ok (.constant name)
  object members := .ok (.object members)

def parse (t : Text) : Except (Fault Empty) Tree := read treeBuilder t

/-- The line of a position, counted from one. -/
def lineOf (t : Text) (position : Nat) : Nat := (t.take position).count (.scalar '\n') + 1

/-- The column of a position in its line, counted from one. -/
def columnOf (t : Text) (position : Nat) : Nat :=
  ((t.take position).reverse.takeWhile (· != .scalar '\n')).length + 1

end Json

end AddressProtocols
