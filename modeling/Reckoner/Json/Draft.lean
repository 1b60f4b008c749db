import Reckoner.Json.Token

/-!
# Drafts

A draft is what a text spells up to its first fault.  It keeps the entries of an
object in the order of the text, repeated names included, and where the text goes
wrong it holds the fault in the place where a reader would meet it.  Reading a
record from a draft therefore reports what comes first in the text, a fault of the
text or a value of the wrong kind.

`build` is a machine that takes the tokens one by one.  Its stack holds the arrays
and objects that are open around the place it has reached.
-/

namespace Reckoner
namespace Json

/-- What a text spells up to its first fault. A fault in the place of a closing bracket is the
`ending` of an array or object, and a value at which the text breaks off is `broken`. -/
inductive Draft where
  | null
  | bool (value : Bool)
  | num (read : Except Fault Number)
  | str (read : Except Fault String)
  | arr (items : List Draft) (ending : Option Fault)
  | obj (entries : List (Except Fault String × Draft)) (ending : Option Fault)
  | broken (read skip : Fault)

namespace Draft

inductive Open where
  | arr (items : List Draft)
  | obj (entries : List (Except Fault String × Draft))

def Open.close (ending : Option Fault) : Open -> Draft
  | .arr items => .arr items.reverse ending
  | .obj entries => .obj entries.reverse ending

inductive Slot where
  | item (items : List Draft)
  | entry (entries : List (Except Fault String × Draft)) (name : Except Fault String)

def Slot.fill (value : Draft) : Slot -> Open
  | .item items => .arr (value :: items)
  | .entry entries name => .obj ((name, value) :: entries)

/-- Puts a value at which the text breaks off into everything open around it. -/
def abandon (value : Draft) (stack : List Slot) : Draft :=
  stack.foldl (fun inner slot => (slot.fill inner).close none) value

inductive Place where
  /-- before a value -/
  | value
  /-- after the opening bracket -/
  | opened (inside : Open)
  /-- after a complete item or entry -/
  | filled (inside : Open)
  /-- before a name that a comma has announced -/
  | name (entries : List (Except Fault String × Draft))
  /-- after a name -/
  | named (entries : List (Except Fault String × Draft)) (name : Except Fault String)

inductive Step where
  | goOn (place : Place) (stack : List Slot)
  | finished (root : Draft)

def complete (value : Draft) : (stack : List Slot) -> Step
  | [] => .finished value
  | slot :: stack => .goOn (.filled (slot.fill value)) stack

def leaf (value : Draft) (read : Fault) (skip : Option Fault) (stack : List Slot) : Step :=
  match skip with
  | none => complete value stack
  | some skip => .finished (abandon (.broken read skip) stack)

def faultOf {α : Type} : Except Fault α -> Fault
  | .error fault => fault
  | .ok _ => .wrong

def takeValue (stack : List Slot) : Token -> Step
  | .null skip => leaf .null (skip.getD .wrong) skip stack
  | .bool value skip => leaf (.bool value) (skip.getD .wrong) skip stack
  | .num read skip => leaf (.num read) (faultOf read) skip stack
  | .str read skip => leaf (.str read) (faultOf read) skip stack
  | .openArray => .goOn (.opened (.arr [])) stack
  | .openObject => .goOn (.opened (.obj [])) stack
  | _ => .finished (abandon (.broken .wrong .wrong) stack)

def takeName (entries : List (Except Fault String × Draft)) (stack : List Slot) : Token -> Step
  | .str read none => .goOn (.named entries read) stack
  | .str read (some skip) =>
      .finished (abandon (.broken (faultOf read) skip) (.entry entries read :: stack))
  | _ => .finished (abandon ((Open.obj entries).close (some .wrong)) stack)

def takeFirst (stack : List Slot) : Open -> Token -> Step
  | .arr items, .closeArray => complete (.arr items.reverse none) stack
  | .arr items, token => takeValue (.item items :: stack) token
  | .obj entries, .closeObject => complete (.obj entries.reverse none) stack
  | .obj entries, token => takeName entries stack token

def takeNext (stack : List Slot) : Open -> Token -> Step
  | .arr items, .comma => .goOn .value (.item items :: stack)
  | .arr items, .closeArray => complete (.arr items.reverse none) stack
  | .obj entries, .comma => .goOn (.name entries) stack
  | .obj entries, .closeObject => complete (.obj entries.reverse none) stack
  | inside, _ => .finished (abandon (inside.close (some .wrong)) stack)

def step (stack : List Slot) (token : Token) : Place -> Step
  | .value => takeValue stack token
  | .opened inside => takeFirst stack inside token
  | .filled inside => takeNext stack inside token
  | .name entries => takeName entries stack token
  | .named entries name =>
      match token with
      | .colon => .goOn .value (.entry entries name :: stack)
      | _ => .finished (abandon (.broken .wrong .wrong) (.entry entries name :: stack))

def cutAt (stack : List Slot) : Place -> Draft
  | .value => abandon (.broken .cut .cut) stack
  | .opened inside => abandon (inside.close (some .cut)) stack
  | .filled inside => abandon (inside.close (some .cut)) stack
  | .name entries => abandon ((Open.obj entries).close (some .cut)) stack
  | .named entries name => abandon (.broken .cut .cut) (.entry entries name :: stack)

/-- The draft that tokens spell, and the tokens after it. -/
def build (place : Place) (stack : List Slot) : List Token -> Draft × List Token
  | [] => (cutAt stack place, [])
  | token :: rest =>
      match step stack token place with
      | .goOn place stack => build place stack rest
      | .finished root => (root, rest)

def ofText (text : String) : Draft × Bool :=
  let (root, rest) := build .value [] (Token.tokens text.toList)
  (root, !rest.isEmpty)

/-!
# Passing over
-/

mutual

/-- The first fault that a reader meets who passes over the value. -/
def skipFault? : Draft -> Option Fault
  | .arr items ending => (skipItems? items).or ending
  | .obj entries ending => (skipEntries? entries).or ending
  | .broken _ skip => some skip
  | .null => none
  | .bool _ => none
  | .num _ => none
  | .str _ => none

def skipItems? : List Draft -> Option Fault
  | [] => none
  | item :: rest => item.skipFault?.or (skipItems? rest)

def skipEntries? : List (Except Fault String × Draft) -> Option Fault
  | [] => none
  | (_, value) :: rest => value.skipFault?.or (skipEntries? rest)

end

/-!
# Values as drafts
-/

mutual

def ofJson : Json -> Draft
  | .null => .null
  | .bool value => .bool value
  | .num value => .num (.ok value)
  | .str value => .str (.ok value)
  | .arr items => .arr (ofItems items) none
  | .obj entries => .obj (ofEntries entries) none

def ofItems : List Json -> List Draft
  | [] => []
  | item :: rest => ofJson item :: ofItems rest

def ofEntries : List (String × Json) -> List (Except Fault String × Draft)
  | [] => []
  | (name, value) :: rest => (.ok name, ofJson value) :: ofEntries rest

end

end Draft
end Json
end Reckoner
