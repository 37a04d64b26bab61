import QuickFix.Text.Quoted

/-!
# Messages

The texts that the quick fix shows. A text is found by its key and has numbered places for arguments.
-/

namespace QuickFix.Fix

/-- A text that the quick fix shows. -/
inductive Message where
  /-- What the fix offers to do for a name. -/
  | createClass
  /-- What all such fixes do. -/
  | family
  /-- A file template made no class. -/
  | noClass
  /-- A class could not be created. -/
  | cannotCreate
  /-- Title for the text that a class could not be created. -/
  | cannotCreateTitle
  deriving DecidableEq, Repr

namespace Message

/-- All messages. -/
def all : List Message := [.createClass, .family, .noClass, .cannotCreate, .cannotCreateTitle]

/-- The key of a message. -/
def key : Message → Text
  | .createClass => "create.class.text"
  | .family => "create.class.family.name"
  | .noClass => "no.class.in.file.template"
  | .cannotCreate => "cannot.create.class.error.text"
  | .cannotCreateTitle => "cannot.create.class.error.title"

/-- The message with a key. -/
def ofKey? (k : Text) : Option Message := all.find? fun m => m.key = k

/-- The text of a message, with places for its arguments. -/
def pattern : Message → Text
  | .createClass => "Create class '\x7b0\x7d'"
  | .family => "Create Class"
  | .noClass => "No class found in file template"
  | .cannotCreate => "Cannot create class '\x7b0\x7d': \x7b1\x7d"
  | .cannotCreateTitle => "Cannot Create Class"

/-- The place for the argument number `i`. -/
def place (i : Nat) : Text := '\x7b' :: Text.ofNat i ++ ['\x7d']

/-- Put the arguments into the places of a text, from number `i` on, one argument after the other. A
place that an argument brings in is filled by a later argument. -/
def fill (i : Nat) : List Text → Text → Text
  | [], t => t
  | arg :: args, t => fill (i + 1) args (Text.replaceAll (place i) arg t)

/-- The message with its arguments. -/
def render (m : Message) (args : List Text) : Text := fill 0 args m.pattern

end Message

/-- What the fix offers to do for a name. -/
def createText (name : Text) : Text := Message.createClass.render [name]

/-- That the class `name` could not be created, and why. -/
def cannotCreateText (name cause : Text) : Text := Message.cannotCreate.render [name, cause]

end QuickFix.Fix
