import DotLang.Model.Geometry
import DotLang.Model.Regeneration
import DotLang.Tree.TaggedForm
import DotLang.Tree.Text
import DotLang.Walk

/-!
# From a tree to a model and to text

Loading walks a tree, typed or in its tagged form, into a model. Converting also
writes the regenerated tree of the model as DOT text.
-/

namespace DotLang

/-- Why a tree could not be loaded or written. -/
inductive Failure where
  /-- The tagged form of the tree is malformed. -/
  | malformed (malformed : Malformed)
  /-- The walk stopped. -/
  | walk (error : WalkError)
  /-- A coordinate could not be computed or written. -/
  | number (fault : NumberFault)
  /-- An edge has an endpoint that cannot be written. -/
  | unwritable (missing : MissingNode)

/-- The wording of a failure. -/
def Failure.message : Failure → String
  | .malformed fault => fault.message
  | .walk error => error.message
  | .number fault => fault.message
  | .unwritable missing => missing.found.typeName ++ " is no node reference"

/-- What a walk leaves behind: the model with its reports, and the failure that stopped it. -/
structure WalkResult where
  /-- The model as far as it was recorded. -/
  model : Model
  /-- The reports of the walk. -/
  events : List WalkEvent
  /-- Why the walk stopped early. -/
  failure : Option Failure

namespace Model

/-- Walks a tree into a model without a typed pass. -/
def walkPlain (options : WalkOptions) (tree : Tree) (model : Model) : WalkResult :=
  match (Walk.document options tree).run { model } with
  | .ok _ state => ⟨state.model, state.events, none⟩
  | .error error state => ⟨state.model, state.events, some (.walk error)⟩

/-- Gives a model its typed geometry after a walk that did not stop. -/
def retypeResult (geometry : Geometry) (result : WalkResult) : WalkResult :=
  match geometry, result.failure with
  | .typed _, none =>
      let (model, fault) := result.model.retype geometry
      { result with model, failure := fault.map .number }
  | _, _ => result

/-- Walks a tree into a model. -/
def walk (options : WalkOptions) (geometry : Geometry) (tree : Tree) (model : Model) : WalkResult :=
  retypeResult geometry (walkPlain options tree model)

/-- The regenerated tree of a model in DOT text, without a line break at its end. -/
def toText (geometry : Geometry) (indent : String) (model : Model) : Except Failure String :=
  match model.toTree geometry.encode with
  | .error fault => .error (.number fault)
  | .ok tree =>
      match tree.toText indent 0 true with
      | .error missing => .error (.unwritable missing)
      | .ok text => .ok text

end Model

/-- Walks a tree, typed or in its tagged form, into a new model. -/
def load (options : WalkOptions) (geometry : Geometry) (tree : Tree) : WalkResult :=
  if tree.isTaggedForm then
    match tree.interpret options.isStrict with
    | .ok typed => Model.walk options geometry typed ∅
    | .error malformed => ⟨∅, [], some (.malformed malformed)⟩
  else Model.walk options geometry tree ∅

/-- Resolves a tree and writes the regenerated graph as DOT text. -/
def convert (options : WalkOptions) (geometry : Geometry) (indent : String) (tree : Tree) :
    Except Failure String :=
  let loaded := load options geometry tree
  match loaded.failure with
  | some failure => .error failure
  | none => do return (← loaded.model.toText geometry indent) ++ "\n"

end DotLang
