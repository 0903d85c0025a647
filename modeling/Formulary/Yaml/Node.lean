/-!
# YAML nodes

A document is a scalar, a list or a map.  A node that was given a name can be used again under it.
-/

namespace Formulary.Yaml

inductive Node where
  /-- A scalar and its tag; that is empty if the text alone tells what the scalar stands for. -/
  | scalar (text tag : String)
  | list (items : List Node)
  | map (entries : List (Node × Node))
  /-- A node used again under its name; none if it is used within itself. -/
  | reference (name : String) (target : Option Node)
  deriving Repr, Inhabited

namespace Node

/-- A node of which nothing is written. -/
def missing : Node := .scalar "" ""

/-- The tag of texts. -/
def textTag : String := "!!str"

/-- The tag of the key under which other maps are merged into a map. -/
def mergeTag : String := "!!merge"

/-- What the tags of the format start with, in full and in short. -/
def tagRoot : String := "tag:yaml.org,2002:"

def shortTag (tag : String) : String :=
  match (tagRoot.toList).isPrefixOf? tag.toList with
  | some rest => "!!" ++ String.ofList rest
  | none => tag

/-- The scalar with a text and a tag.  Without a tag, or with the empty one, a scalar that is not
plain is a text. -/
def ofScalar (text : String) (plain : Bool) (tag : String) : Node :=
  if tag != "" && tag != "!" then .scalar text (shortTag tag)
  else if !plain then .scalar text textTag
  else if text == "<<" then .scalar text mergeTag
  else .scalar text ""

/-- Whether the node is the key under which other maps are merged into a map. -/
def isMergeKey : Node → Bool
  | .scalar text tag => text == "<<" && tag == mergeTag
  | _ => false

/-- Whether two keys are written the same.  Of lists and of maps a map can have but one as a key. -/
def sameKey : Node → Node → Bool
  | .scalar a _, .scalar b _ => a == b
  | .list _, .list _ => true
  | .map _, .map _ => true
  | .reference a _, .reference b _ => a == b
  | _, _ => false

end Node

end Formulary.Yaml
