import Relink.Change

/-! # References

A text refers to a resource in one of three ways: a call of `load` or `preload` with a resource path, such
a call with a path that starts with `./`, and an attribute `path` with a resource path. The path is a
nonempty run of characters without quotes, after the mark `res://` or `./`. -/

namespace Relink

/-- The two functions that load a resource. -/
inductive Callee where
  | load
  | preload
  deriving DecidableEq, Repr

namespace Callee

/-- The function's name. -/
def name : Callee → Text
  | load => "load".toList
  | preload => "preload".toList

end Callee

/-- A reference to a resource. -/
inductive Reference where
  /-- A call with a resource path. -/
  | load (callee : Callee) (path : Text)
  /-- A call with a path that starts with `./`, of which `path` is the rest. -/
  | relativeLoad (callee : Callee) (path : Text)
  /-- An attribute `path` with a resource path. -/
  | extResource (path : Text)
  deriving DecidableEq, Repr

namespace Reference

/-- How references are written. -/
inductive Form where
  | load
  | relativeLoad
  | extResource
  deriving DecidableEq, Repr

/-- The form of a reference. -/
def form : Reference → Form
  | load .. => .load
  | relativeLoad .. => .relativeLoad
  | extResource .. => .extResource

/-- The path that a reference is recorded with: a resource path whole, another one without `./`. -/
def path : Reference → Text
  | load _ path => path
  | relativeLoad _ path => path
  | extResource path => path

/-- How a record names the form of a reference. -/
def kind : Reference → Change.Kind
  | load .. => .load
  | relativeLoad .. => .relativeLoad
  | extResource .. => .extResource

/-- The name that a reference leads by. -/
def name (reference : Reference) : Text := Resource.basename reference.path

/-- Whether a reference already leads to `target`. One that starts with `./` never does, because it is
    no resource path. -/
def leadsTo (reference : Reference) (target : Text) : Bool :=
  match reference with
  | load _ path => path = target
  | relativeLoad .. => false
  | extResource path => path = target

/-- The text that refers to `target` instead. -/
def redirected (reference : Reference) (target : Text) : Text :=
  match reference with
  | load callee _ => callee.name ++ ['(', '\x22'] ++ target ++ ['\x22', ')']
  | relativeLoad callee _ => callee.name ++ ['(', '\x22'] ++ target ++ ['\x22', ')']
  | extResource _ => "path=".toList ++ ['\x22'] ++ target ++ ['\x22']

end Reference

end Relink
