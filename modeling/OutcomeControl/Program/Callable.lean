import OutcomeControl.Program.Statement

/-! Callables with their specializations, user-defined types, namespaces and the compilation. -/

namespace OutcomeControl

/-- A declared name, or the place of one that is not valid. -/
inductive Symbol where
  | valid (name : String)
  | invalid
deriving DecidableEq

def Symbol.name? : Symbol → Option String
  | .valid name => some name
  | .invalid => none

/-- The parameters of a callable, in nested tuples. -/
inductive Params where
  | item (d : Declaration Symbol)
  | tuple (items : List Params)

/-- The parameters of a callable that takes the unit value. -/
def Params.unit : Params := .tuple []

structure Signature where
  typeParameters : List Symbol := []
  argument : Ty
  result : Ty
  characteristics : List Characteristic := []

inductive CallableKind where
  | operation | function | constructor
deriving DecidableEq

inductive SpecializationKind where
  | body | adjoint | controlled | controlledAdjoint
deriving DecidableEq

def SpecializationKind.keyword : SpecializationKind → String
  | .body => "body"
  | .adjoint => "adjoint"
  | .controlled => "controlled"
  | .controlledAdjoint => "controlled adjoint"

inductive Implementation where
  | provided (params : Params) (scope : Scope)
  | intrinsic
  | external
  | generated (directive : String)

structure Specialization where
  kind : SpecializationKind
  parent : QualifiedName
  sourceFile : String := ""
  location : Option Location := none
  typeArguments : Option (List Ty) := none
  signature : Signature
  implementation : Implementation
  documentation : List String := []
  comments : Comments := {}

structure Callable where
  kind : CallableKind
  name : QualifiedName
  sourceFile : String := ""
  location : Option Location := none
  signature : Signature
  params : Params
  specializations : List Specialization
  documentation : List String := []
  comments : Comments := {}

/-- The first body among the specializations. -/
def Callable.body? (c : Callable) : Option Specialization :=
  c.specializations.find? (·.kind = .body)

structure CustomType where
  name : QualifiedName
  underlying : Ty
  sourceFile : String := ""
  location : Option Location := none
  documentation : List String := []
  comments : Comments := {}

inductive Element where
  | callable (c : Callable)
  | customType (t : CustomType)

def Element.callable? : Element → Option Callable
  | .callable c => some c
  | .customType _ => none

structure Namespace where
  name : String
  elements : List Element

namespace Namespace

def callables (ns : Namespace) : List Callable := ns.elements.filterMap Element.callable?

/-- The first callable with this unqualified name. -/
def callable? (ns : Namespace) (name : String) : Option Callable :=
  ns.callables.find? (·.name.name = name)

end Namespace

structure Compilation where
  namespaces : List Namespace
  entryPoints : List QualifiedName := []

/-- How many callables all namespaces declare together. -/
def Compilation.callableCount (c : Compilation) : Nat :=
  (c.namespaces.flatMap Namespace.callables).length

end OutcomeControl
