import Bytewalk.Host.Registry
import Bytewalk.Program.NameTable
import Bytewalk.Scope.Store

/-!
# Bindings

What the cells of a run hold: variables and declared entities. An entity carries a qualified name,
which tells the modules around its declaration.
-/

namespace Bytewalk

/-- The modules around a declaration, outermost first, and the declared symbol itself. -/
structure QualifiedName where
  /-- The modules around the declaration, outermost first. -/
  parent : List Symbol
  /-- The declared symbol. -/
  symbol : Symbol
  deriving DecidableEq

namespace QualifiedName

/-- The modules and then the symbol itself. -/
def path (name : QualifiedName) : List Symbol :=
  name.parent ++ [name.symbol]

/-- The names along the path with points between them. -/
def render (name : QualifiedName) (names : NameTable) : String :=
  ".".intercalate (name.path.map names.display)

end QualifiedName

/-- A list for inspection. -/
def inspectList {α : Type} (inspect : α → String) (items : List α) : String :=
  "[" ++ ", ".intercalate (items.map inspect) ++ "]"

/-- A qualified name for inspection. -/
def QualifiedName.inspect (name : QualifiedName) : String :=
  inspectList Symbol.inspect name.path

/-- A function of the program. -/
structure Function where
  /-- Its qualified name. -/
  name : QualifiedName
  /-- Its parameters in order. -/
  params : List Symbol
  /-- The offset of its body. -/
  body : Nat
  /-- The scope that holds its parameters as placeholders; calls run inside it. -/
  closure : Scope

/-- A class of the program. Its members are known by where they begin and are not executed. -/
structure ClassInfo where
  /-- Its qualified name. -/
  name : QualifiedName
  /-- Where its fields begin. -/
  fields : List Nat
  /-- Where its methods begin. -/
  methods : List Nat
  /-- The scope of its declaration. -/
  closure : Scope

/-- A module of the program after its members have been executed. -/
structure ModuleInfo where
  /-- Its qualified name. -/
  name : QualifiedName
  /-- The scope of its members. -/
  scope : Scope

/-- What a cell holds. -/
inductive Binding (σ : Type) where
  /-- A variable, or a constant, and its value. -/
  | variable (constant : Bool) (value : Value)
  /-- A function of the program. -/
  | function (f : Function)
  /-- A class. -/
  | classInfo (c : ClassInfo)
  /-- A module. -/
  | module (m : ModuleInfo)
  /-- A function of the host and the name it was bound under. -/
  | host (name : QualifiedName) (f : HostFunction σ)

namespace Binding

variable {σ : Type}

/-- A variable without a value yet. -/
def uninitialized : Binding σ := .variable false .null

instance : Inhabited (Binding σ) := ⟨uninitialized⟩

/-- What kind of binding this is. -/
def kind : Binding σ → String
  | .variable .. => "variable"
  | .function _ => "function"
  | .classInfo _ => "class"
  | .module _ => "module"
  | .host .. => "host function"

/-- The value of a variable; everything else counts as null. -/
def value : Binding σ → Value
  | .variable _ value => value
  | _ => .null

/-- Whether the binding is a constant, if it is a variable at all. -/
def constant? : Binding σ → Option Bool
  | .variable constant _ => some constant
  | _ => none

/-- The binding with another value, if it is a variable. -/
def withValue? (value : Value) : Binding σ → Option (Binding σ)
  | .variable constant _ => some (.variable constant value)
  | _ => none

/-- The qualified name of everything but a variable. -/
def name? : Binding σ → Option QualifiedName
  | .variable .. => none
  | .function f => some f.name
  | .classInfo c => some c.name
  | .module m => some m.name
  | .host name _ => some name

/-- The printed form: the value of a variable, and the name of anything else. -/
def render (names : NameTable) (binding : Binding σ) : String :=
  match binding.name? with
  | some name => "<" ++ name.render names ++ ">"
  | none => binding.value.display

/-- The binding for inspection. -/
def inspect : Binding σ → String
  | .variable constant value =>
    "Var \x7b is_const: " ++ toString constant ++ ", value: " ++ value.inspect ++ " \x7d"
  | .function f =>
    "Function(Function \x7b name: " ++ f.name.inspect ++ ", params: "
      ++ inspectList Symbol.inspect f.params ++ ", body: " ++ toString f.body ++ ", .. \x7d)"
  | .classInfo c =>
    "Class(Class \x7b name: " ++ c.name.inspect ++ ", variable_offsets: "
      ++ inspectList toString c.fields ++ ", method_offsets: "
      ++ inspectList toString c.methods ++ ", .. \x7d)"
  | .module m => "Env(ModuleScope \x7b name: " ++ m.name.inspect ++ ", .. \x7d)"
  | .host name f =>
    "ExtFunction \x7b name: " ++ name.inspect ++ ", native: " ++ f.inspect ++ " \x7d"

end Binding

end Bytewalk
