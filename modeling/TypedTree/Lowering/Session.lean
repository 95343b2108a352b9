import TypedTree.Fragment.Walk
import TypedTree.Lowering.Stub
import TypedTree.Lowering.Tree

namespace TypedTree

structure Session where
  setting : Setting
  state : State := {}
  files : List TreeFile := []
  external : List DeclId := []

namespace Session

def start (world : World) (config : Config) : Session := { setting := ⟨world, config⟩ }

/-- Runs a step; the session keeps what the step made, also if it fails. -/
def run {α : Type} (s : Session) (m : Lower α) : Except LowerError α × Session :=
  let (result, state) := m.runFrom s.setting s.state
  (result, { s with state := state })

/-- Lowers files in order, up to the first that fails. -/
def lowerEach (s : Session) : List SourceFile → Except LowerError Unit × Session
  | [] => (.ok (), s)
  | file :: rest =>
    match s.run (Lower.lowerFile file) with
    | (.ok lowered, s) => lowerEach { s with files := s.files ++ [lowered] } rest
    | (.error e, s) => (.error e, s)

def lowerFiles (s : Session) : Except LowerError Unit × Session :=
  s.lowerEach s.setting.world.tree.files

/-- Declares what is referred to and not declared so far. -/
def generateStubs (s : Session) : Except LowerError Unit × Session :=
  match s.run Lower.generateStubs with
  | (.ok roots, s) => (.ok (), { s with external := s.external ++ roots })
  | (.error e, s) => (.error e, s)

/-- The declaration for a descriptor, which is a stub if the unit has none. -/
def declarationFor (s : Session) (desc : DescId) : Except LowerError DeclId × Session :=
  s.run do Lower.declaration (← Lower.symbolFor desc) desc

def fragment (s : Session) : Fragment where
  name := s.setting.config.moduleName
  files := s.files
  external := s.external
  symbols := s.state.table.symbols
  store := s.state.store

/-- The names of the symbols that the tree refers to and that have no declaration. -/
def unboundNames (s : Session) : List Name :=
  let names := s.fragment.references.symbols.filterMap fun id =>
    (s.fragment.symbol? ⟨id⟩).bind fun symbol => if symbol.isBound then none else some symbol.name
  names.mergeSort fun a b => decide (a ≤ b)

/-- Declares what is missing and hands over the typed tree. -/
def finish (s : Session) : Except LowerError Fragment × Session :=
  match s.generateStubs with
  | (.error e, s) => (.error e, s)
  | (.ok (), s) =>
    if s.setting.config.verifyBound && !s.unboundNames.isEmpty then
      (.error (.unboundSymbols s.unboundNames), s)
    else (.ok s.fragment, s)

def stats (s : Session) : Stats := s.state.stats

end Session

def lowerModule (world : World) (config : Config) : Except LowerError Fragment :=
  match (Session.start world config).lowerFiles with
  | (.error e, _) => .error e
  | (.ok (), s) => s.finish.1

end TypedTree
