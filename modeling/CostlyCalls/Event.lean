import CostlyCalls.Error

/-!
# The log

Everything the library reports besides its results is an event with a level. `Logged` pairs a value
with the events of its computation, in the order in which they happened.
-/

set_option autoImplicit false

namespace CostlyCalls

def configFileName : String := "collection-lint.toml"

inductive Level
  | warn
  | debug
  deriving DecidableEq, Repr

inductive Event
  | unknownConfigured (key : String)
  | unknownFormat (format : String)
  | configLoaded (path : Path)
  | unknownSuppressed (rule : String) (origin : Path)
  | malformedSuppressed (fault : RuleId.Fault) (origin : Path)
  | unjustified (rule : RuleId) (origin : Path)
  | registered (count : Nat)
  | engineReady (enabled total : Nat) (facade : String)
  | analyzing (file : Path) (nodes : Nat)
  | cancelled (file : Path)
  | crashed (rule : RuleId) (node : NodeId) (file : Path) (payload : Option String)
  | suppressed (rule : RuleId) (file : Path) (line : UInt64)
  | failed (file : Path) (error : Error)
  | discovered (count : Nat) (root : Path)
  | oversized (file : Path) (size limit : Nat)
  | unreachable (file : Path) (fault : FileFault)
  deriving DecidableEq, Repr

namespace Event

def level : Event → Level
  | .unknownConfigured .. | .unknownFormat .. | .unknownSuppressed .. | .malformedSuppressed ..
  | .crashed .. | .failed .. | .oversized .. | .unreachable .. => .warn
  | .configLoaded .. | .unjustified .. | .registered .. | .engineReady .. | .analyzing ..
  | .cancelled .. | .suppressed .. | .discovered .. => .debug

def text : Event → String
  | .unknownConfigured key =>
    "Unknown rule '" ++ key ++ "' in " ++ configFileName ++ " (will be ignored)"
  | .unknownFormat format => "Unknown output format '" ++ format ++ "' in config, using console"
  | .configLoaded path => "loaded config from " ++ path.text
  | .unknownSuppressed rule origin =>
    "Unknown rule '" ++ rule ++ "' in " ++ origin.text ++ " (entry ignored)"
  | .malformedSuppressed fault origin =>
    fault.message ++ " in " ++ origin.text ++ " (entry ignored)"
  | .unjustified rule origin =>
    "suppression of " ++ rule.toText ++ " in " ++ origin.text ++ " has no justification"
  | .registered count => "registered " ++ count.repr ++ " rules"
  | .engineReady enabled total facade =>
    "engine ready: " ++ enabled.repr ++ " of " ++ total.repr ++ " rules enabled, facade " ++ facade
  | .analyzing file nodes => "analyzing " ++ file.text ++ " (" ++ nodes.repr ++ " nodes)"
  | .cancelled file => "analysis of " ++ file.text ++ " cancelled"
  | .crashed rule node file payload =>
    "Rule '" ++ rule.toText ++ "' panicked on node " ++ node.display ++ " in " ++ file.text ++ ": "
      ++ payload.getD "(unknown panic payload)"
  | .suppressed rule file line =>
    "suppressed " ++ rule.toText ++ " at " ++ file.text ++ ":" ++ line.toNat.repr
  | .failed file error => "Failed to analyze " ++ file.text ++ ": " ++ error.message
  | .discovered count root =>
    "discovered " ++ count.repr ++ " snapshot files under " ++ root.text
  | .oversized file size limit =>
    "Skipping " ++ file.text ++ " (" ++ size.repr ++ " bytes exceeds the " ++ limit.repr
      ++ " byte limit)"
  | .unreachable file fault => "Cannot read metadata for " ++ file.text ++ ": " ++ fault.text

end Event

structure Logged (α : Type) where
  value : α
  log : List Event := []
  deriving Repr

namespace Logged

def map {α β : Type} (f : α → β) (x : Logged α) : Logged β := ⟨f x.value, x.log⟩

def bind {α β : Type} (x : Logged α) (f : α → Logged β) : Logged β :=
  ⟨(f x.value).value, x.log ++ (f x.value).log⟩

instance : Monad Logged where
  pure a := ⟨a, []⟩
  bind := bind
  map := map

@[simp] theorem value_bind {α β : Type} (x : Logged α) (f : α → Logged β) :
    (x >>= f).value = (f x.value).value := rfl

@[simp] theorem log_bind {α β : Type} (x : Logged α) (f : α → Logged β) :
    (x >>= f).log = x.log ++ (f x.value).log := rfl

def andThen {ε α β : Type} (x : Logged (Except ε α)) (f : α → Logged (Except ε β)) :
    Logged (Except ε β) :=
  x.bind fun
    | .ok a => f a
    | .error e => ⟨.error e, []⟩

theorem andThen_ok {ε α β : Type} {x : Logged (Except ε α)} {a : α}
    (f : α → Logged (Except ε β)) (hx : x.value = .ok a) :
    x.andThen f = ⟨(f a).value, x.log ++ (f a).log⟩ := by
  simp only [andThen, bind, hx]

theorem andThen_error {ε α β : Type} {x : Logged (Except ε α)} {e : ε}
    (f : α → Logged (Except ε β)) (hx : x.value = .error e) :
    x.andThen f = ⟨.error e, x.log⟩ := by
  simp only [andThen, bind, hx, List.append_nil]

end Logged

end CostlyCalls
