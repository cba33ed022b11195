import DocTypes.Numeral

/-!
# Configuration

Three settings govern a resolution: whether warnings are logged with what they are about, whether
the first warning stops the resolution, and how deep brackets may nest.

* `Config.ofJson`  the configuration that an object describes; a missing setting has its default;
* `Config.toJson`  the object of a configuration.
-/

namespace DocTypes

structure Config where
  verbose : Bool := false
  strict : Bool := false
  maxDepth : Int := 64
  deriving DecidableEq, Repr

namespace Config

def ofJson (settings : Json) : Except Numeral.Fault Config :=
  let config (maxDepth : Int) : Config :=
    { verbose := settings.flagAt "verbose", strict := settings.flagAt "strict", maxDepth }
  match settings.entry? "max_depth" with
  | none => .ok (config 64)
  | some value => (Numeral.ofJson value).map config

def toJson (config : Config) : Json :=
  .object [("verbose", .bool config.verbose), ("strict", .bool config.strict),
    ("max_depth", .int config.maxDepth)]

end Config

end DocTypes
