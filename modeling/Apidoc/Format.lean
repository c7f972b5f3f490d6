import Apidoc.Json.Printer
import Apidoc.Yaml.Printer

/-!
# Output formats

* `Format`          YAML or JSON;
* `Format.print`    the text of a value.
-/

namespace Apidoc

inductive Format where
  | yaml
  | json
deriving DecidableEq, Repr

def Format.print (f : Format) (v : Value) : String :=
  match f with
  | .yaml => Yaml.print v
  | .json => Json.print v

end Apidoc
