import Apidoc.Source.Record

/-!
# Errors

* `SystemFault`    why the operating system refused;
* `Problem`        what is wrong with a text that should say something;
* `Error`          the errors of the library; `Error.message` words them, `Error.cause?` gives
  the message of the cause;
* `Error.inManifest`   says in which manifest the problem is.
-/

namespace Apidoc

/-! ## the system -/

inductive SystemFault where
  | notFound
  | alreadyExists
  | notDirectory
  | isDirectory
  /-- bytes that are not UTF-8 -/
  | notText
  | other (message : String)
deriving DecidableEq, Repr

def SystemFault.message : SystemFault → String
  | notFound => "No such file or directory (os error 2)"
  | alreadyExists => "File exists (os error 17)"
  | notDirectory => "Not a directory (os error 20)"
  | isDirectory => "Is a directory (os error 21)"
  | notText => "stream did not contain valid UTF-8"
  | other message => message

/-! ## texts -/

/-- the languages of manifests -/
inductive Syntax where
  | yaml
  | json
deriving DecidableEq, Repr

def Syntax.name : Syntax → String
  | yaml => "YAML"
  | json => "JSON"

/-- The field that is missing or there twice; all other faults are not described further. -/
def Fault.message : Fault → String
  | missing field => "missing field \x60" ++ field ++ "\x60"
  | duplicate field => "duplicate field \x60" ++ field ++ "\x60"
  | malformed => "<detail>"

inductive Problem where
  /-- the text cannot be read -/
  | fault (language : Syntax) (f : Fault)
  | missingUrl (handler : String)
  | missingHandler (url : String)
  | missingName
  /-- two models have this name -/
  | repeatedName (name : String)
  | other (message : String)
deriving DecidableEq, Repr

def Problem.message : Problem → String
  | fault language f => language.name ++ " 序列化错误: " ++ f.message
  | missingUrl handler => "路由缺少 url (handler: " ++ handler ++ ")"
  | missingHandler url => "路由 " ++ url ++ " 缺少 handler"
  | missingName => "模型缺少 name"
  | repeatedName name => "模型 " ++ name ++ " 重复定义"
  | other message => message

/-! ## all errors -/

inductive Argument where
  | unknownMethod (name : String)
  | other (message : String)
deriving DecidableEq, Repr

def Argument.message : Argument → String
  | unknownMethod name => "未知的 HTTP 方法: " ++ name
  | other message => message

inductive Error where
  | system (f : SystemFault)
  | manifest (file : String) (p : Problem)
  | argument (a : Argument)
  | serialization (p : Problem)
deriving DecidableEq, Repr

namespace Error

def message : Error → String
  | system f => "IO 错误: " ++ f.message
  | manifest file p => "清单错误 " ++ file ++ ": " ++ p.message
  | argument a => "无效参数: " ++ a.message
  | serialization p => "序列化错误: " ++ p.message

/-- only what the system refuses has a cause of its own -/
def cause? : Error → Option String
  | system f => some f.message
  | _ => none

/-- the message and that of the cause -/
def chain (e : Error) : List String := e.message :: e.cause?.toList

/-- a problem with a text is one of the manifest in `file` -/
def inManifest (file : String) : Error → Error
  | serialization p => manifest file p
  | e => e

end Error

end Apidoc
