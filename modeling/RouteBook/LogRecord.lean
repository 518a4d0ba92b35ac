/-! What the program reports while it works. -/
namespace RouteBook

inductive LogLevel where
  | debug | info | warning | error
deriving Repr, DecidableEq

def LogLevel.name : LogLevel → String
  | debug => "DEBUG"
  | info => "INFO"
  | warning => "WARNING"
  | error => "ERROR"

def LogLevel.rank : LogLevel → Nat
  | debug => 10
  | info => 20
  | warning => 30
  | error => 40

def LogLevel.all : List LogLevel := [.debug, .info, .warning, .error]

inductive LogSource where
  | extraction
  | apiDocument
deriving Repr, DecidableEq

def LogSource.name : LogSource → String
  | extraction => "route_docgen.extractor.pipeline"
  | apiDocument => "route_docgen.renderer.openapi"

structure LogRecord where
  level : LogLevel
  source : LogSource
  message : String
deriving Repr, DecidableEq

def LogRecord.line (r : LogRecord) : String :=
  r.level.name ++ " " ++ r.source.name ++ ": " ++ r.message

end RouteBook
