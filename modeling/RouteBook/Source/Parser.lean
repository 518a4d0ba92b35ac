import RouteBook.Source.Statement
import RouteBook.Text.Case

/-! Parsing a whole source text. -/
namespace RouteBook.Source

/-- The two dialects of the source language: in one, angle brackets before an operand are a cast,
in the other they are markup. -/
inductive Dialect where
  | typescript | tsx
deriving Repr, DecidableEq

def Dialect.name : Dialect → String
  | typescript => "typescript"
  | tsx => "tsx"

def castEndings : List String := [".ts", ".mts", ".cts"]

def Dialect.ofFile (file : String) : Dialect :=
  let name := (Text.lower file).toList
  if castEndings.any fun e => e.toList.isSuffixOf name then .typescript else .tsx

/-- One step of the grammar: each rule with the parsers for what stands inside. -/
def rules (self : Grammar) : Grammar
  | .statement => statementRule self
  | .block => blockRule self
  | .expression last => expressionRule self last
  | .operand last => operandRule self last
  | .type => typeRule self
  | .binding => bindingRule self
  | .target => targetRule self
  | .classBody => classBodyRule self
  | .element => elementRule self

def grammar : Nat → Grammar
  | 0, _ => failure
  | depth + 1, r => rules (grammar depth) r

def interpreterLine : Parse Unit := do
  let c := (← get).skipExtras
  if startsWith c.rest "#!" then
    set (c.advance (c.rest.takeWhile (isNotA (· == '\n'))).length)

def program (depth : Nat) : Parse Tree := do
  interpreterLine
  let ts ← many (grammar depth .statement)
  discard tokenStart
  let c ← get
  if c.rest.isEmpty then return .group (c.comments.reverse ++ ts) else failure

/-- The syntax tree of a text, if it is one of the language. Its comments come first. -/
def parse? (dialect : Dialect) (source : List UInt8) : Option Tree :=
  let pieces := Text.pieces source
  (program (8 * pieces.length + 20)).run' { rest := pieces, markup := dialect = .tsx }

end RouteBook.Source
