import SchemaOrder.Pattern.Program
import SchemaOrder.Pattern.Simplify
namespace SchemaOrder.Pattern
namespace Expr
-- Compiled regular expressions.
mutual
def weight : Expr → Nat
  | .empty => 32
  | .literal text => text.foldl (fun n c => n + 32 * c.utf8Size) 0
  | .cls _ points => points.foldl (fun n r => n + (if r.hi < 128 then 8 else 64)) 32
  | .look _ => 32
  | .repetition least most _ body =>
    let rounds := match most with
      | none => least + 1
      | some most => max least most
    rounds * (weight body + 32) + 32
  | .capture _ body => weight body + 64
  | .concat parts => weightAll parts
  | .alternation branches => weightAll branches + 32

def weightAll : List Expr → Nat
  | [] => 0
  | e :: rest => weight e + weightAll rest
end
end Expr
def weightLimit : Nat := 10 * 1024 * 1024

structure Regex where
  program : Program
namespace Regex
def compile? (pattern : String) : Option Regex := do
  let e ← Expr.parse? pattern
  if e.weight ≤ weightLimit then some ⟨.ofExpr e⟩ else none

def isMatch (r : Regex) (text : String) : Bool :=
  r.program.search text
end Regex
end SchemaOrder.Pattern
