import Spreadsheet.Grammar

/-! # Parsing

Alternatives are tried in order, each against the same input, and the first that matches completely
is taken. Effects of an abandoned alternative on the environment are not undone.
-/
namespace Spreadsheet

variable {ι E A : Type} [Inhabited A]

abbrev Match (ι A : Type) := Node ι A × Text

def Grammar.sequence (parse : ι → Text → Computation E (Option (Match ι A))) :
    List ι → Text → Computation E (Option (List (Node ι A) × Text))
  | [], input => pure (some ([], input))
  | r :: rs, input => do
    match ← parse r input with
    | none => pure none
    | some (n, rest) =>
      match ← sequence parse rs rest with
      | none => pure none
      | some (ns, rest) => pure (some (n :: ns, rest))

/-- The node of an alternative whose symbols have matched. An alternative that consists of the empty
rule takes no action and has no text of its own. -/
def Production.accept (p : Production ι E A) (symbol : ι) (index : Nat) (vacuous : Bool)
    (children : List (Node ι A)) : Computation E (Option (Node ι A)) :=
  if vacuous then pure (some ⟨symbol, some index, [], children, default, true⟩)
  else
    let n : Node ι A := ⟨symbol, some index, Node.joinedText children, children, default, false⟩
    match p.action with
    | none => pure (some n)
    | some act => do
      match ← act n with
      | none => pure none
      | some a => pure (some { n with attr := a })

namespace Grammar

def isVacuous (g : Grammar ι E A) : List ι → Bool
  | [r] => (g.rule r).isEpsilon
  | _ => false

def attempt (g : Grammar ι E A) (parse : ι → Text → Computation E (Option (Match ι A)))
    (p : Production ι E A) (symbol : ι) (index : Nat) (symbols : List ι) (input : Text) :
    Computation E (Option (Match ι A)) := do
  match ← sequence parse symbols input with
  | none => pure none
  | some (children, rest) =>
    match ← p.accept symbol index (g.isVacuous symbols) children with
    | none => pure none
    | some n => pure (some (n, rest))

def choose (g : Grammar ι E A) (parse : ι → Text → Computation E (Option (Match ι A)))
    (p : Production ι E A) (symbol : ι) (input : Text) :
    (index : Nat) → List (List ι) → Computation E (Option (Match ι A))
  | _, [] => pure none
  | index, symbols :: alternatives => do
    match ← g.attempt parse p symbol index symbols input with
    | some m => pure (some m)
    | none => choose g parse p symbol input (index + 1) alternatives

/-- Parses at most `fuel` rules deep. -/
def run (g : Grammar ι E A) : (fuel : Nat) → ι → Text → Computation E (Option (Match ι A))
  | 0, _, _ => fun _ => none
  | fuel + 1, symbol, input =>
    match g.rule symbol with
    | .epsilon => pure (some (.epsilon symbol, input))
    | .token t => pure ((t.read input).map fun (word, a, rest) => (.token symbol word a, rest))
    | .production p => g.choose (g.run fuel) p symbol input 0 p.alternatives
    | .scope s => do
      match ← g.run fuel s.target input with
      | none => pure none
      | some (n, _) =>
        let outer ← get
        match s.enter n outer with
        | none => pure none
        | some inner =>
          set inner
          let result ← g.run fuel s.body input
          modify (s.leave outer)
          pure result

/-- Without left recursion no rule is entered twice at one place of the input, which bounds the
depth of a parse. -/
def depth (g : Grammar ι E A) (input : Text) : Nat := (input.length + 1) * (g.size + 1)

def parse (g : Grammar ι E A) (symbol : ι) (input : Text) : Computation E (Option (Match ι A)) :=
  g.run (g.depth input) symbol input

end Grammar
end Spreadsheet
