import WireSchema.Grammar.Definition

/-!
# Rules for modules and files

A file is a list of imports and then either modules or loose definitions, never both. Loose
definitions form a module without a name. `Tree.ofTokens` reads a whole file.
-/

namespace WireSchema.Grammar

open Rule

def importDecl : Rule (Option Tree.Import) := do
  match ← keyword? .importWord with
  | none => return none
  | some word =>
    match (← nextIf (.string "")).map Token.symbol with
    | some (.string path) =>
      let _ ← mark .semicolon
      return some ⟨word.line, path⟩
    | _ => fail word.line .importPathMissing

/-- Whether an attribute list that ends at the first closing bracket decorates a module. -/
def moduleAfterAttributes : List Token → Bool
  | ⟨_, .punct .lbracket⟩ :: rest =>
    match rest.dropWhile (·.symbol ≠ .punct .rbracket) with
    | _ :: ⟨_, .keyword .moduleWord⟩ :: _ => true
    | _ => false
  | _ => false

/-- Whether another module starts here, with or without attributes. -/
def moduleFollows (c : Cursor) : Bool :=
  c.testIf (.keyword .moduleWord) || moduleAfterAttributes c.ahead

/-- A definition of a module whose body runs to the next module. -/
def openBodyDefinition : Rule (Option Tree.Definition) := do
  if ← look moduleFollows then return none else attributedDefinition

/-- The body of a module: definitions in braces, or a semicolon and the definitions after it. -/
def moduleBody : Rule (List Tree.Definition) := do
  match ← mark? .lbrace with
  | some _ =>
    let definitions ← many attributedDefinition
    let _ ← mark .rbrace
    let _ ← mark? .semicolon
    return definitions
  | none =>
    match ← mark? .semicolon with
    | some _ => many openBodyDefinition
    | none => fail (← line) (.expected [.punct .lbrace, .punct .semicolon] (← peek))

def moduleDecl (attributes : List Tree.Attribute) : Rule (Option Tree.Module) := do
  match ← keyword? .moduleWord with
  | none => return none
  | some word =>
    match ← dottedName with
    | none => fail word.line .moduleNameMissing
    | some name =>
      let definitions ← moduleBody
      return some ⟨word.line, some name, attributes, definitions⟩

/-- What can stand at the top of a file after the imports. -/
inductive TopItem where
  | module (m : Tree.Module)
  | definition (d : Tree.Definition)

/-- An item at the top of a file with the line on which it starts, attributes included. -/
def topItem : Rule (Option (UInt32 × TopItem)) := do
  let line ← line
  let attributes := (← attributes?).getD []
  match ← moduleDecl attributes with
  | some m => return some (line, .module m)
  | none =>
    match ← definition attributes with
    | some d => return some (line, .definition d)
    | none => return none

/-- The next module of a file that has modules. -/
def nextModule : Rule (Option Tree.Module) := do
  match ← topItem with
  | none => return none
  | some (_, .module m) => return some m
  | some (line, .definition d) => fail line (.outsideModule d.name)

/-- The next definition of a file whose first item is the loose definition `first`. -/
def nextLoose (firstLine : UInt32) (first : Tree.Definition) : Rule (Option Tree.Definition) := do
  match ← topItem with
  | none => return none
  | some (_, .definition d) => return some d
  | some (_, .module _) => fail firstLine (.outsideModule first.name)

/-- The modules of a file; loose definitions form one without a name. -/
def modules : Rule (List Tree.Module) := do
  match ← topItem with
  | none => return []
  | some (_, .module m) => return m :: (← many nextModule)
  | some (line, .definition d) =>
    let definitions ← many (nextLoose line d)
    return [⟨line, none, [], d :: definitions⟩]

def file : Rule Tree := do
  let imports ← many importDecl
  let modules ← modules
  return ⟨imports, modules⟩

end WireSchema.Grammar

/-- The tree of a whole list of tokens. -/
def WireSchema.Tree.ofTokens (tokens : List WireSchema.Token) :
    Except WireSchema.GrammarFault WireSchema.Tree :=
  match WireSchema.Grammar.file.run (.ofTokens tokens) with
  | .error e => .error e
  | .ok (tree, c) =>
    match c.peek with
    | some t => .error ⟨t.line, .stuck (some t.symbol)⟩
    | none => .ok tree
