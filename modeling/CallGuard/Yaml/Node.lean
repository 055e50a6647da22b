import CallGuard.Yaml.Token

/-!
# YAML nodes

The tree of a document: scalars, sequences and mappings, with what is left out as an empty
plain scalar.
-/

namespace CallGuard.Yaml

/-- A node of a document. -/
inductive Node where
  /-- A scalar, and whether it is plain. -/
  | scalar (text : String) (plain : Bool)
  | sequence (items : List Node)
  | mapping (entries : List (Node × Node))
  deriving Inhabited

namespace Node

/-- What stands where nothing is written. -/
def nothing : Node := scalar "" true

/-- Tokens before which a node is left out. -/
def isEnd (token : Option Token) (ends : List Token) : Bool :=
  match token with
  | some t => ends.contains t
  | none => true

mutual

/-- A node in front of some tokens.  Within brackets `block` is false; a sequence without
    indentation of its own may stand for a part of a block mapping. -/
def ofTokens? : Nat → Bool → Bool → List Token → Option (Node × List Token)
  | 0, _, _, _ => none
  | fuel + 1, block, indentless, tokens =>
    match tokens with
    | .scalar text plain :: rest => some (scalar text plain, rest)
    | .flowSequenceStart :: rest =>
      (flowItems? fuel true rest).map fun (items, after) => (sequence items, after)
    | .flowMappingStart :: rest =>
      (flowEntries? fuel true rest).map fun (entries, after) => (mapping entries, after)
    | .blockSequenceStart :: rest =>
      if block then (blockItems? fuel rest).map fun (items, after) => (sequence items, after)
      else none
    | .blockMappingStart :: rest =>
      if block then (blockEntries? fuel rest).map fun (entries, after) => (mapping entries, after)
      else none
    | .blockEntry :: _ =>
      if indentless then
        (indentlessItems? fuel tokens).map fun (items, after) => (sequence items, after)
      else none
    | _ => none

/-- A node, or nothing where one of some tokens comes next. -/
def orNothing? : Nat → Bool → Bool → List Token → List Token → Option (Node × List Token)
  | 0, _, _, _, _ => none
  | fuel + 1, block, indentless, ends, tokens =>
    if isEnd tokens.head? ends then some (nothing, tokens)
    else ofTokens? fuel block indentless tokens

/-- The items of a block sequence up to its end. -/
def blockItems? : Nat → List Token → Option (List Node × List Token)
  | fuel + 1, .blockEntry :: rest => do
    let (item, after) ← orNothing? fuel true false [.blockEntry, .blockEnd] rest
    let (items, after) ← blockItems? fuel after
    return (item :: items, after)
  | _, .blockEnd :: rest => some ([], rest)
  | _, _ => none

/-- The items of a sequence that ends with the mapping around it. -/
def indentlessItems? : Nat → List Token → Option (List Node × List Token)
  | fuel + 1, .blockEntry :: rest => do
    let (item, after) ← orNothing? fuel true false [.blockEntry, .key, .value, .blockEnd] rest
    let (items, after) ← indentlessItems? fuel after
    return (item :: items, after)
  | _, tokens => some ([], tokens)

/-- The entries of a block mapping up to its end. -/
def blockEntries? : Nat → List Token → Option (List (Node × Node) × List Token)
  | fuel + 1, .key :: rest => do
    let (name, after) ← orNothing? fuel true true [.key, .value, .blockEnd] rest
    let (value, after) ← blockValue? fuel after
    let (entries, after) ← blockEntries? fuel after
    return ((name, value) :: entries, after)
  | _, .blockEnd :: rest => some ([], rest)
  | _, _ => none

/-- The value of an entry of a block mapping, which may be left out. -/
def blockValue? : Nat → List Token → Option (Node × List Token)
  | fuel + 1, .value :: rest => orNothing? fuel true true [.key, .value, .blockEnd] rest
  | _, tokens => some (nothing, tokens)

/-- The items of a sequence in brackets; an announced key makes an item a mapping of one
    entry. -/
def flowItems? : Nat → Bool → List Token → Option (List Node × List Token)
  | 0, _, _ => none
  | _ + 1, _, .flowSequenceEnd :: rest => some ([], rest)
  | fuel + 1, first, tokens => do
    let tokens ← if first then some tokens else afterComma? tokens
    match tokens with
    | .flowSequenceEnd :: rest => return ([], rest)
    | .key :: rest => do
      let (name, after) ← orNothing? fuel false false [.value, .flowEntry, .flowSequenceEnd] rest
      let (value, after) ← flowValue? fuel .flowSequenceEnd after
      let (items, after) ← flowItems? fuel false after
      return (mapping [(name, value)] :: items, after)
    | _ => do
      let (item, after) ← ofTokens? fuel false false tokens
      let (items, after) ← flowItems? fuel false after
      return (item :: items, after)

/-- The entries of a mapping in braces; a node without an announced key has no value. -/
def flowEntries? : Nat → Bool → List Token → Option (List (Node × Node) × List Token)
  | 0, _, _ => none
  | _ + 1, _, .flowMappingEnd :: rest => some ([], rest)
  | fuel + 1, first, tokens => do
    let tokens ← if first then some tokens else afterComma? tokens
    match tokens with
    | .flowMappingEnd :: rest => return ([], rest)
    | .key :: rest => do
      let (name, after) ← orNothing? fuel false false [.value, .flowEntry, .flowMappingEnd] rest
      let (value, after) ← flowValue? fuel .flowMappingEnd after
      let (entries, after) ← flowEntries? fuel false after
      return ((name, value) :: entries, after)
    | _ => do
      let (name, after) ← ofTokens? fuel false false tokens
      let (entries, after) ← flowEntries? fuel false after
      return ((name, nothing) :: entries, after)

/-- The value of an entry in brackets, which may be left out. -/
def flowValue? : Nat → Token → List Token → Option (Node × List Token)
  | fuel + 1, closing, .value :: rest => orNothing? fuel false false [.flowEntry, closing] rest
  | _, _, tokens => some (nothing, tokens)

/-- What follows a comma. -/
def afterComma? : List Token → Option (List Token)
  | .flowEntry :: rest => some rest
  | _ => none

end

/-- Without the ends of documents in front. -/
def skipEnds (tokens : List Token) : List Token := tokens.dropWhile (· == .documentEnd)

/-- The only document of a text: nothing for an empty text, otherwise its node. -/
def ofText? (text : String) : Option (Option Node) := do
  let tokens ← Token.ofText? text
  match tokens with
  | [.streamEnd] => return none
  | _ =>
    let body := match tokens with
      | .documentStart :: rest => rest
      | _ => tokens
    let (node, after) ←
      orNothing? (3 * body.length + 3) true false [.documentStart, .documentEnd, .streamEnd] body
    if skipEnds after == [.streamEnd] then return some node else none

end Node

end CallGuard.Yaml
