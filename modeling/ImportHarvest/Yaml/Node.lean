import ImportHarvest.Yaml.Layout
/-!
Nodes: scalars, sequences and mappings, as the tokens of a YAML stream compose them.

A node may be anchored, and an alias stands for a node that was anchored before it. Anchors are numbered by how many
names were in use when they came, and what a number stands for in the end is the node that took it last.
-/

namespace ImportHarvest.Yaml

/-- a node as it is written; the tag is written out in full -/
inductive Node where
  | scalar (tag : Option String) (plain : Bool) (text : String)
  | sequence (tag : Option String) (items : List Node)
  | mapping (tag : Option String) (pairs : List (Node × Node))
  | alias (number : Nat)
  deriving Inhabited, Repr

/-- a node that nothing is written for -/
def Node.empty : Node := .scalar none true ""

/-- an anchored node: its number, where in the stream it starts, and the node -/
structure Anchored where
  number : Nat
  position : Nat
  node : Node
  deriving Inhabited

/-- how far the nodes are composed -/
structure Composition where
  tokens : List Token
  /-- what tag handles stand for -/
  handles : List (String × String)
  /-- the names of anchors with their numbers -/
  names : List (String × Nat)
  anchored : List Anchored
  /-- how many nodes, and starts and ends of collections, came so far -/
  count : Nat

/-- composing may fail -/
abbrev Composing := StateT Composition Option

namespace Composing

/-- the next token -/
def next : Composing Token := return (← get).tokens.headD .streamEnd

/-- takes the next token -/
def skip : Composing Unit := modify fun s => { s with tokens := s.tokens.drop 1 }

def counted (n : Nat) : Composing Unit := modify fun s => { s with count := s.count + n }

/-- whether one of these tokens comes next -/
def nextIn (ts : List Token) : Composing Bool := return ts.contains (← next)

/-- a node that nothing is written for -/
def empty : Composing Node := do
  counted 1
  return .empty

/-- what a tag is in full -/
def fullTag (handle suffix : String) : Composing String := do
  if handle = "" then return suffix
  match (← get).handles.lookup handle with
  | some start => return start ++ suffix
  | none => failure

/-- the anchor and the tag in front of a node, in either order -/
def properties : Composing (Option String × Option String) := do
  match ← next with
  | .anchor name =>
    skip
    match ← next with
    | .tag handle suffix =>
      skip
      return (some name, some (← fullTag handle suffix))
    | _ => return (some name, none)
  | .tag handle suffix =>
    skip
    let name ← match ← next with
      | .anchor name => do skip; pure (some name)
      | _ => pure none
    return (name, some (← fullTag handle suffix))
  | _ => return (none, none)

/-- gives a number to an anchor -/
def numbered (name : String) : Composing Nat := do
  let names := (← get).names
  modify fun s => { s with names := (name, names.length) :: names.filter fun (other, _) => other ≠ name }
  return names.length

/-- what an alias stands for -/
def aliased (name : String) : Composing Node := do
  skip
  counted 1
  match (← get).names.lookup name with
  | some number => return .alias number
  | none => failure

mutual
/-- a node; `block` tells that blocks may open here, `indentless` that entries may come without one -/
def node (block indentless : Bool) : Nat → Composing Node
  | 0 => failure
  | steps + 1 => do
    match ← next with
    | .alias name => aliased name
    | _ =>
      let (name, tag) ← properties
      let number ← name.mapM numbered
      let position := (← get).count
      let n ← content block indentless tag (name.isSome || tag.isSome) steps
      if let some number := number then
        modify fun s => { s with anchored := ⟨number, position, n⟩ :: s.anchored }
      return n
/-- what a node is, after its properties; with properties it may be empty -/
def content (block indentless : Bool) (tag : Option String) (mayBeEmpty : Bool) : Nat → Composing Node
  | 0 => failure
  | steps + 1 => do
    let t ← next
    if indentless && t = .entry then
      counted 2
      return .sequence tag (← indentlessItems steps)
    else if block && t = .blockSequence then
      skip
      counted 2
      return .sequence tag (← blockItems steps)
    else if block && t = .blockMapping then
      skip
      counted 2
      return .mapping tag (← blockPairs steps)
    else match t with
      | .scalar plain text =>
        skip
        counted 1
        return .scalar tag plain text
      | .flowSequence =>
        skip
        counted 2
        return .sequence tag (← flowItems true steps)
      | .flowMapping =>
        skip
        counted 2
        return .mapping tag (← flowPairs true steps)
      | _ =>
        if !mayBeEmpty then failure
        counted 1
        return .scalar tag true ""
/-- the entries of a block, up to its end -/
def blockItems : Nat → Composing (List Node)
  | 0 => failure
  | steps + 1 => do
    match ← next with
    | .entry =>
      skip
      let n ← if ← nextIn [.entry, .blockEnd] then empty else node true false steps
      return n :: (← blockItems steps)
    | .blockEnd =>
      skip
      return []
    | _ => failure
/-- the entries at the indentation of the mapping around them -/
def indentlessItems : Nat → Composing (List Node)
  | 0 => failure
  | steps + 1 => do
    match ← next with
    | .entry =>
      skip
      let n ← if ← nextIn [.entry, .key, .value, .blockEnd] then empty else node true false steps
      return n :: (← indentlessItems steps)
    | _ => return []
/-- the keys and values of a block, up to its end -/
def blockPairs : Nat → Composing (List (Node × Node))
  | 0 => failure
  | steps + 1 => do
    match ← next with
    | .key =>
      skip
      let k ← if ← nextIn [.key, .value, .blockEnd] then empty else node true true steps
      let v ← if ← nextIn [.value] then do
          skip
          if ← nextIn [.key, .value, .blockEnd] then empty else node true true steps
        else empty
      return (k, v) :: (← blockPairs steps)
    | .blockEnd =>
      skip
      return []
    | _ => failure
/-- the value behind a key in a flow collection that ends with `closing` -/
def flowValue (closing : Token) : Nat → Composing Node
  | 0 => failure
  | steps + 1 => do
    if ← nextIn [.value] then
      skip
      if ← nextIn [.flowEntry, closing] then empty else node false false steps
    else empty
/-- the items of a flow sequence, up to its end; a key makes an item that is a mapping of one pair, and a token is lost
where nothing stands between an announced key and what follows -/
def flowItems (first : Bool) : Nat → Composing (List Node)
  | 0 => failure
  | steps + 1 => do
    if !first && !(← nextIn [.flowSequenceEnd]) then
      if ← nextIn [.flowEntry] then skip else failure
    match ← next with
    | .flowSequenceEnd =>
      skip
      return []
    | .key =>
      skip
      counted 2
      let k ← if ← nextIn [.value, .flowEntry, .flowSequenceEnd] then do
          skip
          empty
        else node false false steps
      let v ← flowValue .flowSequenceEnd steps
      return .mapping none [(k, v)] :: (← flowItems false steps)
    | _ =>
      let n ← node false false steps
      return n :: (← flowItems false steps)
/-- the pairs of a flow mapping, up to its end; without a colon a value is empty -/
def flowPairs (first : Bool) : Nat → Composing (List (Node × Node))
  | 0 => failure
  | steps + 1 => do
    if !first && !(← nextIn [.flowMappingEnd]) then
      if ← nextIn [.flowEntry] then skip else failure
    match ← next with
    | .flowMappingEnd =>
      skip
      return []
    | .key =>
      skip
      let k ← if ← nextIn [.value, .flowEntry, .flowMappingEnd] then empty else node false false steps
      let v ← flowValue .flowMappingEnd steps
      return (k, v) :: (← flowPairs false steps)
    | _ =>
      let k ← node false false steps
      let v ← empty
      return (k, v) :: (← flowPairs false steps)
end

/-! ## Documents -/

/-- what the tag handles stand for that need no directive -/
def standardHandles : List (String × String) := [("!", "!"), ("!!", "tag:yaml.org,2002:")]

/-- the directives in front of a document: one version at most, 1.1 or 1.2, and each handle once -/
def directives (versioned : Bool) : List Token → List (String × String) → Option (List (String × String) × List Token)
  | .version major minor :: rest, handles =>
    if versioned || major ≠ 1 || !(minor = 1 || minor = 2) then none else directives true rest handles
  | .tagHandle handle start :: rest, handles =>
    if (handles.lookup handle).isSome then none else directives versioned rest (handles ++ [(handle, start)])
  | rest, handles => some (handles, rest)

/-- a document that starts with a marker: it may be empty -/
def explicitDocument (steps : Nat) : Composing Node := do
  match ← next with
  | .documentStart =>
    skip
    match ← next with
    | .documentStart | .documentEnd | .streamEnd | .version _ _ | .tagHandle _ _ => empty
    | _ => node true false steps
  | _ => failure

/-- the only document of a stream, or nothing when the stream is empty -/
def stream (steps : Nat) : Composing (Option Node) := do
  let document ← match ← next with
    | .streamEnd => pure none
    | .documentStart | .version _ _ | .tagHandle _ _ =>
      match directives false (← get).tokens [] with
      | none => failure
      | some (handles, rest) =>
        modify fun s => { s with tokens := rest, handles := handles ++ standardHandles }
        some <$> explicitDocument steps
    | _ => some <$> node true false steps
  if ((← get).tokens.dropWhile (· = .documentEnd)).head? ≠ some .streamEnd then failure
  return document

end Composing

/-- the document that tokens compose, with its anchored nodes and its size; an empty stream is an empty node -/
def compose? (tokens : List Token) : Option (Node × List Anchored × Nat) :=
  ((Composing.stream (3 * tokens.length + 3)).run ⟨tokens, Composing.standardHandles, [], [], 0⟩).map
    fun (document, s) => (document.getD .empty, s.anchored, s.count)

end ImportHarvest.Yaml
