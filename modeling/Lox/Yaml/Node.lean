import Lox.Yaml.Token

/-!
# Nodes of a settings file

The first document of a settings file is a **node**: a scalar, a sequence, a mapping of nodes to
nodes, or a reference to a node that was given a name before. A part that is left out is an empty
plain scalar.

Of two mistakes, one in the characters of a file and one in the order of its parts, the first to be
met counts. The former is met when the token before which it was found is needed. A mistake in the
bytes of a file that was only noted counts at the next **step**: when a scalar is complete, or a
sequence or a mapping starts or ends.
-/

namespace Lox.Yaml

/-- A part of a document, with the line it starts on, counted from one, and its tag if it has one
that says something. A reference has a number of its own and the number of what it stands for. -/
inductive Node
  | scalar (line : Nat) (tag : Option Text) (plain : Bool) (value : Text)
  | sequence (line : Nat) (tag : Option Text) (items : List Node)
  | mapping (line : Nat) (tag : Option Text) (pairs : List (Node × Node))
  | reference (line : Nat) (name : Text) (number target : Nat)

/-- The line a node starts on. -/
def Node.line : Node → Nat
  | scalar line .. => line
  | sequence line .. => line
  | mapping line .. => line
  | reference line .. => line

/-- A document, with the nodes that have a name by their numbers. -/
structure Document where
  root : Node
  named : List (Nat × Node)

/-- The node with a number. -/
def Document.find? (d : Document) (number : Nat) : Option Node :=
  (d.named.find? (·.1 == number)).map Prod.snd

/-! ## Tags -/

/-- What the addresses of the known types start with. -/
def knownAddress : Text := utf8 "tag:yaml.org,2002:"

/-- The tag for an address: that of a known type has a short form. -/
def shortTag (address : Text) : Text :=
  if knownAddress.isPrefixOf address then utf8 "!!" ++ address.drop knownAddress.length else address

/-- The handles that always have a meaning. -/
def knownHandles : List (Text × Text) := [(utf8 "!", utf8 "!"), (utf8 "!!", knownAddress)]

/-! ## Reading -/

/-- What is known while nodes are read: the meanings of handles, the numbers of the names given so
far, the latest first, the nodes that have one, and how many names and references there were. -/
structure Reader where
  scanner : Scanner
  handles : List (Text × Text)
  names : List (Text × Nat)
  named : List (Nat × Node)
  given : Nat
  references : Nat

/-- Reading a part: it fails, or gives a result and what is known after it. -/
abbrev Read := StateT Reader (Except Failure)

namespace Read

/-- The next token. -/
def peek : Read Token := do
  let s ← get
  let (_, scanner) ← Tokenize.prepare (s.scanner.cursor.turns + 8) s.scanner
  set { s with scanner := scanner }
  return scanner.queue.headD ⟨.streamEnd, scanner.cursor.mark⟩

/-- Passes over the next token. -/
def skip : Read Unit := modify fun s =>
  { s with
    scanner := { s.scanner with queue := s.scanner.queue.tail, taken := s.scanner.taken + 1 } }

/-- Completes a step. -/
def endStep : Read Unit := do
  match (← get).scanner.cursor.noted with
  | some mistake => throw (.bare mistake)
  | none => return ()

/-- Fails with a mistake in a part that started at one place, noticed at another. -/
def fail {α : Type} (mistake : Mistake) (start noticed : Mark) : Read α :=
  throw (.ofParse mistake start noticed)

/-- A part that is left out at a place. -/
def absent (mark : Mark) : Read Node := do
  endStep
  return .scalar (mark.line + 1) none true []

/-- Takes a number for a name. -/
def reserve : Option Text → Read (Option Nat)
  | none => return none
  | some name => do
    let s ← get
    set { s with names := (name, s.given) :: s.names, given := s.given + 1 }
    return some s.given

/-- Keeps a node under the number of its name, if it has one. -/
def keep (number : Option Nat) (node : Node) : Read Node := do
  match number with
  | none => return node
  | some number =>
    modify fun s => { s with named := (number, node) :: s.named }
    return node

/-- A reference to the node with a name. -/
def reference (line : Nat) (name : Text) : Read Node := do
  let s ← get
  match s.names.find? (·.1 == name) with
  | none => throw (.bare (.unknownAnchor name))
  | some (_, target) =>
    set { s with references := s.references + 1 }
    return .reference line name s.references target

end Read

open Read

/-! ## What stands before a node -/

/-- What stands before a node: where it starts, its name and its tag. -/
structure Properties where
  start : Mark
  name : Option Text
  tag : Option Text

/-- The tag that a handle and a suffix stand for. -/
def expandTag (start mark : Mark) (handle suffix : Text) : Read Text := do
  if handle.isEmpty then return suffix
  else
    match (← get).handles.find? (·.1 == handle) with
    | some (_, address) => return address ++ suffix
    | none => fail .handleUndefined start mark

/-- Reads what stands before a node, a name and a tag in either order, and gives the token after
it. -/
def readProperties (token : Token) : Read (Properties × Token) := do
  let start := token.mark
  match token.lexeme with
  | .anchor name =>
    skip
    let after ← peek
    match after.lexeme with
    | .tag handle suffix =>
      skip
      let last ← peek
      return (⟨start, some name, some (← expandTag start after.mark handle suffix)⟩, last)
    | _ => return (⟨start, some name, none⟩, after)
  | .tag handle suffix =>
    skip
    let after ← peek
    match after.lexeme with
    | .anchor name =>
      skip
      let last ← peek
      return (⟨start, some name, some (← expandTag start start handle suffix)⟩, last)
    | _ => return (⟨start, none, some (← expandTag start start handle suffix)⟩, after)
  | _ => return (⟨start, none, none⟩, token)

/-- The tag of a node as it is kept. A lone exclamation mark says nothing. -/
def Properties.kept (p : Properties) : Option Text := (p.tag.filter (· != utf8 "!")).map shortTag

/-! ## Nodes -/

/-- Whether a token ends a key or a value of a block. -/
def endsBlockPart : Lexeme → Bool
  | .key | .value | .blockEnd => true
  | _ => false

/-- Whether a token ends a value between brackets that close in a way. -/
def endsFlowValue (sequence : Bool) (l : Lexeme) : Bool := l == .comma || l == .flowClose sequence

/-- Whether a token ends a key between brackets that close in a way. -/
def endsFlowKey (sequence : Bool) (l : Lexeme) : Bool := l == .value || endsFlowValue sequence l

mutual

/-- Reads a node. It stands in a block or between brackets, and may be a sequence with no
indentation of its own if that is said. -/
def readNode : Nat → Bool → Bool → Read Node
  | 0, _, _ => fail .nodeContent .origin .origin
  | fuel + 1, block, bare => do
    let first ← peek
    match first.lexeme with
    | .reference name =>
      skip
      endStep
      reference (first.mark.line + 1) name
    | _ =>
      let (properties, token) ← readProperties first
      let line := properties.start.line + 1
      let tag := properties.kept
      match token.lexeme, block, bare with
      | .entry, _, true =>
        endStep
        let number ← reserve properties.name
        keep number (.sequence line tag (← readBareEntries fuel))
      | .scalar plain value, _, _ =>
        skip
        endStep
        let number ← reserve properties.name
        keep number (.scalar line tag plain value)
      | .flowOpen true, _, _ =>
        endStep
        let number ← reserve properties.name
        skip
        keep number (.sequence line tag (← readItems fuel token.mark true))
      | .flowOpen false, _, _ =>
        endStep
        let number ← reserve properties.name
        skip
        keep number (.mapping line tag (← readPairs fuel token.mark true))
      | .sequenceStart, true, _ =>
        endStep
        let number ← reserve properties.name
        skip
        keep number (.sequence line tag (← readEntries fuel token.mark))
      | .mappingStart, true, _ =>
        endStep
        let number ← reserve properties.name
        skip
        keep number (.mapping line tag (← readBlockPairs fuel token.mark))
      | _, _, _ =>
        if properties.name.isSome || properties.tag.isSome then
          endStep
          let number ← reserve properties.name
          keep number (.scalar line tag true [])
        else fail .nodeContent properties.start token.mark

/-- Reads the entries that are left of a sequence in a block that started at a place. -/
def readEntries : Nat → Mark → Read (List Node)
  | 0, start => fail .nodeContent start start
  | fuel + 1, start => do
    let token ← peek
    match token.lexeme with
    | .entry =>
      skip
      let after ← peek
      let entry ←
        if after.lexeme == .entry || after.lexeme == .blockEnd then absent token.mark
          else readNode fuel true false
      let rest ← readEntries fuel start
      return entry :: rest
    | .blockEnd =>
      skip
      endStep
      return []
    | _ => fail .expectedEntry start token.mark

/-- Reads the entries that are left of a sequence with no indentation of its own. -/
def readBareEntries : Nat → Read (List Node)
  | 0 => fail .nodeContent .origin .origin
  | fuel + 1 => do
    let token ← peek
    match token.lexeme with
    | .entry =>
      skip
      let after ← peek
      let entry ←
        if after.lexeme == .entry || endsBlockPart after.lexeme then absent token.mark
          else readNode fuel true false
      let rest ← readBareEntries fuel
      return entry :: rest
    | _ =>
      endStep
      return []

/-- Reads the pairs that are left of a mapping in a block that started at a place. -/
def readBlockPairs : Nat → Mark → Read (List (Node × Node))
  | 0, start => fail .nodeContent start start
  | fuel + 1, start => do
    let token ← peek
    match token.lexeme with
    | .key =>
      skip
      let after ← peek
      let key ← if endsBlockPart after.lexeme then absent token.mark else readNode fuel true true
      let value ← readBlockValue fuel
      let rest ← readBlockPairs fuel start
      return (key, value) :: rest
    | .blockEnd =>
      skip
      endStep
      return []
    | _ => fail .expectedKey start token.mark

/-- Reads the value of a key in a block. -/
def readBlockValue : Nat → Read Node
  | 0 => fail .nodeContent .origin .origin
  | fuel + 1 => do
    let token ← peek
    match token.lexeme with
    | .value =>
      skip
      let after ← peek
      if endsBlockPart after.lexeme then absent token.mark else readNode fuel true true
    | _ => absent token.mark

/-- Reads the items that are left between square brackets that opened at a place. All but the first
follow a comma. -/
def readItems : Nat → Mark → Bool → Read (List Node)
  | 0, start, _ => fail .nodeContent start start
  | fuel + 1, start, first => do
    let token ← peek
    match token.lexeme, first with
    | .flowClose true, _ =>
      skip
      endStep
      return []
    | .comma, false =>
      skip
      readItems fuel start true
    | .key, true =>
      skip
      endStep
      let pair ← readItemPair fuel
      let rest ← readItems fuel start false
      return .mapping (token.mark.line + 1) none [pair] :: rest
    | _, true =>
      let item ← readNode fuel false false
      let rest ← readItems fuel start false
      return item :: rest
    | _, false => fail (.expectedComma ']') start token.mark

/-- Reads a key and its value that are an item between square brackets. What ends a key that is left
out is passed over. -/
def readItemPair : Nat → Read (Node × Node)
  | 0 => fail .nodeContent .origin .origin
  | fuel + 1 => do
    let token ← peek
    let key ←
      if endsFlowKey true token.lexeme then do
        skip
        absent token.mark
      else readNode fuel false false
    let value ← readFlowValue fuel true
    discard peek
    endStep
    return (key, value)

/-- Reads the pairs that are left between braces that opened at a place. All but the first follow a
comma. -/
def readPairs : Nat → Mark → Bool → Read (List (Node × Node))
  | 0, start, _ => fail .nodeContent start start
  | fuel + 1, start, first => do
    let token ← peek
    match token.lexeme, first with
    | .flowClose false, _ =>
      skip
      endStep
      return []
    | .comma, false =>
      skip
      readPairs fuel start true
    | .key, true =>
      skip
      let after ← peek
      let key ← if endsFlowKey false after.lexeme then absent after.mark
        else readNode fuel false false
      let value ← readFlowValue fuel false
      let rest ← readPairs fuel start false
      return (key, value) :: rest
    | _, true =>
      let key ← readNode fuel false false
      let after ← peek
      let value ← absent after.mark
      let rest ← readPairs fuel start false
      return (key, value) :: rest
    | _, false => fail (.expectedComma '\x7d') start token.mark

/-- Reads the value of a key between brackets that close in a way. -/
def readFlowValue : Nat → Bool → Read Node
  | 0, _ => fail .nodeContent .origin .origin
  | fuel + 1, sequence => do
    let token ← peek
    match token.lexeme with
    | .value =>
      skip
      let after ← peek
      if endsFlowValue sequence after.lexeme then absent after.mark else readNode fuel false false
    | _ => absent token.mark

end

/-! ## Documents -/

/-- Gives a handle a meaning. One that has a meaning is a mistake if it is new, and keeps it
otherwise. -/
def define (isNew : Bool) (mark : Mark) (handle address : Text) : Read Unit := do
  let s ← get
  if s.handles.any (·.1 == handle) then
    if isNew then fail .handleTwice mark mark
  else set { s with handles := s.handles ++ [(handle, address)] }

/-- Reads the directives that are left, in a number of turns. Only one gives a version, and it is
1.1. -/
def readDirectives : Nat → Bool → Read Unit
  | 0, _ => return ()
  | turns + 1, versioned => do
    let token ← peek
    match token.lexeme with
    | .directive (.version major minor) =>
      if versioned then fail .versionTwice token.mark token.mark
      else if major != 1 || minor != 1 then fail .versionOther token.mark token.mark
      else
        skip
        readDirectives turns true
    | .directive (.handle name address) =>
      define true token.mark name address
      skip
      readDirectives turns versioned
    | _ => knownHandles.forM fun (handle, address) => define false token.mark handle address

/-- Reads the start of a document, and gives whether it is marked. There is none at the end of the
file. -/
def readStart (turns : Nat) : Read (Option Bool) := do
  let token ← peek
  match token.lexeme with
  | .streamEnd =>
    skip
    endStep
    return none
  | .directive _ | .documentStart =>
    readDirectives turns false
    let after ← peek
    if after.lexeme == .documentStart then
      skip
      endStep
      return some true
    else fail .documentStart after.mark after.mark
  | _ =>
    readDirectives turns false
    endStep
    return some false

/-- Reads the node of a document. One that is marked may be empty. -/
def readContent (fuel : Nat) (marked : Bool) : Read Node := do
  let token ← peek
  match marked, token.lexeme with
  | true, .directive _ | true, .documentStart | true, .documentEnd | true, .streamEnd =>
    absent token.mark
  | _, _ => readNode fuel true false

/-- Reads the end of a document. -/
def readEnd : Read Unit := do
  if (← peek).lexeme == .documentEnd then skip
  endStep

/-- Reads the first document, if there is one. -/
def readDocument (fuel : Nat) : Read (Option Document) := do
  match ← readStart fuel with
  | none => return none
  | some marked =>
    let root ← readContent fuel marked
    readEnd
    return some ⟨root, (← get).named⟩

/-- The first document of a file, if it has one. What follows it is looked at only as far as is
needed to see its end. -/
def firstDocument (file : Text) : Except Failure (Option Document) := do
  let start : Reader := ⟨.ofFile file, [], [], [], 0, 0⟩
  return (← readDocument (8 * (file.length + 8)) start).1

end Lox.Yaml
