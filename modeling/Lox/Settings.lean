import Lox.Text.Quoted
import Lox.Yaml.Node
import Lox.Yaml.Plain

/-!
# Settings

Settings are read from a file with five fields that may each be left out. A field that is set to
nothing keeps its default. A field takes a scalar: text is taken as it is written, a number loses
what is behind its point, and a truth value may also be one of the older words for it. A mapping may
merge others into itself, which set what it does not set.

All mistakes in the fields are collected, one on a line. A name that is there twice hides every
other mistake of its mapping.
-/

namespace Lox

/-- What can be set. -/
structure Settings where
  logLevel : Text
  color : Option Bool
  maxCallDepth : Int
  historyFile : Text
  requires : Text
  deriving DecidableEq, Repr

namespace Settings

/-- The settings where nothing is set. -/
def default : Settings := ⟨utf8 "warn", none, 0, [], []⟩

/-- Whether reports may have colour. -/
def colorEnabled (s : Settings) : Bool := s.color.getD true

/-- What a field takes. -/
inductive Target
  | text
  | truth
  | number
  | record
  deriving DecidableEq, Repr

/-- What a message calls what a field takes. -/
def Target.name : Target → String
  | text => "string"
  | truth => "bool"
  | number => "int"
  | record => "main.config"

/-- A mistake in a field, with its line. -/
inductive FieldMistake
  | unknown (line : Nat) (name : Text)
  | repeated (line : Nat) (name : Text) (first : Nat)
  | again (line : Nat) (name : Text)
  | mismatch (line : Nat) (tag value : Text) (target : Target)
  deriving DecidableEq, Repr

/-- At most ten bytes of a value: a longer one is cut to seven. -/
def excerpt (value : Text) : Text := if 10 < value.length then value.take 7 ++ utf8 "..." else value

/-- The tag of sequences. -/
def sequenceTag : Text := utf8 "!!seq"

/-- The tag of mappings. -/
def mappingTag : Text := utf8 "!!map"

/-- A value as it is shown after a tag: in quotes, unless the tag is that of a sequence or a
mapping. -/
def shown (tag value : Text) : Text :=
  if tag == sequenceTag || tag == mappingTag then value else utf8 " `" ++ excerpt value ++ utf8 "`"

/-- The wording of a mistake in a field. -/
def FieldMistake.message : FieldMistake → Text
  | unknown line name =>
    utf8 "line " ++ Text.ofNat line ++ utf8 ": field " ++ name ++ utf8 " not found in type " ++
      utf8 Target.record.name
  | repeated line name first =>
    utf8 "line " ++ Text.ofNat line ++ utf8 ": mapping key " ++ Quoted.text name ++
      utf8 " already defined at line " ++ Text.ofNat first
  | again line name =>
    utf8 "line " ++ Text.ofNat line ++ utf8 ": field " ++ name ++ utf8 " already set in type " ++
      utf8 Target.record.name
  | mismatch line tag value target =>
    utf8 "line " ++ Text.ofNat line ++ utf8 ": cannot unmarshal " ++ tag ++ shown tag value ++
      utf8 " into " ++ utf8 target.name

/-- Why settings cannot be read from a file. -/
inductive Problem
  | missing
  | directory
  | malformed (failure : Yaml.Failure)
  | fields (mistakes : List FieldMistake)
  deriving DecidableEq, Repr

/-- The wording of why settings cannot be read from a file with a path. -/
def Problem.message (path : Text) : Problem → Text
  | missing => utf8 "opening config: open " ++ path ++ utf8 ": no such file or directory"
  | directory =>
    utf8 "parsing config " ++ path ++ utf8 ": yaml: input error: read " ++ path ++
      utf8 ": is a directory"
  | malformed failure => utf8 "parsing config " ++ path ++ utf8 ": yaml: " ++ failure.message
  | fields mistakes =>
    utf8 "parsing config " ++ path ++ utf8 ": yaml: unmarshal errors:\n  " ++
      Text.join (utf8 "\n  ") (mistakes.map FieldMistake.message)

/-! ## Values of fields -/

/-- A value that a field can take. -/
inductive Setting
  | text (t : Text)
  | truth (b : Bool)
  | number (n : Int)

/-- The truth value that an older word means. -/
def olderTruth? (word : Text) : Option Bool :=
  if ["y", "Y", "yes", "Yes", "YES", "on", "On", "ON"].any fun w => utf8 w == word then some true
  else if ["n", "N", "no", "No", "NO", "off", "Off", "OFF"].any fun w => utf8 w == word
    then some false
  else none

/-- The whole part of a number, in 64 bits with a sign. What is too small, or at the very end of the
range, becomes the least of them; nothing is given for what is larger still or not a number. -/
def wholePart? (x : Float) : Option Int :=
  match Binary.ofFloat? x with
  | none => if x < 0 then some (-Int.pow 2 63) else none
  | some b =>
    let size := match b.exponent with
      | .ofNat e => b.mantissa * Nat.pow 2 e
      | .negSucc e => b.mantissa / Nat.pow 2 (e + 1)
    if b.negative then some (if size ≤ Nat.pow 2 63 then -Int.ofNat size else -Int.pow 2 63)
    else if size < Nat.pow 2 63 then some (Int.ofNat size)
    else if size == Nat.pow 2 63 then some (-Int.pow 2 63)
    else none

/-- What a field takes from a scalar, given what the scalar means. -/
def Target.convert? (target : Target) (value : Text) (meaning : Yaml.Meaning) : Option Setting :=
  match target, meaning with
  | .text, .string t => some (.text t)
  | .text, _ => some (.text value)
  | .truth, .bool b => some (.truth b)
  | .truth, .string t => (olderTruth? t).map Setting.truth
  | .number, .int n => if n < Int.pow 2 63 then some (.number n) else none
  | .number, .float x => (wholePart? x).map Setting.number
  | _, _ => none

/-- A name in a mapping, as it is told apart from others: by its text if it is a scalar or a
reference, and not at all from other sequences or other mappings if it is one. -/
def keyIdentity : Yaml.Node → Nat × Text
  | .scalar _ _ _ value => (0, value)
  | .sequence .. => (1, [])
  | .mapping .. => (2, [])
  | .reference _ name _ _ => (3, name)

/-- The names of a mapping that are there again, each with the line of every earlier one. -/
def repeatedKeys : List Yaml.Node → List FieldMistake
  | [] => []
  | key :: rest =>
    (rest.filter fun other => keyIdentity other == keyIdentity key).map
      (fun other => .repeated other.line (keyIdentity other).2 key.line) ++ repeatedKeys rest

/-- What a field takes from a node that is no reference, nothing if it is set to nothing, or the
mistakes in it. -/
def Target.takeHere (target : Target) :
    Yaml.Node → Except Problem (Option Setting × List FieldMistake)
  | .scalar line tag plain value =>
    match Yaml.scalarMeaning tag plain value with
    | .error failure => .error (.malformed failure)
    | .ok .null => .ok (none, [])
    | .ok meaning =>
      match target.convert? value meaning with
      | some setting => .ok (some setting, [])
      | none => .ok (none, [.mismatch line (Yaml.scalarTag tag plain value) value target])
  | .sequence line tag _ => .ok (none, [.mismatch line (tag.getD sequenceTag) [] target])
  | .mapping line tag pairs =>
    let repeats := repeatedKeys (pairs.map Prod.fst)
    .ok (none, if repeats.isEmpty then [.mismatch line (tag.getD mappingTag) [] target]
      else repeats)
  | .reference .. => .ok (none, [])

/-- The node that a node stands for. -/
def followed (d : Yaml.Document) (node : Yaml.Node) : Yaml.Node :=
  match node with
  | .reference _ _ _ target => (d.find? target).getD node
  | node => node

/-- What a field takes from a node of a document. -/
def Target.take (d : Yaml.Document) (target : Target) (node : Yaml.Node) :
    Except Problem (Option Setting × List FieldMistake) :=
  target.takeHere (followed d node)

/-! ## Fields -/

/-- The fields. -/
inductive Field
  | logLevel
  | color
  | maxCallDepth
  | historyFile
  | requires
  deriving DecidableEq, Repr

namespace Field

/-- All fields. -/
def all : List Field := [logLevel, color, maxCallDepth, historyFile, requires]

/-- The name of a field. -/
def name : Field → String
  | logLevel => "log_level"
  | color => "color"
  | maxCallDepth => "max_call_depth"
  | historyFile => "history_file"
  | requires => "requires"

/-- What a field takes. -/
def target : Field → Target
  | color => .truth
  | maxCallDepth => .number
  | logLevel | historyFile | requires => .text

/-- Sets a field to a value of the kind it takes. -/
def set (s : Settings) : Field → Setting → Settings
  | logLevel, .text t => { s with logLevel := t }
  | color, .truth b => { s with color := some b }
  | maxCallDepth, .number n => { s with maxCallDepth := n }
  | historyFile, .text t => { s with historyFile := t }
  | requires, .text t => { s with requires := t }
  | _, _ => s

end Field

/-! ## Mappings -/

/-- What is known while settings are read: the settings so far, the mistakes so far, and, within
what is merged, the names that are set already. -/
structure Loading where
  settings : Settings
  mistakes : List FieldMistake
  merged : Option (List Text)

/-- Reading settings: it fails, or gives a result and what is known after it. -/
abbrev Load := StateT Loading (Except Problem)

namespace Load

/-- Fails with a mistake that names no line. -/
def fail {α : Type} (mistake : Yaml.Mistake) : Load α := throw (.malformed (.bare mistake))

/-- Adds mistakes. -/
def report (mistakes : List FieldMistake) : Load Unit :=
  modify fun l => { l with mistakes := l.mistakes ++ mistakes }

/-- What a field takes from a node, the mistakes in it being reported. -/
def take (d : Yaml.Document) (target : Target) (node : Yaml.Node) : Load (Option Setting) := do
  let (setting, mistakes) ← target.take d node
  report mistakes
  return setting

/-- Whether a name is set already by what is merged into. Otherwise it is set from now on. -/
def isHidden (name : Text) : Load Bool := do
  let l ← get
  match l.merged with
  | none => return false
  | some names =>
    if names.contains name then return true
    else
      set { l with merged := some (name :: names) }
      return false

end Load

open Load

/-- Whether a node is the key that merges mappings. -/
def isMerge : Yaml.Node → Bool
  | .scalar _ tag plain value =>
    value == Yaml.mergeKey && Yaml.scalarTag tag plain value == Yaml.mergeTag
  | _ => false

/-- Sets a field, given the fields of its mapping that are set already, and gives those with it. -/
def setField (d : Yaml.Document) (done : List Field) (field : Field) (name : Text)
    (key value : Yaml.Node) : Load (List Field) := do
  if done.contains field then
    report [.again key.line name]
    return done
  else
    match ← take d field.target value with
    | some setting => modify fun l => { l with settings := Field.set l.settings field setting }
    | none => pure ()
    return field :: done

/-- Sets what the pairs of a mapping set, in order. A name that is nothing sets nothing. -/
def setPairs (d : Yaml.Document) (done : List Field) : List (Yaml.Node × Yaml.Node) → Load Unit
  | [] => return ()
  | (key, value) :: rest => do
    if isMerge key then setPairs d done rest
    else
      match ← take d .text key with
      | some (.text name) =>
        if ← isHidden name then setPairs d done rest
        else
          match Field.all.find? fun f => utf8 f.name == name with
          | none =>
            report [.unknown key.line name]
            setPairs d done rest
          | some field => setPairs d (← setField d done field name key value) rest
      | _ => setPairs d done rest

/-- What a node is called that cannot be told apart from others. -/
def indistinctName : Yaml.Node → Text
  | .sequence .. => utf8 "[]interface \x7b\x7d"
  | .mapping _ _ pairs =>
    if pairs.all fun (key, _) => hasTextTag key then utf8 "map[string]interface \x7b\x7d"
    else utf8 "map[interface \x7b\x7d]interface \x7b\x7d"
  | _ => []
where
  hasTextTag : Yaml.Node → Bool
    | .scalar _ tag plain value =>
      let tag := Yaml.scalarTag tag plain value
      tag == Yaml.stringTag || tag == Yaml.mergeTag
    | _ => false

/-- The names in a mapping that hide those in what is merged into it: the ones that mean strings. -/
def namesOf (d : Yaml.Document) : List Yaml.Node → Load (List Text)
  | [] => return []
  | key :: rest => do
    match followed d key with
    | .scalar _ tag plain value =>
      match Yaml.scalarMeaning tag plain value with
      | .error failure => throw (.malformed failure)
      | .ok (.string name) => return name :: (← namesOf d rest)
      | .ok _ => namesOf d rest
    | .mapping _ _ pairs =>
      let repeats := repeatedKeys (pairs.map Prod.fst)
      if repeats.isEmpty then refuse (followed d key)
      else
        report repeats
        namesOf d rest
    | node => refuse node
where
  refuse (node : Yaml.Node) : Load (List Text) := fail (.unhashable (indistinctName node))

mutual

/-- Sets what a mapping sets, and then what is merged into it. A name that is there twice is a
mistake, and then nothing is set. -/
def setMapping (d : Yaml.Document) : Nat → List Nat → List (Yaml.Node × Yaml.Node) → Load Unit
  | 0, _, _ => return ()
  | fuel + 1, active, pairs => do
    let repeats := repeatedKeys (pairs.map Prod.fst)
    if repeats.isEmpty then
      setPairs d [] pairs
      match pairs.find? fun (key, _) => isMerge key with
      | none => return ()
      | some (_, value) =>
        match (← get).merged with
        | some _ => mergeNode d fuel active value
        | none =>
          let names ← namesOf d (pairs.map Prod.fst)
          modify fun l => { l with merged := some names }
          mergeNode d fuel active value
          modify fun l => { l with merged := none }
    else report repeats

/-- Merges a mapping, a reference to one, or a sequence of those. -/
def mergeNode (d : Yaml.Document) : Nat → List Nat → Yaml.Node → Load Unit
  | 0, _, _ => return ()
  | fuel + 1, active, .sequence _ _ items => mergeItems d fuel active items
  | fuel + 1, active, node => mergeItems d fuel active [node]

/-- Merges mappings, or references to them. A reference that is being merged already contains
itself. -/
def mergeItems (d : Yaml.Document) : Nat → List Nat → List Yaml.Node → Load Unit
  | 0, _, _ => return ()
  | _, _, [] => return ()
  | fuel + 1, active, node :: rest => do
    match node, followed d node with
    | .reference _ name number _, .mapping _ _ pairs =>
      if active.contains number then fail (.anchorInItself name)
        else setMapping d fuel (number :: active) pairs
    | _, .mapping _ _ pairs => setMapping d fuel active pairs
    | _, _ => fail .mergeShape
    mergeItems d fuel active rest

end

/-- The settings of a document. -/
def ofDocument (fuel : Nat) (d : Yaml.Document) : Load Unit :=
  match d.root with
  | .mapping _ _ pairs => setMapping d fuel [] pairs
  | node => discard (take d .record node)

/-- The settings of a file. Each reference is followed once at a time, so the fuel is enough. -/
def read (file : Text) : Except Problem Settings :=
  match Yaml.firstDocument file with
  | .error failure => .error (.malformed failure)
  | .ok none => .ok default
  | .ok (some d) => do
    let (_, loaded) ← ofDocument (4 * Nat.pow (file.length + 1) 2) d ⟨default, [], none⟩
    if loaded.mistakes.isEmpty then return loaded.settings else .error (.fields loaded.mistakes)

/-- The settings of a file that may not exist. Only a file that was asked for has to. -/
def load (file : Option Text) (explicit : Bool) : Except Problem Settings :=
  match file with
  | some file => read file
  | none => if explicit then .error .missing else .ok default

end Settings

end Lox
