import BuildMatrix.Yaml.Token

/-!
# YAML events

The events of a YAML document are its nodes written out in order: a scalar or an alias is one event,
and a collection is a start, its parts, and an end. They are read off the tokens along the grammar
of YAML, in which a missing node is an empty plain scalar.
-/

namespace BuildMatrix.Yaml

/-- One **event** of a document. -/
inductive Event where
  | alias (name : String)
  | scalar (text : String) (style : Style) (tag anchor : Option String)
  | sequenceStart (anchor : Option String)
  | sequenceEnd
  | mappingStart (anchor : Option String)
  | mappingEnd
  deriving Inhabited, Repr

def missing : Event := .scalar "" .plain none none

/-- What tags are short for. -/
abbrev Handles := List (String × String)

/-- What the handles stand for that a document does not have to declare. -/
def defaultHandles : Handles := [("!", "!"), ("!!", "tag:yaml.org,2002:")]

/-- The full text of a tag; a handle that is not declared fails. -/
def resolveTag (handles : Handles) (handle suffix : String) : Option String :=
  if handle = "" then some suffix
  else (Json.assoc? handle handles).map (· ++ suffix)

/-- The anchor and the tag before a node, in either order. -/
def properties : List Token → Option String × Option (String × String) × List Token
  | .anchor name :: .tag handle suffix :: rest => (some name, some (handle, suffix), rest)
  | .tag handle suffix :: .anchor name :: rest => (some name, some (handle, suffix), rest)
  | .anchor name :: rest => (some name, none, rest)
  | .tag handle suffix :: rest => (none, some (handle, suffix), rest)
  | rest => (none, none, rest)

/-- Whether no block node can start here: the next token belongs to the mapping around it. -/
def endsPair : List Token → Bool
  | .key :: _ => true
  | .value :: _ => true
  | .blockEnd :: _ => true
  | _ => false

/-- What ends an item of a list. -/
def endsItem : List Token → Bool
  | .flowEntry :: _ => true
  | .flowSequenceEnd :: _ => true
  | _ => false

/-- What ends an entry of a mapping. -/
def endsEntry : List Token → Bool
  | .flowEntry :: _ => true
  | .flowMappingEnd :: _ => true
  | _ => false

/-- Whether the next token is a `:`. -/
def atValue : List Token → Bool
  | .value :: _ => true
  | _ => false

/-- Events so far and tokens left. -/
abbrev Reading := Option (List Event × List Token)

mutual

/-- The events of **one node**. A block node may be a block collection, and with `indentless` a
sequence that is not indented more than the mapping around it. -/
def node (handles : Handles) :
    Nat → (block indentless : Bool) → List Event → List Token → Reading
  | 0, _, _, _, _ => none
  | _ + 1, _, _, done, .alias name :: rest => some (.alias name :: done, rest)
  | fuel + 1, block, indentless, done, tokens =>
    let (anchor, property, rest) := properties tokens
    let tag : Option (Option String) := match property with
      | some (handle, suffix) => (resolveTag handles handle suffix).map some
      | none => some none
    match tag with
    | none => none
    | some tag =>
      match rest with
      | .scalar text style :: rest => some (.scalar text style tag anchor :: done, rest)
      | .flowSequence :: rest =>
        flowItems handles fuel true (.sequenceStart anchor :: done) rest
      | .flowMapping :: rest => flowPairs handles fuel true (.mappingStart anchor :: done) rest
      | .blockSequence :: rest =>
        if block then blockItems handles fuel (.sequenceStart anchor :: done) rest
        else if anchor.isSome || tag.isSome then
          some (.scalar "" .plain tag anchor :: done, .blockSequence :: rest)
        else none
      | .blockMapping :: rest =>
        if block then blockPairs handles fuel (.mappingStart anchor :: done) rest
        else if anchor.isSome || tag.isSome then
          some (.scalar "" .plain tag anchor :: done, .blockMapping :: rest)
        else none
      | .blockEntry :: rest =>
        if indentless then
          flatItems handles fuel (.sequenceStart anchor :: done) (.blockEntry :: rest)
        else if anchor.isSome || tag.isSome then
          some (.scalar "" .plain tag anchor :: done, .blockEntry :: rest)
        else none
      | rest =>
        if anchor.isSome || tag.isSome then
          some (.scalar "" .plain tag anchor :: done, rest)
        else none

def blockItems (handles : Handles) : Nat → List Event → List Token → Reading
  | 0, _, _ => none
  | fuel + 1, done, .blockEntry :: rest =>
    match rest with
    | .blockEntry :: _ => blockItems handles fuel (missing :: done) rest
    | .blockEnd :: _ => blockItems handles fuel (missing :: done) rest
    | _ =>
      match node handles fuel true false done rest with
      | some (done, rest) => blockItems handles fuel done rest
      | none => none
  | _ + 1, done, .blockEnd :: rest => some (.sequenceEnd :: done, rest)
  | _ + 1, _, _ => none

/-- The items of a sequence that is not indented more than the mapping around it. -/
def flatItems (handles : Handles) : Nat → List Event → List Token → Reading
  | 0, _, _ => none
  | fuel + 1, done, .blockEntry :: rest =>
    match rest with
    | .blockEntry :: _ => flatItems handles fuel (missing :: done) rest
    | _ =>
      if endsPair rest then flatItems handles fuel (missing :: done) rest
      else
        match node handles fuel true false done rest with
        | some (done, rest) => flatItems handles fuel done rest
        | none => none
  | _ + 1, done, rest => some (.sequenceEnd :: done, rest)

def blockPairs (handles : Handles) : Nat → List Event → List Token → Reading
  | 0, _, _ => none
  | fuel + 1, done, .key :: rest =>
    if endsPair rest then blockValue handles fuel (missing :: done) rest
    else
      match node handles fuel true true done rest with
      | some (done, rest) => blockValue handles fuel done rest
      | none => none
  | _ + 1, done, .blockEnd :: rest => some (.mappingEnd :: done, rest)
  | _ + 1, _, _ => none

/-- The value of an entry of a block mapping, and the entries after it. -/
def blockValue (handles : Handles) : Nat → List Event → List Token → Reading
  | 0, _, _ => none
  | fuel + 1, done, .value :: rest =>
    if endsPair rest then blockPairs handles fuel (missing :: done) rest
    else
      match node handles fuel true true done rest with
      | some (done, rest) => blockPairs handles fuel done rest
      | none => none
  | fuel + 1, done, rest => blockPairs handles fuel (missing :: done) rest

/-- The items of a flow sequence; an item may be a mapping with one entry. -/
def flowItems (handles : Handles) : Nat → (first : Bool) → List Event → List Token → Reading
  | 0, _, _, _ => none
  | _ + 1, _, done, .flowSequenceEnd :: rest => some (.sequenceEnd :: done, rest)
  | fuel + 1, first, done, tokens =>
    let entry : Option (List Token) :=
      if first then some tokens
      else match tokens with
        | .flowEntry :: rest => some rest
        | _ => none
    match entry with
    | none => none
    | some (.flowSequenceEnd :: rest) => some (.sequenceEnd :: done, rest)
    | some (.key :: rest) =>
      let done := .mappingStart none :: done
      if endsItem rest || atValue rest then
        flowItemValue handles fuel (missing :: done) (rest.drop 1)
      else
        match node handles fuel false false done rest with
        | some (done, rest) => flowItemValue handles fuel done rest
        | none => none
    | some tokens =>
      match node handles fuel false false done tokens with
      | some (done, rest) => flowItems handles fuel false done rest
      | none => none

/-- The value of an item that is a mapping with one entry, and the items after it. -/
def flowItemValue (handles : Handles) : Nat → List Event → List Token → Reading
  | 0, _, _ => none
  | fuel + 1, done, tokens =>
    let present := match tokens with
      | .value :: rest => !endsItem rest
      | _ => false
    let rest := if atValue tokens then tokens.drop 1 else tokens
    if present then
      match node handles fuel false false done rest with
      | some (done, rest) => flowItems handles fuel false (.mappingEnd :: done) rest
      | none => none
    else flowItems handles fuel false (.mappingEnd :: missing :: done) rest

def flowPairs (handles : Handles) : Nat → (first : Bool) → List Event → List Token → Reading
  | 0, _, _, _ => none
  | _ + 1, _, done, .flowMappingEnd :: rest => some (.mappingEnd :: done, rest)
  | fuel + 1, first, done, tokens =>
    let entry : Option (List Token) :=
      if first then some tokens
      else match tokens with
        | .flowEntry :: rest => some rest
        | _ => none
    match entry with
    | none => none
    | some (.flowMappingEnd :: rest) => some (.mappingEnd :: done, rest)
    | some (.key :: rest) =>
      if endsEntry rest || atValue rest then flowValue handles fuel (missing :: done) rest
      else
        match node handles fuel false false done rest with
        | some (done, rest) => flowValue handles fuel done rest
        | none => none
    | some tokens =>
      match node handles fuel false false done tokens with
      | some (done, rest) => flowPairs handles fuel false (missing :: done) rest
      | none => none

/-- The value of an entry of a flow mapping, and the entries after it. -/
def flowValue (handles : Handles) : Nat → List Event → List Token → Reading
  | 0, _, _ => none
  | fuel + 1, done, tokens =>
    match tokens with
    | .value :: rest =>
      if endsEntry rest then flowPairs handles fuel false (missing :: done) rest
      else
        match node handles fuel false false done rest with
        | some (done, rest) => flowPairs handles fuel false done rest
        | none => none
    | _ => flowPairs handles fuel false (missing :: done) tokens

end

/-! ### Documents -/

/-- The handles that directives declare before a document, and the tokens after them. A version is
declared at most once, and so is each handle. -/
def directives : (versions : Nat) → Handles → List Token → Option (Handles × List Token)
  | versions, handles, .version major minor :: rest =>
    if versions = 0 && major = 1 && (minor = 1 || minor = 2) then
      directives 1 handles rest
    else none
  | versions, handles, .tagDirective handle start :: rest =>
    if (Json.assoc? handle handles).isSome then none
    else directives versions (handles ++ [(handle, start)]) rest
  | _, handles, rest => some (handles ++ defaultHandles, rest)

/-- Whether a document that was started explicitly is empty. -/
def isEmptyDocument : List Token → Bool
  | [] => true
  | .version _ _ :: _ => true
  | .tagDirective _ _ :: _ => true
  | .documentStart :: _ => true
  | .documentEnd :: _ => true
  | _ => false

/-- The events of the first document, in reverse, and the tokens after it. -/
def document (fuel : Nat) (tokens : List Token) : Reading :=
  let explicit := match tokens with
    | .version _ _ :: _ => true
    | .tagDirective _ _ :: _ => true
    | .documentStart :: _ => true
    | _ => false
  if explicit then
    match directives 0 [] tokens with
    | some (handles, .documentStart :: rest) =>
      if isEmptyDocument rest then some ([missing], rest)
      else node handles fuel true false [] rest
    | _ => none
  else node defaultHandles fuel true false [] tokens

/-- The events of **the one document** of a stream, none for an empty stream; nothing for a text
that is no YAML stream, or one of several documents. -/
def events? (text : String) : Option (List Event) := do
  let tokens ← tokens? text
  if tokens.isEmpty then some []
  else do
    let (done, rest) ← document (4 * tokens.length + 8) tokens
    if (rest.dropWhile (· = .documentEnd)).isEmpty then some done.reverse else none

end BuildMatrix.Yaml
