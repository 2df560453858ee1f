import PostgressRs.Lib.Utf8

/-!
The frontend messages and their decoder (`src/protocol/frontend.rs`).  A cursor
into a buffer is modelled by the bytes from it on, and `usize` has 64 bits.  A
`none` is a panic.
-/

namespace PostgressRs.Protocol.Frontend

open PostgressRs.Lib.ByteBuffer
open PostgressRs.Lib.Utf8

inductive Message where
  | startupMessage (protocolVersion : UInt32) (parameters : List (String × String))
  | query (sql : String)
  | parse (name sql : String) (parameterTypes : List UInt32)
  | bind (portal statement : String) (parameterFormats : List Int16)
      (parameterValues : List (Option Bytes)) (resultFormats : List Int16)
  | describe (kind : UInt8) (name : String)
  | execute (portal : String) (maxRows : Int32)
  | sync
  | close (kind : UInt8) (name : String)
  | flush
  | terminate
deriving DecidableEq

section Fields

/-- `body[cursor..cursor + count]`, with the cursor behind it. -/
def takeBytes (count : Nat) (rest : Bytes) : Option (Bytes × Bytes) :=
  if count ≤ rest.length then some (rest.take count, rest.drop count) else none

/-- The terminating zero is skipped if there is one. -/
def readCstring (rest : Bytes) : String × Bytes :=
  let bytes := rest.takeWhile (· ≠ 0)
  (fromUtf8Lossy bytes, (rest.drop bytes.length).drop 1)

def readU16 (rest : Bytes) : Option (UInt16 × Bytes) := do
  let (bytes, rest) ← takeBytes 2 rest
  pure (UInt16.ofNat (fromBeBytes bytes), rest)

def readU32 (rest : Bytes) : Option (UInt32 × Bytes) := do
  let (bytes, rest) ← takeBytes 4 rest
  pure (UInt32.ofNat (fromBeBytes bytes), rest)

def readI16 (rest : Bytes) : Option (Int16 × Bytes) := do
  let (word, rest) ← readU16 rest
  pure (word.toInt16, rest)

def readI32 (rest : Bytes) : Option (Int32 × Bytes) := do
  let (word, rest) ← readU32 rest
  pure (word.toInt32, rest)

/-- One parameter value.  A negative length other than -1 is a `usize` beyond
any buffer. -/
def readValue (rest : Bytes) : Option (Option Bytes × Bytes) := do
  let (len, rest) ← readI32 rest
  if len = -1 then pure (none, rest)
  else if len < 0 then none
  else
    let (bytes, rest) ← takeBytes len.toNatClampNeg rest
    pure (some bytes, rest)

/-- The loops `for _ in 0..count`. -/
def readMany {α : Type} (readOne : Bytes → Option (α × Bytes)) :
    Nat → Bytes → Option (List α × Bytes)
  | 0, rest => some ([], rest)
  | count + 1, rest => do
      let (value, rest) ← readOne rest
      let (values, rest) ← readMany readOne count rest
      pure (value :: values, rest)

/-- A `u16` count and as many fields. -/
def readCounted {α : Type} (readOne : Bytes → Option (α × Bytes)) (rest : Bytes) :
    Option (List α × Bytes) := do
  let (count, rest) ← readU16 rest
  readMany readOne count.toNat rest

/-- `String::from_utf8_lossy(bytes).trim_end_matches('\0')`. -/
def trimmedText (bytes : Bytes) : String :=
  String.ofList (((fromUtf8Lossy bytes).toList.reverse.dropWhile (· = '\x00')).reverse)

end Fields

section Bodies

def decodeParse (body : Bytes) : Option Message := do
  let (name, rest) := readCstring body
  let (sql, rest) := readCstring rest
  let (parameterTypes, _) ← readCounted readU32 rest
  pure (.parse name sql parameterTypes)

def decodeBind (body : Bytes) : Option Message := do
  let (portal, rest) := readCstring body
  let (statement, rest) := readCstring rest
  let (parameterFormats, rest) ← readCounted readI16 rest
  let (parameterValues, rest) ← readCounted readValue rest
  let (resultFormats, _) ← readCounted readI16 rest
  pure (.bind portal statement parameterFormats parameterValues resultFormats)

def decodeExecute (body : Bytes) : Option Message := do
  let (portal, rest) := readCstring body
  let (maxRows, _) ← readI32 rest
  pure (.execute portal maxRows)

/-- The kind and the name of `Describe` and `Close`. -/
def decodeNamed (body : Bytes) : Option (UInt8 × String) :=
  match body with
  | [] => none
  | kind :: name => some (kind, trimmedText name)

/-- The message in a body; other types are skipped. -/
def decodeBody (msgType : UInt8) (body : Bytes) : Option (Option Message) :=
  if msgType = 0x51 then some (some (.query (trimmedText body)))
  else if msgType = 0x50 then (decodeParse body).map some
  else if msgType = 0x42 then (decodeBind body).map some
  else if msgType = 0x44 then
    (decodeNamed body).map fun named => some (.describe named.1 named.2)
  else if msgType = 0x45 then (decodeExecute body).map some
  else if msgType = 0x53 then some (some .sync)
  else if msgType = 0x43 then
    (decodeNamed body).map fun named => some (.close named.1 named.2)
  else if msgType = 0x48 then some (some .flush)
  else if msgType = 0x58 then some (some .terminate)
  else some none

end Bodies

/-- `i32::from_be_bytes(..) as usize`: the sign is extended. -/
def lengthField (bytes : Bytes) : Nat :=
  let word := fromBeBytes bytes
  if word < 2 ^ 31 then word else word + (2 ^ 64 - 2 ^ 32)

/-- The loop of `Message::decode` at position `pos`, with `rest` of the buffer
left.  Each round takes at least five bytes. -/
def decodeFrom : Nat → Nat → Bytes → Option (List Message)
  | 0, _, _ => none
  | fuel + 1, pos, rest =>
      if rest.length < 4 then some []
      else
        match rest with
        | msgType :: b₀ :: b₁ :: b₂ :: b₃ :: rest =>
            let length := lengthField [b₀, b₁, b₂, b₃]
            if length < 4 then some []
            else if 2 ^ 64 ≤ pos + 1 + length then none
            else if pos + 5 + rest.length < pos + 1 + length then some []
            else do
              let msg ← decodeBody msgType (rest.take (length - 4))
              let messages ← decodeFrom fuel (pos + 1 + length) (rest.drop (length - 4))
              pure (msg.toList ++ messages)
        -- With four bytes left, the last byte of the length is not there.
        | _ => none

/-- `Message::decode`; it never returns an `Err`. -/
def decode (data : Bytes) : Option (List Message) :=
  decodeFrom (data.length + 1) 0 data

end PostgressRs.Protocol.Frontend
