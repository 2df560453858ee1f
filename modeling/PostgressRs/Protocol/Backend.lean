import PostgressRs.Lib.Utf8
import PostgressRs.Types

/-!
The backend messages and their encoding (`src/protocol/backend.rs`).
-/

namespace PostgressRs.Protocol.Backend

open PostgressRs.Lib.ByteBuffer
open PostgressRs.Lib.Utf8
open PostgressRs.Types

section Messages

inductive TransactionStatus where
  | idle
  | inTransaction
  | inFailedTransaction
deriving DecidableEq

def TransactionStatus.asU8 : TransactionStatus → UInt8
  | .idle => 0x49
  | .inTransaction => 0x54
  | .inFailedTransaction => 0x45

structure FieldDescription where
  name : String
  tableOid : Oid
  columnAttr : Int16
  typeOid : Oid
  typeSize : Int16
  typeMod : Int32
  format : Int16
deriving DecidableEq

structure ErrorField where
  fieldType : UInt8
  value : String
deriving DecidableEq

inductive BackendMessage where
  | authenticationOk
  | parameterStatus (name value : String)
  | backendKeyData (pid secret : UInt32)
  | readyForQuery (status : TransactionStatus)
  | rowDescription (fields : List FieldDescription)
  | dataRow (values : List (Option Bytes))
  | commandComplete (tag : String)
  | errorResponse (fields : List ErrorField)
  | noticeResponse (fields : List ErrorField)
  | parseComplete
  | bindComplete
  | closeComplete
  | noData
  | parameterDescription (types : List UInt32)
  | rowDescriptionEmpty
deriving DecidableEq

end Messages

section Fields

def cstring (s : String) : Bytes := asBytes s ++ [0]

def encodeInt16 (value : Int16) : Bytes := toBeBytes 2 value.toUInt16.toNat

def encodeInt32 (value : Int32) : Bytes := toBeBytes 4 value.toUInt32.toNat

def encodeValue : Option Bytes → Bytes
  | none => [0xFF, 0xFF, 0xFF, 0xFF]
  | some value => toBeBytes 4 value.length ++ value

/-- A count and as many fields. -/
def counted {α : Type} (encodeOne : α → Bytes) (values : List α) : Bytes :=
  toBeBytes 2 values.length ++ values.flatMap encodeOne

/-- The format is written as zero whatever it is. -/
def FieldDescription.encode (self : FieldDescription) : Bytes :=
  cstring self.name ++ (toBeBytes 4 self.tableOid.val.toNat ++ (encodeInt16 self.columnAttr ++
    (toBeBytes 4 self.typeOid.val.toNat ++ (encodeInt16 self.typeSize ++
      (encodeInt32 self.typeMod ++ encodeInt16 0)))))

def ErrorField.encode (self : ErrorField) : Bytes := self.fieldType :: cstring self.value

end Fields

section Encoding

/-- A message whose length is computed from its body. -/
def framed (kind : UInt8) (body : Bytes) : Bytes :=
  kind :: (toBeBytes 4 (body.length + 4) ++ body)

/-- A message whose length is written as a constant. -/
def frameOf (kind : UInt8) (length : Nat) (body : Bytes) : Bytes :=
  kind :: (toBeBytes 4 length ++ body)

def BackendMessage.encode : BackendMessage → Bytes
  | .authenticationOk => frameOf 0x52 4 (toBeBytes 4 0)
  | .parameterStatus name value => framed 0x53 (cstring name ++ cstring value)
  | .backendKeyData pid secret =>
      frameOf 0x4B 12 (toBeBytes 4 pid.toNat ++ toBeBytes 4 secret.toNat)
  | .readyForQuery status => frameOf 0x5A 5 [status.asU8]
  | .rowDescription fields => framed 0x54 (counted FieldDescription.encode fields)
  | .dataRow values => framed 0x44 (counted encodeValue values)
  | .commandComplete tag => framed 0x43 (cstring tag)
  | .errorResponse fields => framed 0x45 (fields.flatMap ErrorField.encode ++ [0])
  | .noticeResponse fields => framed 0x4E (fields.flatMap ErrorField.encode ++ [0])
  | .parseComplete => frameOf 0x31 4 []
  | .bindComplete => frameOf 0x32 4 []
  | .closeComplete => frameOf 0x33 4 []
  | .noData => frameOf 0x6E 4 []
  | .parameterDescription types =>
      framed 0x74 (counted (fun oid : UInt32 => toBeBytes 4 oid.toNat) types)
  | .rowDescriptionEmpty => frameOf 0x54 4 (toBeBytes 2 0)

/-- `encode(messages)`. -/
def encodeMessages (messages : List BackendMessage) : Bytes :=
  messages.flatMap BackendMessage.encode

end Encoding

end PostgressRs.Protocol.Backend
