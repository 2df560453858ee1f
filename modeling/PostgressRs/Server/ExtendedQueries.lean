import PostgressRs.Lib.KeyedViews
import PostgressRs.Protocol.Frontend
import PostgressRs.Server.QueryHandlers

/-!
Prepared statements and portals (`src/protocol/extended.rs`), and what a connection
does with each message (`handle_connection` in `src/server.rs`).
-/

namespace PostgressRs.Server.ExtendedQueries

open PostgressRs.Lib.ByteBuffer
open PostgressRs.Lib.KeyedViews
open PostgressRs.Lib.Transitions
open PostgressRs.Protocol.Backend
open PostgressRs.Protocol.Frontend
open PostgressRs.Server.Queries
open PostgressRs.Server.QueryHandlers
open PostgressRs.Txn.TransactionTable

section State

structure PreparedStatement (ε κ : Type) where
  name : String
  sql : String
  query : Query ε κ
  parameterTypes : List UInt32

structure Portal (ε κ : Type) where
  name : String
  statementName : String
  query : Query ε κ
  parameterValues : List (Option Bytes)
  resultFormats : List Int16

structure ExtendedQueryState (ε κ : Type) where
  statements : AList fun _ : String => PreparedStatement ε κ
  portals : AList fun _ : String => Portal ε κ
  unnamedStatement : Option (PreparedStatement ε κ)
  unnamedPortal : Option (Portal ε κ)

variable {ε κ : Type}

namespace ExtendedQueryState

def new : ExtendedQueryState ε κ where
  statements := ∅
  portals := ∅
  unnamedStatement := none
  unnamedPortal := none

def prepare (parsers : Parsers ε κ) (self : ExtendedQueryState ε κ) (name sql : String)
    (parameterTypes : List UInt32) : Except String (ExtendedQueryState ε κ) :=
  match (feed parsers [] sql.toList).1 with
  | none => .error ("Failed to parse SQL: " ++ sql)
  | some query =>
      let stmt := { name := name, sql := sql, query := query, parameterTypes := parameterTypes }
      .ok
        (if name = "" then { self with unnamedStatement := some stmt }
        else { self with statements := self.statements.insert name stmt })

/-- The statement that `bind` looks up. -/
def statementFor (self : ExtendedQueryState ε κ) (name : String) :
    Except String (PreparedStatement ε κ) :=
  if name = "" then
    match self.unnamedStatement with
    | some stmt => .ok stmt
    | none => .error "No unnamed prepared statement"
  else
    match self.statements.lookup name with
    | some stmt => .ok stmt
    | none => .error ("Prepared statement \"" ++ name ++ "\" not found")

def bind (self : ExtendedQueryState ε κ) (portalName statementName : String)
    (parameterValues : List (Option Bytes)) (resultFormats : List Int16) :
    Except String (ExtendedQueryState ε κ) :=
  match self.statementFor statementName with
  | .error e => .error e
  | .ok stmt =>
      let portal :=
        { name := portalName
          statementName := statementName
          query := stmt.query
          parameterValues := parameterValues
          resultFormats := resultFormats }
      .ok
        (if portalName = "" then { self with unnamedPortal := some portal }
        else { self with portals := self.portals.insert portalName portal })

def getPortal (self : ExtendedQueryState ε κ) (name : String) : Option (Portal ε κ) :=
  if name = "" then self.unnamedPortal else self.portals.lookup name

def closeStatement (self : ExtendedQueryState ε κ) (name : String) : ExtendedQueryState ε κ :=
  if name = "" then { self with unnamedStatement := none }
  else { self with statements := self.statements.erase name }

def closePortal (self : ExtendedQueryState ε κ) (name : String) : ExtendedQueryState ε κ :=
  if name = "" then { self with unnamedPortal := none }
  else { self with portals := self.portals.erase name }

end ExtendedQueryState

end State

section Loop

variable {ε κ : Type} [TextFormat ε]

/-- What `handle_connection` keeps between two messages. -/
structure ConnectionState (ε κ : Type) where
  buffer : List Char
  currentXid : Option TransactionId
  extState : ExtendedQueryState ε κ

def ConnectionState.new : ConnectionState ε κ where
  buffer := []
  currentXid := none
  extState := .new

/-- The reply to `Parse` and `Bind`. -/
def acknowledge (c : ConnectionState ε κ) (result : Except String (ExtendedQueryState ε κ))
    (message : BackendMessage) : ServerProgram κ (Option (ConnectionState ε κ)) :=
  match result with
  | .ok extState => do
      send [message]
      pure (some { c with extState := extState })
  | .error e => do
      sendError e
      pure (some c)

/-- The row limit of `Execute` is not used. -/
def executePortal (c : ConnectionState ε κ) :
    Option (Portal ε κ) → ServerProgram κ (Option (ConnectionState ε κ))
  | some portal => do
      let currentXid ← handleQuery portal.query c.currentXid
      pure (some { c with currentXid := currentXid })
  | none => pure (some c)

/-- One message; `none` ends the connection, and its state with it. -/
def handleMessage (parsers : Parsers ε κ) (c : ConnectionState ε κ) :
    Message → ServerProgram κ (Option (ConnectionState ε κ))
  | .query sql => do
      let (buffer, currentXid) ← handleQueryMessage parsers sql c.buffer c.currentXid
      pure (some { c with buffer := buffer, currentXid := currentXid })
  | .parse name sql parameterTypes =>
      acknowledge c (c.extState.prepare parsers name sql parameterTypes) .parseComplete
  | .bind portal statement _ parameterValues resultFormats =>
      acknowledge c (c.extState.bind portal statement parameterValues resultFormats) .bindComplete
  | .execute portal _ => executePortal c (c.extState.getPortal portal)
  | .sync => do
      send [.readyForQuery (txStatus c.currentXid)]
      pure (some c)
  | .describe _ _ => do
      send [.noData]
      pure (some c)
  | .close kind name => do
      let extState :=
        if kind = 0x53 then c.extState.closeStatement name else c.extState.closePortal name
      send [.closeComplete]
      pure (some { c with extState := extState })
  | .flush => pure (some c)
  | .terminate => pure none
  | .startupMessage _ _ => pure (some c)

def handleMessages (parsers : Parsers ε κ) :
    ConnectionState ε κ → List Message → ServerProgram κ (Option (ConnectionState ε κ))
  | c, [] => pure (some c)
  | c, msg :: messages => do
      match ← handleMessage parsers c msg with
      | some c => handleMessages parsers c messages
      | none => pure none

end Loop

end PostgressRs.Server.ExtendedQueries
