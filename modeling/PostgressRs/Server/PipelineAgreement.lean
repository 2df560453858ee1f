import PostgressRs.Server.PortalHistory
import PostgressRs.Server.Responses

/-!
Queries sent as `Parse`, `Bind` and `Execute` against the same queries sent as `Query`
messages.
-/

namespace PostgressRs.Server.PipelineAgreement

open PostgressRs.Executor.HeapAccess
open PostgressRs.Lib.ByteBuffer
open PostgressRs.Lib.Effects
open PostgressRs.Lib.Effects.Program
open PostgressRs.Lib.Procedure hiding ofExcept orPanic
open PostgressRs.Protocol.Backend
open PostgressRs.Protocol.Frontend
open PostgressRs.Server.Connections
open PostgressRs.Server.ExtendedQueries
open PostgressRs.Server.PortalHistory
open PostgressRs.Server.Queries
open PostgressRs.Server.QueryHandlers
open PostgressRs.Server.Responses
open PostgressRs.Storage.PageStore
open PostgressRs.Txn.TransactionTable
open PostgressRs.Wal.LogRecord

/-- A text with all that the extended protocol says about it. -/
structure Submission where
  sql : String
  statement : String
  portal : String
  parameterTypes : List UInt32
  parameterFormats : List Int16
  parameterValues : List (Option Bytes)
  resultFormats : List Int16
  maxRows : Int32

def Submission.extended (x : Submission) : List Message :=
  [.parse x.statement x.sql x.parameterTypes,
    .bind x.portal x.statement x.parameterFormats x.parameterValues x.resultFormats,
    .execute x.portal x.maxRows]

def Submission.simple (x : Submission) : Message := .query x.sql

/-- The replies other than the acknowledgements of `Parse` and `Bind`. -/
def answers (messages : List BackendMessage) : List BackendMessage :=
  messages.filter fun message => message ≠ .parseComplete ∧ message ≠ .bindComplete

theorem answers_append (before after : List BackendMessage) :
    answers (before ++ after) = answers before ++ answers after := List.filter_append ..

/-- How the handling of some messages has ended, without the prepared statements and
portals. -/
def ending {ε κ σ : Type} : Outcome (Shared σ) (Option (ConnectionState ε κ)) →
    Outcome (Shared σ) (Option (List Char × Option TransactionId))
  | .ok c s => .ok (c.map fun c => (c.buffer, c.currentXid)) s
  | .err e s => .err e s
  | .panic => .panic

section Programs

variable {ε κ : Type} [TextFormat ε] {parsers : Parsers ε κ} {query : Query ε κ}

omit [TextFormat ε] in
/-- A text that completes a query leaves nothing in the buffer. -/
theorem feed_complete {buffer data : List Char} (h : (feed parsers buffer data).1 = some query) :
    feed parsers buffer data = (some query, []) := by
  unfold feed at h ⊢
  dsimp only at h ⊢
  split at h
  · split at h
    · cases h
    · rename_i hblank
      rw [if_neg hblank]
      dsimp only at h ⊢
      rw [h]
  · cases h

/-- The three messages are handled as two acknowledgements and the query. -/
theorem handleMessages_extended {x : Submission} (h : (feed parsers [] x.sql.toList).1 = some query)
    (c : ConnectionState ε κ) (rest : List Message) :
    ∃ ext, handleMessages parsers c (x.extended ++ rest) =
      send [.parseComplete] >>= fun _ => send [.bindComplete] >>= fun _ =>
        handleQuery query c.currentXid >>= fun cur =>
          handleMessages parsers { c with currentXid := cur, extState := ext } rest := by
  obtain ⟨hnone, _⟩ | ⟨stmt, parsed, hstmt, hprepare, hstatements, _⟩ :=
    prepare_cases c.extState parsers x.statement x.sql x.parameterTypes
  · rw [prepared, h] at hnone
    cases hnone
  rw [prepared, h] at hstmt
  cases hstmt
  obtain ⟨hnone, _⟩ | ⟨made, ext, hmade, hbind, hportals, _⟩ :=
    bind_cases parsed x.portal x.statement x.parameterValues x.resultFormats
  · rw [bound, hstatements, if_pos rfl] at hnone
    cases hnone
  rw [bound, hstatements, if_pos rfl] at hmade
  cases hmade
  have hportal := hportals x.portal
  rw [if_pos rfl] at hportal
  refine ⟨ext, ?_⟩
  simp only [Submission.extended, List.cons_append, List.nil_append, handleMessages, handleMessage,
    hprepare, acknowledge, bind_bind, pure_then, hbind, hportal, executePortal]

/-- A `Query` message is handled as its query, on a connection with an empty buffer. -/
theorem handleMessages_query {sql : String} (h : (feed parsers [] sql.toList).1 = some query)
    {c : ConnectionState ε κ} (hbuffer : c.buffer = []) (rest : List Message) :
    handleMessages parsers c (.query sql :: rest) =
      handleQuery query c.currentXid >>= fun cur =>
        handleMessages parsers { c with currentXid := cur } rest := by
  simp only [handleMessages, handleMessage, handleQueryMessage, hbuffer, feed_complete h, bind_bind,
    pure_then]

end Programs

section Runs

variable {ε κ σ : Type} [TextFormat ε] [Bincode] [StorageTrait σ] (executor : SelectExecutor κ σ)
  {parsers : Parsers ε κ}

theorem run_send {α : Type} (messages : List BackendMessage) (f : Unit → ServerProgram κ α)
    (s : Shared σ) :
    run (serverMachine executor) (send messages >>= f) s =
      run (serverMachine executor) (f ()) s :=
  rfl

/-- A queue of queries does the same to the server and gets the same replies whether it
is sent in the extended protocol, under any names, or as `Query` messages. -/
theorem extended_agrees {submissions : List Submission}
    (hcomplete : ∀ x ∈ submissions, ∃ query, (feed parsers [] x.sql.toList).1 = some query)
    {c d : ConnectionState ε κ} (hc : c.buffer = []) (hd : d.buffer = [])
    (hxid : c.currentXid = d.currentXid) (s : Shared σ) :
    ending (run (serverMachine executor)
        (handleMessages parsers c (submissions.flatMap Submission.extended)) s) =
      ending (run (serverMachine executor)
        (handleMessages parsers d (submissions.map Submission.simple)) s) ∧
    answers (sent executor
        (handleMessages parsers c (submissions.flatMap Submission.extended)) s) =
      answers (sent executor
        (handleMessages parsers d (submissions.map Submission.simple)) s) := by
  induction submissions generalizing c d s with
  | nil =>
      refine ⟨?_, rfl⟩
      simp only [List.flatMap_nil, List.map_nil, handleMessages, run_pure, pure_apply, ending,
        Option.map_some, hc, hd, hxid]
  | cons x submissions ih =>
      obtain ⟨query, hquery⟩ := hcomplete x List.mem_cons_self
      have hrest := fun y hy => hcomplete y (List.mem_cons_of_mem x hy)
      obtain ⟨ext, hextended⟩ :=
        handleMessages_extended hquery c (submissions.flatMap Submission.extended)
      rw [List.flatMap_cons, List.map_cons, Submission.simple, hextended,
        handleMessages_query hquery hd (submissions.map Submission.simple), run_send, run_send,
        run_bind, run_bind, bind_apply, bind_apply, hxid]
      have hacks (f : Unit → ServerProgram κ (Option (ConnectionState ε κ))) :
          answers (sent executor
              (send [.parseComplete] >>= fun _ => send [.bindComplete] >>= f) s) =
            answers (sent executor (f ()) s) := rfl
      rw [hacks]
      cases hrun : run (serverMachine executor) (handleQuery query d.currentXid) s with
      | ok cur s' =>
          obtain ⟨hending, hanswers⟩ := ih hrest
            (c := { c with currentXid := cur, extState := ext })
            (d := { d with currentXid := cur }) hc hd rfl s'
          rw [sent_bind_ok executor hrun, sent_bind_ok executor hrun, answers_append,
            answers_append, hanswers]
          exact ⟨hending, rfl⟩
      | err e s' =>
          have hstop : ∀ a t, run (serverMachine executor) (handleQuery query d.currentXid) s ≠
              .ok a t := by simp [hrun]
          rw [sent_bind_stop executor hstop, sent_bind_stop executor hstop]
          exact ⟨rfl, rfl⟩
      | panic =>
          have hstop : ∀ a t, run (serverMachine executor) (handleQuery query d.currentXid) s ≠
              .ok a t := by simp [hrun]
          rw [sent_bind_stop executor hstop, sent_bind_stop executor hstop]
          exact ⟨rfl, rfl⟩

end Runs

section Example

def committed : Submission where
  sql := "COMMIT;"
  statement := "s"
  portal := "p"
  parameterTypes := []
  parameterFormats := []
  parameterValues := []
  resultFormats := []
  maxRows := 0

theorem agrees_committed :
    answers (sent noRows (handleMessages endParsers .new
        ([committed, committed].flatMap Submission.extended)) emptyShared) =
      answers (sent noRows (handleMessages endParsers .new
        ([committed, committed].map Submission.simple)) emptyShared) :=
  have hcomplete : ∀ x ∈ [committed, committed],
      ∃ query, (feed endParsers [] x.sql.toList).1 = some query := by
    intro x hx
    obtain rfl | rfl : x = committed ∨ x = committed := by simpa using hx
    · exact ⟨_, rfl⟩
    · exact ⟨_, rfl⟩
  (extended_agrees noRows hcomplete rfl rfl rfl emptyShared).2

end Example

end PostgressRs.Server.PipelineAgreement
