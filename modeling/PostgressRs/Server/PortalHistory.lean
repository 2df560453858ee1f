import PostgressRs.Server.Connections
import PostgressRs.Server.ExtendedQueries

/-!
Which query an `Execute` runs, in terms of the messages that the connection has had.
-/

namespace PostgressRs.Server.PortalHistory

open PostgressRs.Lib.ByteBuffer
open PostgressRs.Lib.Effects
open PostgressRs.Lib.Effects.Program
open PostgressRs.Lib.KeyedViews
open PostgressRs.Lib.Transitions
open PostgressRs.Protocol.Backend
open PostgressRs.Protocol.Frontend
open PostgressRs.Server.Connections
open PostgressRs.Server.ExtendedQueries
open PostgressRs.Server.Queries
open PostgressRs.Server.QueryHandlers

section Slots

variable {α : Type} {named : AList fun _ : String => α} {unnamed : Option α} {name : String}

/-- One map for the named ones and the unnamed one. -/
def slot (named : AList fun _ : String => α) (unnamed : Option α) (name : String) : Option α :=
  if name = "" then unnamed else named.lookup name

theorem slot_unnamed (value : Option α) (n : String) :
    slot named value n = if n = "" then value else slot named unnamed n := by
  unfold slot
  split
  · rfl
  · rfl

theorem slot_insert (hname : name ≠ "") (a : α) (n : String) :
    slot (named.insert name a) unnamed n = if n = name then some a else slot named unnamed n := by
  unfold slot
  by_cases hn : n = name
  · rw [if_neg (hn ▸ hname), if_pos hn, hn, AList.lookup_insert]
  · rw [if_neg hn, AList.lookup_insert_ne hn]

theorem slot_erase (hname : name ≠ "") (n : String) :
    slot (named.erase name) unnamed n = if n = name then none else slot named unnamed n := by
  unfold slot
  by_cases hn : n = name
  · rw [if_neg (hn ▸ hname), if_pos hn, hn, AList.lookup_erase]
  · rw [if_neg hn, AList.lookup_erase_ne hn]

end Slots

variable {ε κ : Type}

section State

variable {self : ExtendedQueryState ε κ} {parsers : Parsers ε κ}

/-- The statement that a successful `Parse` prepares. -/
def prepared (parsers : Parsers ε κ) (name sql : String) (parameterTypes : List UInt32) :
    Option (PreparedStatement ε κ) :=
  (feed parsers [] sql.toList).1.map fun query =>
    { name := name, sql := sql, query := query, parameterTypes := parameterTypes }

def statement? (self : ExtendedQueryState ε κ) : String → Option (PreparedStatement ε κ) :=
  slot self.statements self.unnamedStatement

/-- The portal that a successful `Bind` makes. -/
def bound (self : ExtendedQueryState ε κ) (portal statement : String)
    (parameterValues : List (Option Bytes)) (resultFormats : List Int16) :
    Option (Portal ε κ) :=
  (statement? self statement).map fun stmt =>
    { name := portal
      statementName := statement
      query := stmt.query
      parameterValues := parameterValues
      resultFormats := resultFormats }

theorem statementFor_toOption (self : ExtendedQueryState ε κ) (name : String) :
    (self.statementFor name).toOption = statement? self name := by
  unfold ExtendedQueryState.statementFor statement? slot
  by_cases hname : name = ""
  · rw [if_pos hname, if_pos hname]
    cases self.unnamedStatement with
    | none => rfl
    | some stmt => rfl
  · rw [if_neg hname, if_neg hname]
    cases self.statements.lookup name with
    | none => rfl
    | some stmt => rfl

theorem prepare_cases (self : ExtendedQueryState ε κ) (parsers : Parsers ε κ) (name sql : String)
    (types : List UInt32) :
    (prepared parsers name sql types = none ∧
      self.prepare parsers name sql types = .error ("Failed to parse SQL: " ++ sql)) ∨
    ∃ stmt ext', prepared parsers name sql types = some stmt ∧
      self.prepare parsers name sql types = .ok ext' ∧
      (∀ n, statement? ext' n = if n = name then some stmt else statement? self n) ∧
      ∀ n, ext'.getPortal n = self.getPortal n := by
  unfold prepared ExtendedQueryState.prepare
  cases (feed parsers [] sql.toList).1 with
  | none => exact Or.inl ⟨rfl, rfl⟩
  | some query =>
      refine Or.inr ⟨_, _, rfl, rfl, ?_⟩
      by_cases hname : name = ""
      · subst hname
        exact ⟨fun n => slot_unnamed _ n, fun _ => rfl⟩
      · rw [if_neg hname]
        exact ⟨fun n => slot_insert hname _ n, fun _ => rfl⟩

theorem bind_cases (self : ExtendedQueryState ε κ) (portal statement : String)
    (values : List (Option Bytes)) (formats : List Int16) :
    (bound self portal statement values formats = none ∧
      ∃ e, self.bind portal statement values formats = .error e) ∨
    ∃ made ext', bound self portal statement values formats = some made ∧
      self.bind portal statement values formats = .ok ext' ∧
      (∀ n, ext'.getPortal n = if n = portal then some made else self.getPortal n) ∧
      ∀ n, statement? ext' n = statement? self n := by
  unfold bound ExtendedQueryState.bind
  rw [← statementFor_toOption]
  cases self.statementFor statement with
  | error e => exact Or.inl ⟨rfl, e, rfl⟩
  | ok stmt =>
      refine Or.inr ⟨_, _, rfl, rfl, ?_⟩
      by_cases hportal : portal = ""
      · subst hportal
        exact ⟨fun n => slot_unnamed _ n, fun _ => rfl⟩
      · rw [if_neg hportal]
        exact ⟨fun n => slot_insert hportal _ n, fun _ => rfl⟩

theorem closeStatement_slots (self : ExtendedQueryState ε κ) (name : String) :
    (∀ n, statement? (self.closeStatement name) n = if n = name then none else statement? self n) ∧
      ∀ n, (self.closeStatement name).getPortal n = self.getPortal n := by
  unfold ExtendedQueryState.closeStatement
  by_cases hname : name = ""
  · subst hname
    exact ⟨fun n => slot_unnamed none n, fun _ => rfl⟩
  · rw [if_neg hname]
    exact ⟨fun n => slot_erase hname n, fun _ => rfl⟩

theorem closePortal_slots (self : ExtendedQueryState ε κ) (name : String) :
    (∀ n, (self.closePortal name).getPortal n = if n = name then none else self.getPortal n) ∧
      ∀ n, statement? (self.closePortal name) n = statement? self n := by
  unfold ExtendedQueryState.closePortal
  by_cases hname : name = ""
  · subst hname
    exact ⟨fun n => slot_unnamed none n, fun _ => rfl⟩
  · rw [if_neg hname]
    exact ⟨fun n => slot_erase hname n, fun _ => rfl⟩

end State

section Messages

variable [TextFormat ε] (parsers : Parsers ε κ)

/-- The connection handles a message and goes on, whatever its effects are answered. -/
def MessageStep (c : ConnectionState ε κ) (msg : Message) (c' : ConnectionState ε κ) : Prop :=
  MayReturn (handleMessage parsers c msg) (some c')

/-- A `Parse` that does not fail writes its name, and a `Close` removes it. -/
def statementWrite : Transition (ConnectionState ε κ) Message → String →
    Option (Option (PreparedStatement ε κ))
  | ⟨_, .parse name sql types, _⟩, n =>
      if n = name then (prepared parsers name sql types).map some else none
  | ⟨_, .close kind name, _⟩, n => if kind = 0x53 ∧ n = name then some none else none
  | _, _ => none

/-- A `Bind` that does not fail writes its name, and a `Close` removes it. -/
def portalWrite : Transition (ConnectionState ε κ) Message → String → Option (Option (Portal ε κ))
  | ⟨c, .bind portal statement _ values formats, _⟩, n =>
      if n = portal then (bound c.extState portal statement values formats).map some else none
  | ⟨_, .close kind name, _⟩, n => if kind ≠ 0x53 ∧ n = name then some none else none
  | _, _ => none

/-- What a message makes of the prepared statements and portals. -/
def respond (ext : ExtendedQueryState ε κ) : Message → ExtendedQueryState ε κ
  | .parse name sql types => (ext.prepare parsers name sql types).toOption.getD ext
  | .bind portal statement _ values formats =>
      (ext.bind portal statement values formats).toOption.getD ext
  | .close kind name => if kind = 0x53 then ext.closeStatement name else ext.closePortal name
  | _ => ext

variable {parsers}

theorem mayReturn_then_pure {α β : Type} {p : ServerProgram κ α} {f : α → β} {b : β}
    (h : MayReturn (p >>= fun a => pure (f a)) b) : ∃ a, b = f a := by
  obtain ⟨a, _, hb⟩ := mayReturn_bind.mp h
  exact ⟨a, (mayReturn_pure.mp hb).symm⟩

omit [TextFormat ε] in
theorem extState_acknowledge {c c' : ConnectionState ε κ} {message : BackendMessage}
    {result : Except String (ExtendedQueryState ε κ)}
    (h : MayReturn (acknowledge c result message) (some c')) :
    c'.extState = result.toOption.getD c.extState := by
  cases result with
  | ok ext =>
      obtain ⟨_, heq⟩ := mayReturn_then_pure h
      cases heq
      rfl
  | error e =>
      obtain ⟨_, heq⟩ := mayReturn_then_pure h
      cases heq
      rfl

theorem extState_of_step {c c' : ConnectionState ε κ} {msg : Message}
    (h : MessageStep parsers c msg c') : c'.extState = respond parsers c.extState msg := by
  cases msg with
  | query sql =>
      obtain ⟨_, heq⟩ := mayReturn_then_pure h
      cases heq
      rfl
  | parse name sql types => exact extState_acknowledge h
  | bind portal statement paramFormats values formats => exact extState_acknowledge h
  | execute portal maxRows =>
      change MayReturn (executePortal c (c.extState.getPortal portal)) _ at h
      cases hportal : c.extState.getPortal portal with
      | none =>
          rw [hportal] at h
          cases mayReturn_pure.mp h
          rfl
      | some made =>
          rw [hportal] at h
          obtain ⟨_, heq⟩ := mayReturn_then_pure h
          cases heq
          rfl
  | close kind name =>
      obtain ⟨_, heq⟩ := mayReturn_then_pure h
      cases heq
      rfl
  | sync =>
      obtain ⟨_, heq⟩ := mayReturn_then_pure h
      cases heq
      rfl
  | describe kind name =>
      obtain ⟨_, heq⟩ := mayReturn_then_pure h
      cases heq
      rfl
  | flush =>
      cases mayReturn_pure.mp h
      rfl
  | terminate => cases mayReturn_pure.mp h
  | startupMessage version parameters =>
      cases mayReturn_pure.mp h
      rfl

theorem messageStep_parse {c : ConnectionState ε κ} {ext : ExtendedQueryState ε κ}
    {name sql : String} {types : List UInt32}
    (h : c.extState.prepare parsers name sql types = .ok ext) :
    MessageStep parsers c (.parse name sql types) { c with extState := ext } := by
  change MayReturn (acknowledge c (c.extState.prepare parsers name sql types) _) _
  rw [h]
  exact .perform () (.done _)

theorem messageStep_bind {c : ConnectionState ε κ} {ext : ExtendedQueryState ε κ}
    {portal statement : String} {paramFormats formats : List Int16}
    {values : List (Option Bytes)}
    (h : c.extState.bind portal statement values formats = .ok ext) :
    MessageStep parsers c (.bind portal statement paramFormats values formats)
      { c with extState := ext } := by
  change MayReturn (acknowledge c (c.extState.bind portal statement values formats) _) _
  rw [h]
  exact .perform () (.done _)

theorem records_statements :
    Records (MessageStep parsers) (fun c => statement? c.extState) (statementWrite parsers) where
  after := by
    intro c msg c' hstep k
    rw [extState_of_step hstep]
    cases msg with
    | parse name sql types =>
        simp only [statementWrite, respond]
        rcases prepare_cases c.extState parsers name sql types with
          ⟨hnone, herror⟩ | ⟨stmt, ext', hstmt, hok, hstatements, _⟩
        · rw [hnone, herror]
          split
          · rfl
          · rfl
        · rw [hstmt, hok]
          refine (hstatements k).trans ?_
          split
          · rfl
          · rfl
    | bind portal statement paramFormats values formats =>
        rcases bind_cases c.extState portal statement values formats with
          ⟨_, e, herror⟩ | ⟨made, ext', _, hok, _, hstatements⟩
        · simp only [statementWrite, respond, herror]
          rfl
        · simp only [statementWrite, respond, hok]
          exact hstatements k
    | close kind name =>
        simp only [statementWrite, respond]
        by_cases hkind : kind = 0x53
        · rw [if_pos hkind, (closeStatement_slots c.extState name).1 k]
          by_cases hname : k = name
          · rw [if_pos hname, if_pos ⟨hkind, hname⟩]
            rfl
          · rw [if_neg hname, if_neg fun h => hname h.2]
            rfl
        · rw [if_neg hkind, (closePortal_slots c.extState name).2 k, if_neg fun h => hkind h.1]
          rfl
    | _ => rfl

theorem records_portals :
    Records (MessageStep parsers) (fun c => c.extState.getPortal) portalWrite where
  after := by
    intro c msg c' hstep k
    rw [extState_of_step hstep]
    cases msg with
    | parse name sql types =>
        rcases prepare_cases c.extState parsers name sql types with
          ⟨_, herror⟩ | ⟨stmt, ext', _, hok, _, hportals⟩
        · simp only [portalWrite, respond, herror]
          rfl
        · simp only [portalWrite, respond, hok]
          exact hportals k
    | bind portal statement paramFormats values formats =>
        simp only [portalWrite, respond]
        rcases bind_cases c.extState portal statement values formats with
          ⟨hnone, e, herror⟩ | ⟨made, ext', hmade, hok, hportals, _⟩
        · rw [hnone, herror]
          split
          · rfl
          · rfl
        · rw [hmade, hok]
          refine (hportals k).trans ?_
          split
          · rfl
          · rfl
    | close kind name =>
        simp only [portalWrite, respond]
        by_cases hkind : kind = 0x53
        · rw [if_pos hkind, (closeStatement_slots c.extState name).2 k,
            if_neg fun h => h.1 hkind]
          rfl
        · rw [if_neg hkind, (closePortal_slots c.extState name).1 k]
          by_cases hname : k = name
          · rw [if_pos hname, if_pos ⟨hkind, hname⟩]
            rfl
          · rw [if_neg hname, if_neg fun h => hname h.2]
            rfl
    | _ => rfl

omit [TextFormat ε] in
theorem portalWrite_eq_some_iff {tr : Transition (ConnectionState ε κ) Message} {name : String}
    {portal : Portal ε κ} :
    portalWrite tr name = some (some portal) ↔
      portal.name = name ∧
        (∃ formats, tr.label = .bind name portal.statementName formats portal.parameterValues
          portal.resultFormats) ∧
        ∃ stmt, statement? tr.source.extState portal.statementName = some stmt ∧
          stmt.query = portal.query := by
  obtain ⟨c, msg, c'⟩ := tr
  constructor
  · intro h
    cases msg with
    | bind made statement paramFormats values formats =>
        simp only [portalWrite] at h
        split at h
        · rename_i hname
          subst hname
          obtain ⟨_, hbound, heq⟩ := Option.map_eq_some_iff.mp h
          cases heq
          obtain ⟨stmt, hstmt, rfl⟩ := Option.map_eq_some_iff.mp hbound
          exact ⟨rfl, ⟨paramFormats, rfl⟩, stmt, hstmt, rfl⟩
        · cases h
    | close kind n =>
        simp only [portalWrite] at h
        split at h
        · cases h
        · cases h
    | _ => cases h
  · rintro ⟨rfl, ⟨paramFormats, rfl⟩, stmt, hstmt, hquery⟩
    simp only [portalWrite, if_true, bound, hstmt, Option.map_some, hquery]

omit [TextFormat ε] in
theorem statementWrite_eq_some_iff {tr : Transition (ConnectionState ε κ) Message} {name : String}
    {stmt : PreparedStatement ε κ} :
    statementWrite parsers tr name = some (some stmt) ↔
      ∃ sql types, tr.label = .parse name sql types ∧
        prepared parsers name sql types = some stmt := by
  obtain ⟨c, msg, c'⟩ := tr
  constructor
  · intro h
    cases msg with
    | parse n sql types =>
        simp only [statementWrite] at h
        split at h
        · rename_i hname
          subst hname
          obtain ⟨_, hprepared, heq⟩ := Option.map_eq_some_iff.mp h
          cases heq
          exact ⟨sql, types, rfl, hprepared⟩
        · cases h
    | close kind n =>
        simp only [statementWrite] at h
        split at h
        · cases h
        · cases h
    | _ => cases h
  · rintro ⟨sql, types, rfl, hprepared⟩
    simp only [statementWrite, if_true, hprepared, Option.map_some]

variable {trace : List (Transition (ConnectionState ε κ) Message)} {c : ConnectionState ε κ}

theorem statement?_eq_some_iff (hrun : Run (MessageStep parsers) .new trace c) {name : String}
    {stmt : PreparedStatement ε κ} :
    statement? c.extState name = some stmt ↔
      LastWrite (statementWrite parsers) name (some stmt) trace :=
  records_statements.view_eq_some_iff hrun (by
    show statement? ExtendedQueryState.new name = none
    unfold statement? slot ExtendedQueryState.new
    split
    · rfl
    · exact AList.lookup_empty name)

theorem getPortal_eq_some_iff (hrun : Run (MessageStep parsers) .new trace c) {name : String}
    {portal : Portal ε κ} :
    c.extState.getPortal name = some portal ↔ LastWrite portalWrite name (some portal) trace :=
  records_portals.view_eq_some_iff hrun (by
    show ExtendedQueryState.new.getPortal name = none
    unfold ExtendedQueryState.getPortal ExtendedQueryState.new
    split
    · rfl
    · exact AList.lookup_empty name)

variable (parsers) in
/-- The last `Bind` of the portal that succeeded found the statement that the last
`Parse` of its name to succeed before it had prepared.  What is done with the statement
after the `Bind` does not matter. -/
def ComesFrom (trace : List (Transition (ConnectionState ε κ) Message)) (name : String)
    (portal : Portal ε κ) : Prop :=
  portal.name = name ∧ ∃ before parse between bind after sql types formats,
    trace = before ++ parse :: (between ++ bind :: after) ∧
    parse.label = .parse portal.statementName sql types ∧
    (feed parsers [] sql.toList).1 = some portal.query ∧
    Untouched (statementWrite parsers) portal.statementName between ∧
    bind.label = .bind name portal.statementName formats portal.parameterValues
      portal.resultFormats ∧
    Untouched portalWrite name after

/-- Whatever a connection has been sent and whatever its effects were answered, the
portal under a name, whose query `Execute` runs, is the one that comes from its messages. -/
theorem getPortal_iff_comesFrom (hrun : Run (MessageStep parsers) .new trace c) (name : String)
    (portal : Portal ε κ) :
    c.extState.getPortal name = some portal ↔ ComesFrom parsers trace name portal := by
  rw [getPortal_eq_some_iff hrun, ComesFrom]
  constructor
  · rintro ⟨past, bind, after, rfl, hwrite, hafter⟩
    obtain ⟨hname, ⟨formats, hbind⟩, stmt, hstmt, hquery⟩ := portalWrite_eq_some_iff.mp hwrite
    rw [statement?_eq_some_iff hrun.append_cons_inv.1] at hstmt
    obtain ⟨before, parse, between, rfl, hparse, hbetween⟩ := hstmt
    obtain ⟨sql, types, hlabel, hprepared⟩ := statementWrite_eq_some_iff.mp hparse
    obtain ⟨query, hfeed, rfl⟩ := Option.map_eq_some_iff.mp hprepared
    refine ⟨hname, before, parse, between, bind, after, sql, types, formats, ?_, hlabel, ?_,
      hbetween, hbind, hafter⟩
    · rw [List.append_assoc, List.cons_append]
    · exact hfeed.trans (congrArg some hquery)
  · rintro ⟨hname, before, parse, between, bind, after, sql, types, formats, rfl, hlabel, hfeed,
      hbetween, hbind, hafter⟩
    have hsplit : before ++ parse :: (between ++ bind :: after) =
        (before ++ parse :: between) ++ bind :: after := by
      rw [List.append_assoc, List.cons_append]
    rw [hsplit] at hrun ⊢
    refine ⟨before ++ parse :: between, bind, after, rfl, ?_, hafter⟩
    have hprepared := congrArg (Option.map fun query => PreparedStatement.mk
      portal.statementName sql query types) hfeed
    have hlast := statementWrite_eq_some_iff.mpr ⟨sql, types, hlabel, hprepared⟩
    have hstmt := (statement?_eq_some_iff hrun.append_cons_inv.1).mpr
      ⟨before, parse, between, rfl, hlast, hbetween⟩
    exact portalWrite_eq_some_iff.mpr ⟨hname, ⟨formats, hbind⟩, _, hstmt, rfl⟩

end Messages

section Example

/-- A parser that knows two statements. -/
def endParsers : Parsers Empty Unit where
  parse chars :=
    if chars = "COMMIT".toList then some .commit
    else if chars = "ROLLBACK".toList then some .rollback
    else none
  parseQueryLegacy _ := none

/-- A statement is bound, and then another one is prepared under its name. -/
def reprepared : List Message :=
  [.parse "s" "COMMIT;" [], .bind "p" "s" [] [] [], .parse "s" "ROLLBACK;" []]

def stateAfter : List Message → ConnectionState Empty Unit :=
  List.foldl (fun c msg => { c with extState := respond endParsers c.extState msg }) .new

def committing : Portal Empty Unit where
  name := "p"
  statementName := "s"
  query := .statement .commit
  parameterValues := []
  resultFormats := []

theorem run_reprepared :
    Run (MessageStep endParsers) .new
      [⟨.new, .parse "s" "COMMIT;" [], stateAfter (reprepared.take 1)⟩,
        ⟨stateAfter (reprepared.take 1), .bind "p" "s" [] [] [], stateAfter (reprepared.take 2)⟩,
        ⟨stateAfter (reprepared.take 2), .parse "s" "ROLLBACK;" [], stateAfter reprepared⟩]
      (stateAfter reprepared) := by
  refine .cons ?_ (.cons ?_ (.cons ?_ (.nil _)))
  · exact messageStep_parse rfl
  · exact messageStep_bind rfl
  · exact messageStep_parse rfl

theorem comesFrom_reprepared :
    ∃ trace, trace.map Transition.label = reprepared ∧
      ComesFrom endParsers trace "p" committing :=
  ⟨_, rfl, (getPortal_iff_comesFrom run_reprepared "p" committing).mp rfl⟩

end Example

end PostgressRs.Server.PortalHistory
