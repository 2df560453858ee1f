import Mathlib.Algebra.BigOperators.Group.Multiset.Basic
import PostgressRs.Lib.Postings
import PostgressRs.Lib.Transitions

/-!
Notifications on channels (`src/protocol/listen_notify.rs`).  `notify` borrows the
manager while it awaits one listener after the other, so that several calls and the
receivers interleave, and `listen`, `unlisten` and `drop_all` wait until no call is
running.
-/

namespace PostgressRs.Protocol.ListenNotify

open PostgressRs.Lib.Postings
open PostgressRs.Lib.Transitions

section Manager

structure Notification where
  channel : String
  payload : String
  senderPid : UInt32
deriving DecidableEq

/-- A sender is modelled by the number of its mailbox. -/
structure NotifyManager where
  channels : PostingLists String Nat

namespace NotifyManager

def new : NotifyManager where
  channels := ∅

def listen (self : NotifyManager) (channel : String) (tx : Nat) : NotifyManager where
  channels := push self.channels channel tx

/-- `retain(|_| true)` keeps every listener. -/
def unlisten (self : NotifyManager) (channel : String) (_pid : UInt32) : NotifyManager :=
  match self.channels.lookup channel with
  | some listeners => { channels := self.channels.insert channel (listeners.filter fun _ => true) }
  | none => self

def dropAll (self : NotifyManager) (pid : UInt32) : NotifyManager :=
  self.channels.keys.foldl (fun manager channel => manager.unlisten channel pid) self

def listenerCount (self : NotifyManager) (channel : String) : Nat :=
  match self.channels.lookup channel with
  | some listeners => listeners.length
  | none => 0

theorem under_unlisten (self : NotifyManager) (channel : String) (pid : UInt32) (key : String) :
    under (self.unlisten channel pid).channels key = under self.channels key := by
  unfold unlisten
  cases hlookup : self.channels.lookup channel with
  | none => rfl
  | some listeners =>
      by_cases hkey : key = channel
      · subst hkey
        simp only [under, AList.lookup_insert, hlookup, List.filter_true]
      · simp only [under, AList.lookup_insert_ne hkey]

theorem under_dropAll (self : NotifyManager) (pid : UInt32) (key : String) :
    under (self.dropAll pid).channels key = under self.channels key := by
  have hfold (channels : List String) (manager : NotifyManager) :
      under (channels.foldl (fun manager channel => manager.unlisten channel pid)
        manager).channels key = under manager.channels key := by
    induction channels generalizing manager with
    | nil => rfl
    | cons channel channels ih =>
        rw [List.foldl_cons, ih, under_unlisten]
  exact hfold _ _

end NotifyManager

end Manager

section System

/-- `mpsc::channel(100)`, with what its receiver has taken out so far. -/
structure Mailbox where
  buffer : List Notification
  received : List Notification
  isOpen : Bool
deriving DecidableEq

def capacity : Nat := 100

/-- A running call of `notify`, and the listeners it has not sent to yet. -/
structure Call where
  notification : Notification
  listeners : List Nat
deriving DecidableEq

structure NotifyState where
  manager : NotifyManager
  mailboxes : List Mailbox
  calls : Multiset Call

inductive NotifyEvent where
  | listen (channel : String)
  | unlisten (channel : String) (pid : UInt32)
  | dropAll (pid : UInt32)
  | notify (channel payload : String) (senderPid : UInt32)
  | send (call : Call)
  | finish (call : Call)
  | receive (rx : Nat)
  | close (rx : Nat)
deriving DecidableEq

namespace NotifyState

def new : NotifyState where
  manager := .new
  mailboxes := []
  calls := 0

/-- `send` to a mailbox fails at once if its receiver is gone, and waits while it is full. -/
def deliver (mailbox : Mailbox) (notification : Notification) : Option Mailbox :=
  if mailbox.isOpen then
    if mailbox.buffer.length < capacity then
      some { mailbox with buffer := mailbox.buffer ++ [notification] }
    else none
  else some mailbox

def send (s : NotifyState) (call : Call) : Option NotifyState :=
  match call.listeners with
  | [] => none
  | tx :: listeners =>
      if call ∈ s.calls then do
        let mailbox ← s.mailboxes[tx]?
        let mailbox ← deliver mailbox call.notification
        some
          { s with
            mailboxes := s.mailboxes.set tx mailbox
            calls := { call with listeners := listeners } ::ₘ s.calls.erase call }
      else none

def next (s : NotifyState) : NotifyEvent → Option NotifyState
  | .listen channel =>
      if s.calls = 0 then
        some
          { s with
            manager := s.manager.listen channel s.mailboxes.length
            mailboxes := s.mailboxes ++ [⟨[], [], true⟩] }
      else none
  | .unlisten channel pid =>
      if s.calls = 0 then some { s with manager := s.manager.unlisten channel pid } else none
  | .dropAll pid =>
      if s.calls = 0 then some { s with manager := s.manager.dropAll pid } else none
  | .notify channel payload senderPid =>
      let call := ⟨⟨channel, payload, senderPid⟩, under s.manager.channels channel⟩
      some { s with calls := call ::ₘ s.calls }
  | .send call => s.send call
  | .finish call =>
      if call ∈ s.calls ∧ call.listeners = [] then some { s with calls := s.calls.erase call }
      else none
  | .receive rx => do
      let mailbox ← s.mailboxes[rx]?
      match mailbox.buffer with
      | notification :: buffer =>
          if mailbox.isOpen then
            let received := mailbox.received ++ [notification]
            some { s with mailboxes := s.mailboxes.set rx ⟨buffer, received, true⟩ }
          else none
      | [] => none
  | .close rx => do
      let mailbox ← s.mailboxes[rx]?
      some { s with mailboxes := s.mailboxes.set rx { mailbox with isOpen := false } }

end NotifyState

def NotifyStep (s : NotifyState) (event : NotifyEvent) (s' : NotifyState) : Prop :=
  s.next event = some s'

end System

section Steps

variable {s s' : NotifyState} {call : Call} {rx : Nat}

theorem send_cases (h : s.send call = some s') :
    ∃ tx listeners mailbox mailbox', call.listeners = tx :: listeners ∧ call ∈ s.calls ∧
      s.mailboxes[tx]? = some mailbox ∧
      NotifyState.deliver mailbox call.notification = some mailbox' ∧
      s' =
        { s with
          mailboxes := s.mailboxes.set tx mailbox'
          calls := { call with listeners := listeners } ::ₘ s.calls.erase call } := by
  unfold NotifyState.send at h
  split at h
  · cases h
  · rename_i tx listeners hlisteners
    split at h
    · rename_i hcall
      obtain ⟨mailbox, hmailbox, h⟩ := Option.bind_eq_some_iff.mp h
      obtain ⟨mailbox', hdeliver, h⟩ := Option.bind_eq_some_iff.mp h
      cases h
      exact ⟨tx, listeners, mailbox, mailbox', hlisteners, hcall, hmailbox, hdeliver, rfl⟩
    · cases h

theorem deliver_cases {mailbox mailbox' : Mailbox} {notification : Notification}
    (h : NotifyState.deliver mailbox notification = some mailbox') :
    (mailbox.isOpen = false ∧ mailbox' = mailbox) ∨
    (mailbox.isOpen = true ∧ mailbox.buffer.length < capacity ∧
      mailbox' = { mailbox with buffer := mailbox.buffer ++ [notification] }) := by
  unfold NotifyState.deliver at h
  split at h
  · rename_i hopen
    split at h
    · rename_i hlength
      cases h
      exact Or.inr ⟨hopen, hlength, rfl⟩
    · cases h
  · rename_i hopen
    cases h
    exact Or.inl ⟨Bool.eq_false_iff.mpr hopen, rfl⟩

theorem receive_cases (h : s.next (.receive rx) = some s') :
    ∃ mailbox notification buffer, s.mailboxes[rx]? = some mailbox ∧ mailbox.isOpen = true ∧
      mailbox.buffer = notification :: buffer ∧
      s' =
        { s with
          mailboxes := s.mailboxes.set rx ⟨buffer, mailbox.received ++ [notification], true⟩ } := by
  obtain ⟨mailbox, hmailbox, h⟩ := Option.bind_eq_some_iff.mp h
  dsimp only at h
  split at h
  · rename_i notification buffer hbuffer
    split at h
    · rename_i hopen
      cases h
      exact ⟨mailbox, notification, buffer, hmailbox, hopen, hbuffer, rfl⟩
    · cases h
  · cases h

theorem close_cases (h : s.next (.close rx) = some s') :
    ∃ mailbox, s.mailboxes[rx]? = some mailbox ∧
      s' = { s with mailboxes := s.mailboxes.set rx { mailbox with isOpen := false } } := by
  obtain ⟨mailbox, hmailbox, h⟩ := Option.bind_eq_some_iff.mp h
  cases h
  exact ⟨mailbox, hmailbox, rfl⟩

/-- Every listener has its mailbox, and no mailbox holds more than its capacity. -/
structure WellFormed (s : NotifyState) : Prop where
  listeners : ∀ channel, ∀ tx ∈ under s.manager.channels channel, tx < s.mailboxes.length
  calls : ∀ call ∈ s.calls, ∀ tx ∈ call.listeners, tx < s.mailboxes.length
  buffers : ∀ mailbox ∈ s.mailboxes, mailbox.buffer.length ≤ capacity

theorem wellFormed_new : WellFormed .new where
  listeners := by
    intro channel tx htx
    cases htx
  calls := by simp [NotifyState.new]
  buffers := by simp [NotifyState.new]

theorem WellFormed.set {mailbox : Mailbox} (h : WellFormed s)
    (hbuffer : mailbox.buffer.length ≤ capacity) :
    WellFormed { s with mailboxes := s.mailboxes.set rx mailbox } where
  listeners := by
    intro channel tx htx
    rw [List.length_set]
    exact h.listeners channel tx htx
  calls := by
    intro call hcall tx htx
    rw [List.length_set]
    exact h.calls call hcall tx htx
  buffers := by
    intro mailbox' hmem
    rcases List.mem_or_eq_of_mem_set hmem with hmem | rfl
    · exact h.buffers mailbox' hmem
    · exact hbuffer

theorem WellFormed.setCalls {calls : Multiset Call} (h : WellFormed s)
    (hcalls : ∀ call ∈ calls, ∀ tx ∈ call.listeners, tx < s.mailboxes.length) :
    WellFormed { s with calls := calls } where
  listeners := h.listeners
  calls := hcalls
  buffers := h.buffers

theorem wellFormed_step {event : NotifyEvent} (h : WellFormed s) (hstep : NotifyStep s event s') :
    WellFormed s' := by
  cases event with
  | listen channel =>
      simp only [NotifyStep, NotifyState.next] at hstep
      split at hstep
      · rename_i hcalls
        cases hstep
        refine ⟨?_, ?_, ?_⟩
        · intro ch tx htx
          rw [List.length_append, List.length_singleton]
          by_cases hch : ch = channel
          · subst hch
            rw [NotifyManager.listen, under_push_self, List.mem_append, List.mem_singleton] at htx
            rcases htx with htx | rfl
            · exact Nat.lt_succ_of_lt (h.listeners ch tx htx)
            · exact Nat.lt_succ_self _
          · rw [NotifyManager.listen, under_push_of_ne hch] at htx
            exact Nat.lt_succ_of_lt (h.listeners ch tx htx)
        · simp [hcalls]
        · intro mailbox hmem
          rcases List.mem_append.mp hmem with hmem | hmem
          · exact h.buffers mailbox hmem
          · rw [List.mem_singleton.mp hmem]
            exact Nat.zero_le capacity
      · cases hstep
  | unlisten channel pid =>
      simp only [NotifyStep, NotifyState.next] at hstep
      split at hstep
      · cases hstep
        refine ⟨?_, h.calls, h.buffers⟩
        intro ch tx htx
        rw [NotifyManager.under_unlisten] at htx
        exact h.listeners ch tx htx
      · cases hstep
  | dropAll pid =>
      simp only [NotifyStep, NotifyState.next] at hstep
      split at hstep
      · cases hstep
        refine ⟨?_, h.calls, h.buffers⟩
        intro ch tx htx
        rw [NotifyManager.under_dropAll] at htx
        exact h.listeners ch tx htx
      · cases hstep
  | notify channel payload senderPid =>
      cases hstep
      apply h.setCalls
      intro call hcall
      rcases Multiset.mem_cons.mp hcall with rfl | hcall
      · exact h.listeners channel
      · exact h.calls call hcall
  | send call =>
      obtain ⟨tx, listeners, mailbox, mailbox', hlisteners, hcall, hmailbox, hdeliver, rfl⟩ :=
        send_cases hstep
      have hbuffer : mailbox'.buffer.length ≤ capacity := by
        have hmem := h.buffers mailbox (List.mem_of_getElem? hmailbox)
        rcases deliver_cases hdeliver with ⟨_, rfl⟩ | ⟨_, hlength, rfl⟩
        · exact hmem
        · rw [List.length_append, List.length_singleton]
          exact hlength
      apply (h.set hbuffer).setCalls
      intro other hother
      rw [List.length_set]
      rcases Multiset.mem_cons.mp hother with rfl | hother
      · intro tx' htx'
        exact h.calls call hcall tx' (hlisteners ▸ List.mem_cons_of_mem tx htx')
      · exact h.calls other (Multiset.mem_of_mem_erase hother)
  | finish call =>
      simp only [NotifyStep, NotifyState.next] at hstep
      split at hstep
      · cases hstep
        exact h.setCalls fun other hother => h.calls other (Multiset.mem_of_mem_erase hother)
      · cases hstep
  | receive rx =>
      obtain ⟨mailbox, notification, buffer, hmailbox, _, hbuffer, rfl⟩ := receive_cases hstep
      have hmem := h.buffers mailbox (List.mem_of_getElem? hmailbox)
      rw [hbuffer, List.length_cons] at hmem
      exact h.set (Nat.le_of_succ_le hmem)
  | close rx =>
      obtain ⟨mailbox, hmailbox, rfl⟩ := close_cases hstep
      exact h.set (h.buffers mailbox (List.mem_of_getElem? hmailbox))

end Steps

section Delivery

/-- What running calls have still to send to a mailbox. -/
def pending (rx : Nat) (calls : Multiset Call) : Multiset Notification :=
  (calls.map fun call => Multiset.replicate (call.listeners.count rx) call.notification).sum

/-- The notifications that an event starts to send on a channel. -/
def publishedBy (channel : String) : NotifyEvent → List Notification
  | .notify ch payload senderPid => if ch = channel then [⟨ch, payload, senderPid⟩] else []
  | _ => []

def published (channel : String) (trace : List (Transition NotifyState NotifyEvent)) :
    List Notification :=
  trace.flatMap fun tr => publishedBy channel tr.label

/-- The notifications that have reached a mailbox, in their order. -/
def Mailbox.log (mailbox : Mailbox) : List Notification := mailbox.received ++ mailbox.buffer

theorem pending_cons (rx : Nat) (call : Call) (calls : Multiset Call) :
    pending rx (call ::ₘ calls) =
      Multiset.replicate (call.listeners.count rx) call.notification + pending rx calls := by
  rw [pending, Multiset.map_cons, Multiset.sum_cons, pending]

theorem pending_of_mem {rx : Nat} {call : Call} {calls : Multiset Call} (h : call ∈ calls) :
    pending rx calls = Multiset.replicate (call.listeners.count rx) call.notification +
      pending rx (calls.erase call) := by
  rw [← pending_cons, Multiset.cons_erase h]

/-- The mailbox listens to one channel, and has got or will get just what was sent there,
as long as its receiver is there. -/
structure Delivers (rx : Nat) (channel : String) (sent : List Notification) (s : NotifyState) :
    Prop where
  count : ∀ ch, (under s.manager.channels ch).count rx = if ch = channel then 1 else 0
  exact : ∃ mailbox, s.mailboxes[rx]? = some mailbox ∧
    (mailbox.isOpen = true → (mailbox.log : Multiset Notification) + pending rx s.calls = sent)

variable {s s' t : NotifyState} {rx : Nat} {channel : String} {sent : List Notification}
  {trace : List (Transition NotifyState NotifyEvent)}

/-- A new listener is owed nothing yet. -/
theorem delivers_listen (h : WellFormed s) (hstep : NotifyStep s (.listen channel) s') :
    Delivers s.mailboxes.length channel [] s' := by
  simp only [NotifyStep, NotifyState.next] at hstep
  split at hstep
  · rename_i hcalls
    cases hstep
    have hfresh (ch : String) : (under s.manager.channels ch).count s.mailboxes.length = 0 :=
      List.count_eq_zero.mpr fun hmem => (h.listeners ch _ hmem).false
    refine ⟨?_, ⟨[], [], true⟩, List.getElem?_concat_length, ?_⟩
    · intro ch
      by_cases hch : ch = channel
      · subst hch
        rw [NotifyManager.listen, under_push_self, List.count_append, hfresh, if_pos rfl,
          List.count_singleton_self]
      · rw [NotifyManager.listen, under_push_of_ne hch, hfresh, if_neg hch]
    · intro _
      rw [hcalls]
      rfl
  · cases hstep

theorem delivers_send {call : Call} (h : Delivers rx channel sent s)
    (hstep : s.send call = some s') : Delivers rx channel sent s' := by
  obtain ⟨tx, listeners, mailbox, mailbox', hlisteners, hcall, hmailbox, hdeliver, rfl⟩ :=
    send_cases hstep
  obtain ⟨hcount, own, hown, hexact⟩ := h
  refine ⟨hcount, ?_⟩
  rw [pending_of_mem hcall, hlisteners] at hexact
  rw [pending_cons]
  by_cases htx : tx = rx
  · subst htx
    obtain rfl : mailbox = own := Option.some.inj (hmailbox.symm.trans hown)
    have hlength := (List.getElem?_eq_some_iff.mp hmailbox).1
    refine ⟨mailbox', List.getElem?_set_self hlength, ?_⟩
    rcases deliver_cases hdeliver with ⟨hclosed, rfl⟩ | ⟨hopen, _, rfl⟩
    · intro hopen
      rw [hclosed] at hopen
      cases hopen
    · intro _
      rw [← hexact hopen, List.count_cons_self, Multiset.replicate_succ]
      simp only [Mailbox.log, ← Multiset.coe_add, Multiset.coe_singleton,
        ← Multiset.singleton_add]
      ac_rfl
  · refine ⟨own, (List.getElem?_set_ne htx).trans hown, ?_⟩
    rw [List.count_cons_of_ne htx] at hexact
    exact hexact

theorem delivers_step {event : NotifyEvent} (h : Delivers rx channel sent s)
    (hstep : NotifyStep s event s') :
    Delivers rx channel (sent ++ publishedBy channel event) s' := by
  obtain ⟨hcount, mailbox, hmailbox, hexact⟩ := h
  have hlength := (List.getElem?_eq_some_iff.mp hmailbox).1
  cases event with
  | listen ch =>
      show Delivers rx channel (sent ++ []) s'
      rw [List.append_nil]
      simp only [NotifyStep, NotifyState.next] at hstep
      split at hstep
      · cases hstep
        refine ⟨?_, mailbox, (List.getElem?_append_left hlength).trans hmailbox, hexact⟩
        intro ch'
        rw [← hcount ch']
        by_cases hch : ch' = ch
        · subst hch
          rw [NotifyManager.listen, under_push_self, List.count_append,
            List.count_singleton, beq_eq_false_iff_ne.mpr hlength.ne']
          rfl
        · rw [NotifyManager.listen, under_push_of_ne hch]
      · cases hstep
  | unlisten ch pid =>
      show Delivers rx channel (sent ++ []) s'
      rw [List.append_nil]
      simp only [NotifyStep, NotifyState.next] at hstep
      split at hstep
      · cases hstep
        refine ⟨fun ch' => ?_, mailbox, hmailbox, hexact⟩
        rw [NotifyManager.under_unlisten]
        exact hcount ch'
      · cases hstep
  | dropAll pid =>
      show Delivers rx channel (sent ++ []) s'
      rw [List.append_nil]
      simp only [NotifyStep, NotifyState.next] at hstep
      split at hstep
      · cases hstep
        refine ⟨fun ch' => ?_, mailbox, hmailbox, hexact⟩
        rw [NotifyManager.under_dropAll]
        exact hcount ch'
      · cases hstep
  | notify ch payload senderPid =>
      cases hstep
      refine ⟨hcount, mailbox, hmailbox, fun hopen => ?_⟩
      rw [pending_cons, hcount ch, ← Multiset.coe_add, ← hexact hopen]
      simp only [publishedBy]
      split
      · rw [Multiset.replicate_one, Multiset.coe_singleton]
        ac_rfl
      · rw [Multiset.replicate_zero, Multiset.zero_add, Multiset.coe_nil, Multiset.add_zero]
  | send call =>
      show Delivers rx channel (sent ++ []) s'
      rw [List.append_nil]
      exact delivers_send ⟨hcount, mailbox, hmailbox, hexact⟩ hstep
  | finish call =>
      show Delivers rx channel (sent ++ []) s'
      rw [List.append_nil]
      simp only [NotifyStep, NotifyState.next] at hstep
      split at hstep
      · rename_i hcall
        cases hstep
        refine ⟨hcount, mailbox, hmailbox, fun hopen => ?_⟩
        rw [← hexact hopen, pending_of_mem hcall.1, hcall.2, List.count_nil,
          Multiset.replicate_zero, Multiset.zero_add]
      · cases hstep
  | receive q =>
      show Delivers rx channel (sent ++ []) s'
      rw [List.append_nil]
      obtain ⟨own, notification, buffer, hown, hopen, hbuffer, rfl⟩ := receive_cases hstep
      refine ⟨hcount, ?_⟩
      by_cases hq : q = rx
      · subst hq
        obtain rfl : own = mailbox := Option.some.inj (hown.symm.trans hmailbox)
        refine ⟨_, List.getElem?_set_self hlength, fun _ => ?_⟩
        rw [← hexact hopen, Mailbox.log, Mailbox.log, hbuffer, List.append_assoc,
          List.singleton_append]
      · exact ⟨mailbox, (List.getElem?_set_ne hq).trans hmailbox, hexact⟩
  | close q =>
      show Delivers rx channel (sent ++ []) s'
      rw [List.append_nil]
      obtain ⟨own, hown, rfl⟩ := close_cases hstep
      refine ⟨hcount, ?_⟩
      by_cases hq : q = rx
      · subst hq
        exact ⟨_, List.getElem?_set_self hlength, fun hopen => absurd hopen Bool.false_ne_true⟩
      · exact ⟨mailbox, (List.getElem?_set_ne hq).trans hmailbox, hexact⟩

theorem delivers_run (h : Delivers rx channel sent s) (hrun : Run NotifyStep s trace t) :
    Delivers rx channel (sent ++ published channel trace) t := by
  induction hrun generalizing sent with
  | nil _ =>
      rw [published, List.flatMap_nil, List.append_nil]
      exact h
  | cons hstep _ ih =>
      rw [published, List.flatMap_cons, ← List.append_assoc]
      exact ih (delivers_step h hstep)

end Delivery

section Progress

variable {s s' t : NotifyState} {channel : String}

/-- A running call goes on, or a receiver takes a notification. -/
def IsProgress : NotifyEvent → Prop
  | .send _ => True
  | .finish _ => True
  | .receive _ => True
  | _ => False

/-- How many steps the running calls have still to take. -/
def remaining (calls : Multiset Call) : Nat :=
  (calls.map fun call => call.listeners.length + 1).sum

theorem remaining_cons (call : Call) (calls : Multiset Call) :
    remaining (call ::ₘ calls) = call.listeners.length + 1 + remaining calls := by
  rw [remaining, Multiset.map_cons, Multiset.sum_cons, remaining]

theorem send_of_deliver {call : Call} {tx : Nat} {listeners : List Nat} {mailbox mailbox' : Mailbox}
    (hcall : call ∈ s.calls) (hlisteners : call.listeners = tx :: listeners)
    (hmailbox : s.mailboxes[tx]? = some mailbox)
    (hdeliver : NotifyState.deliver mailbox call.notification = some mailbox') :
    NotifyStep s (.send call)
      { s with
        mailboxes := s.mailboxes.set tx mailbox'
        calls := { call with listeners := listeners } ::ₘ s.calls.erase call } := by
  simp only [NotifyStep, NotifyState.next, NotifyState.send, hlisteners, if_pos hcall, hmailbox,
    Option.bind_eq_bind, Option.bind_some, hdeliver]

theorem receive_of_full {rx : Nat} {mailbox : Mailbox} {notification : Notification}
    {buffer : List Notification} (hmailbox : s.mailboxes[rx]? = some mailbox)
    (hopen : mailbox.isOpen = true) (hbuffer : mailbox.buffer = notification :: buffer) :
    NotifyStep s (.receive rx)
      { s with
        mailboxes := s.mailboxes.set rx ⟨buffer, mailbox.received ++ [notification], true⟩ } := by
  simp only [NotifyStep, NotifyState.next, hmailbox, Option.bind_eq_bind, Option.bind_some, hbuffer,
    hopen, if_true]

/-- A call can take its next step, perhaps after the receiver that it waits for has. -/
theorem exists_progress {call : Call} (hs : WellFormed s) (hcall : call ∈ s.calls) :
    ∃ trace t, Run NotifyStep s trace t ∧ (∀ tr ∈ trace, IsProgress tr.label) ∧
      remaining t.calls < remaining s.calls := by
  have hremaining := remaining_cons call (s.calls.erase call)
  rw [Multiset.cons_erase hcall] at hremaining
  cases hlisteners : call.listeners with
  | nil =>
      have hstep : NotifyStep s (.finish call) { s with calls := s.calls.erase call } :=
        if_pos ⟨hcall, hlisteners⟩
      refine ⟨_, _, .cons hstep (.nil _), List.forall_mem_singleton.mpr trivial, ?_⟩
      show remaining (s.calls.erase call) < remaining s.calls
      omega
  | cons tx listeners =>
      have htx := hs.calls call hcall tx (hlisteners ▸ List.mem_cons_self)
      have hless : remaining ({ call with listeners := listeners } ::ₘ s.calls.erase call) <
          remaining s.calls := by
        rw [hremaining, hlisteners, remaining_cons]
        exact Nat.add_lt_add_right (Nat.lt_succ_self _) _
      have hmailbox : s.mailboxes[tx]? = some s.mailboxes[tx] := List.getElem?_eq_getElem htx
      generalize s.mailboxes[tx] = mailbox at hmailbox
      cases hdeliver : NotifyState.deliver mailbox call.notification with
      | some mailbox' =>
          exact ⟨_, _, .cons (send_of_deliver hcall hlisteners hmailbox hdeliver) (.nil _),
            List.forall_mem_singleton.mpr trivial, hless⟩
      | none =>
          -- The mailbox is full: its receiver takes one out first.
          unfold NotifyState.deliver at hdeliver
          split at hdeliver
          · rename_i hopen
            split at hdeliver
            · cases hdeliver
            · rename_i hfull
              have hlength := hs.buffers mailbox (List.mem_of_getElem? hmailbox)
              cases hbuffer : mailbox.buffer with
              | nil =>
                  rw [hbuffer] at hfull
                  exact absurd (Nat.zero_lt_succ 99) hfull
              | cons notification buffer =>
                  rw [hbuffer, List.length_cons] at hlength
                  have hreceive := receive_of_full hmailbox hopen hbuffer
                  have hroom : NotifyState.deliver
                      ⟨buffer, mailbox.received ++ [notification], true⟩ call.notification =
                      some ⟨buffer ++ [call.notification],
                        mailbox.received ++ [notification], true⟩ := if_pos hlength
                  refine ⟨_, _, .cons hreceive (.cons (send_of_deliver hcall hlisteners
                    (List.getElem?_set_self htx) hroom) (.nil _)), ?_, hless⟩
                  exact List.forall_mem_cons.mpr ⟨trivial, List.forall_mem_singleton.mpr trivial⟩
          · cases hdeliver

/-- The running calls can all be finished, by receivers that go on taking. -/
theorem exists_finished (hs : WellFormed s) :
    ∃ trace t, Run NotifyStep s trace t ∧ (∀ tr ∈ trace, IsProgress tr.label) ∧ t.calls = 0 := by
  induction hn : remaining s.calls using Nat.strong_induction_on generalizing s with
  | _ n ih =>
      by_cases hcalls : s.calls = 0
      · exact ⟨[], s, .nil s, by simp, hcalls⟩
      obtain ⟨call, hcall⟩ := Multiset.exists_mem_of_ne_zero hcalls
      obtain ⟨before, m, hbefore, hprogress, hless⟩ := exists_progress hs hcall
      have hm := (hbefore.invariant_of_step WellFormed (fun _ _ _ h hs => wellFormed_step h hs)
        hs).1
      obtain ⟨after, t, hafter, hprogress', ht⟩ := ih _ (hn ▸ hless) hm rfl
      refine ⟨before ++ after, t, hbefore.append hafter, ?_, ht⟩
      intro tr htr
      rcases List.mem_append.mp htr with htr | htr
      · exact hprogress tr htr
      · exact hprogress' tr htr

theorem published_progress {trace : List (Transition NotifyState NotifyEvent)}
    (h : ∀ tr ∈ trace, IsProgress tr.label) (channel : String) : published channel trace = [] := by
  rw [published, List.flatMap_eq_nil_iff]
  intro tr htr
  have hprogress := h tr htr
  cases hlabel : tr.label with
  | notify ch payload senderPid =>
      rw [hlabel] at hprogress
      cases hprogress
  | _ => rfl

end Progress

section Example

/-- A listener, a notification that is on its way, and a second one. -/
def hello : List NotifyEvent :=
  [.listen "c", .notify "c" "hello" 7, .send ⟨⟨"c", "hello", 7⟩, [0]⟩, .notify "c" "bye" 7]

def helloState (count : Nat) : NotifyState :=
  ((hello.take count).foldlM NotifyState.next .new).getD .new

def helloTrace : List (Transition NotifyState NotifyEvent) :=
  [⟨helloState 1, .notify "c" "hello" 7, helloState 2⟩,
    ⟨helloState 2, .send ⟨⟨"c", "hello", 7⟩, [0]⟩, helloState 3⟩,
    ⟨helloState 3, .notify "c" "bye" 7, helloState 4⟩]

theorem run_hello : Run NotifyStep .new
    ([] ++ ⟨helloState 0, .listen "c", helloState 1⟩ :: helloTrace) (helloState 4) :=
  .cons rfl (.cons rfl (.cons rfl (.cons rfl (.nil _))))

end Example

end PostgressRs.Protocol.ListenNotify
