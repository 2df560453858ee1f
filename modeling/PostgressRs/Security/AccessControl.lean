import Mathlib.Data.List.AList
import Mathlib.Data.List.Induction
import PostgressRs.Types

/-!
Roles and privileges (`src/security/rbac.rs`).  Of a role only the name and the superuser
flag are kept, which are all that is read.
-/

namespace PostgressRs.Security.AccessControl

open PostgressRs.Types

section Manager

structure Role where
  rolname : String
  rolsuper : Bool
deriving DecidableEq

def Role.new (name : String) : Role where
  rolname := name
  rolsuper := false

def Role.superuser (name : String) : Role :=
  { Role.new name with rolsuper := true }

def rolePostgres : String := "postgres"
def rolePublic : String := "public"

structure PrivilegeSet where
  select : Bool
  insert : Bool
  update : Bool
  delete : Bool
  truncate : Bool
  references : Bool
  trigger : Bool
deriving DecidableEq

namespace PrivilegeSet

def all : PrivilegeSet := ⟨true, true, true, true, true, true, true⟩

def none : PrivilegeSet := ⟨false, false, false, false, false, false, false⟩

def read : PrivilegeSet := { none with select := true }

def write : PrivilegeSet :=
  { none with
    select := true
    insert := true
    update := true
    delete := true }

def check (self required : PrivilegeSet) : Bool :=
  if required.select && !self.select then false
  else if required.insert && !self.insert then false
  else if required.update && !self.update then false
  else if required.delete && !self.delete then false
  else if required.truncate && !self.truncate then false
  else if required.references && !self.references then false
  else if required.trigger && !self.trigger then false
  else true

end PrivilegeSet

structure AccessControlList where
  grantee : Oid
  grantor : Oid
  relOid : Oid
  privileges : PrivilegeSet
deriving DecidableEq

/-- `roles` has the order in which the map of the roles is iterated. -/
structure RbacManager where
  roles : AList fun _ : String => Role
  acls : List AccessControlList

namespace RbacManager

def new : RbacManager where
  roles := ((∅ : AList fun _ : String => Role).insert rolePostgres
    (Role.superuser rolePostgres)).insert rolePublic (Role.new rolePublic)
  acls := []

def grant (self : RbacManager) (grantee relOid : Oid) (privileges : PrivilegeSet) : RbacManager :=
  { self with acls := self.acls ++ [⟨grantee, ⟨0⟩, relOid, privileges⟩] }

def revoke (self : RbacManager) (grantee relOid : Oid) (_privileges : PrivilegeSet) : RbacManager :=
  { self with acls := self.acls.filter fun acl => acl.grantee ≠ grantee ∨ acl.relOid ≠ relOid }

def checkPrivilege (self : RbacManager) (roleOid relOid : Oid) (required : PrivilegeSet) : Bool :=
  let role := (self.roles.entries.map Sigma.snd).find? fun _ => (⟨0⟩ : Oid) = roleOid
  if role.any Role.rolsuper then true
  else
    (self.acls.filter fun acl => acl.grantee = roleOid ∧ acl.relOid = relOid).any fun acl =>
      acl.privileges.check required

end RbacManager

end Manager

section Privileges

inductive Privilege where
  | select
  | insert
  | update
  | delete
  | truncate
  | references
  | trigger
deriving DecidableEq

def PrivilegeSet.has (self : PrivilegeSet) : Privilege → Bool
  | .select => self.select
  | .insert => self.insert
  | .update => self.update
  | .delete => self.delete
  | .truncate => self.truncate
  | .references => self.references
  | .trigger => self.trigger

/-- The set of the privileges with the property. -/
def PrivilegeSet.ofPred (p : Privilege → Bool) : PrivilegeSet :=
  ⟨p .select, p .insert, p .update, p .delete, p .truncate, p .references, p .trigger⟩

@[simp]
theorem has_ofPred (p : Privilege → Bool) (privilege : Privilege) :
    (PrivilegeSet.ofPred p).has privilege = p privilege := by
  cases privilege <;> rfl

/-- The checks of the single privileges make an inclusion. -/
theorem check_iff (self required : PrivilegeSet) :
    self.check required = true ↔
      ∀ privilege, required.has privilege = true → self.has privilege = true := by
  have hstep : ∀ (a b c : Bool), (if a && !b then false else c) = true ↔
      (a = true → b = true) ∧ c = true := by decide
  simp only [PrivilegeSet.check, hstep, and_true]
  constructor
  · rintro ⟨hselect, hinsert, hupdate, hdelete, htruncate, hreferences, htrigger⟩ privilege
    cases privilege with
    | select => exact hselect
    | insert => exact hinsert
    | update => exact hupdate
    | delete => exact hdelete
    | truncate => exact htruncate
    | references => exact hreferences
    | trigger => exact htrigger
  · intro h
    exact ⟨h .select, h .insert, h .update, h .delete, h .truncate, h .references, h .trigger⟩

end Privileges

section History

inductive AclCall where
  | grant (grantee relOid : Oid) (privileges : PrivilegeSet)
  | revoke (grantee relOid : Oid) (privileges : PrivilegeSet)
deriving DecidableEq

def AclCall.apply (manager : RbacManager) : AclCall → RbacManager
  | .grant grantee relOid privileges => manager.grant grantee relOid privileges
  | .revoke grantee relOid privileges => manager.revoke grantee relOid privileges

def managerAfter (calls : List AclCall) : RbacManager :=
  calls.foldl AclCall.apply RbacManager.new

/-- A grant of the privilege is not followed by a revoke of it. -/
def Granted (calls : List AclCall) (roleOid relOid : Oid) (privilege : Privilege) : Prop :=
  ∃ before privileges after, calls = before ++ .grant roleOid relOid privileges :: after ∧
    privileges.has privilege = true ∧
    ∀ revoked, .revoke roleOid relOid revoked ∈ after → revoked.has privilege = false

/-- The check is passed with what was granted and not revoked. -/
def PrivilegesExact (calls : List AclCall) (roleOid relOid : Oid) : Prop :=
  ∀ required, (managerAfter calls).checkPrivilege roleOid relOid required = true ↔
    ∀ privilege, required.has privilege = true → Granted calls roleOid relOid privilege

/-- One grant that no revoke follows, whatever it revokes, has all that was granted and
not revoked. -/
def OneGrant (calls : List AclCall) (roleOid relOid : Oid) : Prop :=
  ∃ before privileges after, calls = before ++ .grant roleOid relOid privileges :: after ∧
    (∀ revoked, .revoke roleOid relOid revoked ∉ after) ∧
    ∀ privilege, Granted calls roleOid relOid privilege → privileges.has privilege = true

theorem managerAfter_concat (calls : List AclCall) (call : AclCall) :
    managerAfter (calls ++ [call]) = call.apply (managerAfter calls) := by
  rw [managerAfter, List.foldl_append]
  rfl

theorem concat_eq_append_cons {α : Type} {l before after : List α} {a b : α} :
    l ++ [a] = before ++ b :: after ↔
      (after = [] ∧ l = before ∧ a = b) ∨
        ∃ after', after = after' ++ [a] ∧ l = before ++ b :: after' := by
  constructor
  · intro h
    rcases List.eq_nil_or_concat after with rfl | ⟨after', a', rfl⟩
    · obtain ⟨hl, ha⟩ := List.append_inj' h rfl
      exact .inl ⟨rfl, hl, (List.cons.inj ha).1⟩
    · rw [List.concat_eq_append, ← List.cons_append, ← List.append_assoc] at h
      obtain ⟨hl, ha⟩ := List.append_inj' h rfl
      exact .inr ⟨after', by rw [List.concat_eq_append, (List.cons.inj ha).1], hl⟩
  · rintro (⟨rfl, rfl, rfl⟩ | ⟨after', rfl, rfl⟩)
    · rfl
    · rw [List.append_assoc, List.cons_append]

/-- The entries of the list are the grants that no revoke follows. -/
theorem mem_acls {calls : List AclCall} {acl : AccessControlList} :
    acl ∈ (managerAfter calls).acls ↔ acl.grantor = ⟨0⟩ ∧
      ∃ before after, calls = before ++ .grant acl.grantee acl.relOid acl.privileges :: after ∧
        ∀ revoked, .revoke acl.grantee acl.relOid revoked ∉ after := by
  induction calls using List.reverseRecOn with
  | nil => simp [managerAfter, RbacManager.new]
  | append_singleton calls call ih =>
      rw [managerAfter_concat]
      cases call with
      | grant grantee relOid privileges =>
          rw [AclCall.apply, RbacManager.grant, List.mem_append, ih, List.mem_singleton]
          constructor
          · rintro (⟨hgrantor, before, after, rfl, hafter⟩ | rfl)
            · refine ⟨hgrantor, before, after ++ [.grant grantee relOid privileges], ?_, ?_⟩
              · rw [List.append_assoc, List.cons_append]
              · intro revoked hmem
                rcases List.mem_append.mp hmem with hmem | hmem
                · exact hafter revoked hmem
                · cases List.mem_singleton.mp hmem
            · exact ⟨rfl, calls, [], rfl, by simp⟩
          · rintro ⟨hgrantor, before, after, hcalls, hafter⟩
            rcases concat_eq_append_cons.mp hcalls with ⟨rfl, rfl, hgrant⟩ | ⟨after', rfl, rfl⟩
            · obtain ⟨grantee', grantor', relOid', privileges'⟩ := acl
              cases hgrantor
              cases hgrant
              exact .inr rfl
            · exact .inl ⟨hgrantor, before, after', rfl,
                fun revoked hmem => hafter revoked (List.mem_append_left _ hmem)⟩
      | revoke grantee relOid privileges =>
          rw [AclCall.apply, RbacManager.revoke, List.mem_filter, ih, decide_eq_true_eq]
          constructor
          · rintro ⟨⟨hgrantor, before, after, rfl, hafter⟩, hother⟩
            refine ⟨hgrantor, before, after ++ [.revoke grantee relOid privileges], ?_, ?_⟩
            · rw [List.append_assoc, List.cons_append]
            · intro revoked hmem
              rcases List.mem_append.mp hmem with hmem | hmem
              · exact hafter revoked hmem
              · cases List.mem_singleton.mp hmem
                exact hother.elim (fun hne => hne rfl) fun hne => hne rfl
          · rintro ⟨hgrantor, before, after, hcalls, hafter⟩
            rcases concat_eq_append_cons.mp hcalls with ⟨-, -, hgrant⟩ | ⟨after', rfl, rfl⟩
            · cases hgrant
            · refine ⟨⟨hgrantor, before, after', rfl,
                fun revoked hmem => hafter revoked (List.mem_append_left _ hmem)⟩, ?_⟩
              by_contra hsame
              obtain ⟨hgrantee, hrelOid⟩ := not_or.mp hsame
              rw [not_not.mp hgrantee, not_not.mp hrelOid] at hafter
              exact hafter privileges (List.mem_append_right _ List.mem_cons_self)

/-- A role other than the first one needs one entry with all the privileges. -/
theorem checkPrivilege_iff {manager : RbacManager} {roleOid relOid : Oid}
    {required : PrivilegeSet} (hrole : roleOid ≠ ⟨0⟩) :
    manager.checkPrivilege roleOid relOid required = true ↔
      ∃ acl ∈ manager.acls, acl.grantee = roleOid ∧ acl.relOid = relOid ∧
        acl.privileges.check required = true := by
  have hnone : (manager.roles.entries.map Sigma.snd).find?
      (fun _ => decide ((⟨0⟩ : Oid) = roleOid)) = none := by
    rw [List.find?_eq_none]
    intro role _ hzero
    exact hrole (of_decide_eq_true hzero).symm
  rw [RbacManager.checkPrivilege, hnone]
  simp only [Option.any_none, Bool.false_eq_true, if_false, List.any_eq_true, List.mem_filter,
    decide_eq_true_eq]
  constructor
  · rintro ⟨acl, ⟨hacl, hgrantee, hrelOid⟩, hcheck⟩
    exact ⟨acl, hacl, hgrantee, hrelOid, hcheck⟩
  · rintro ⟨acl, hacl, hgrantee, hrelOid, hcheck⟩
    exact ⟨acl, ⟨hacl, hgrantee, hrelOid⟩, hcheck⟩

theorem check_managerAfter_iff {calls : List AclCall} {roleOid relOid : Oid}
    {required : PrivilegeSet} (hrole : roleOid ≠ ⟨0⟩) :
    (managerAfter calls).checkPrivilege roleOid relOid required = true ↔
      ∃ before privileges after, calls = before ++ .grant roleOid relOid privileges :: after ∧
        (∀ revoked, .revoke roleOid relOid revoked ∉ after) ∧
        ∀ privilege, required.has privilege = true → privileges.has privilege = true := by
  rw [checkPrivilege_iff hrole]
  constructor
  · rintro ⟨acl, hacl, rfl, rfl, hcheck⟩
    obtain ⟨-, before, after, hcalls, hafter⟩ := mem_acls.mp hacl
    exact ⟨before, acl.privileges, after, hcalls, hafter, (check_iff _ _).mp hcheck⟩
  · rintro ⟨before, privileges, after, hcalls, hafter, hall⟩
    exact ⟨⟨roleOid, ⟨0⟩, relOid, privileges⟩, mem_acls.mpr ⟨rfl, before, after, hcalls, hafter⟩,
      rfl, rfl, (check_iff _ _).mpr hall⟩

/-- For a role and a relation the check goes by what was granted and not revoked exactly
if one grant has all of it. -/
theorem privilegesExact_iff (calls : List AclCall) {roleOid : Oid} (relOid : Oid)
    (hrole : roleOid ≠ ⟨0⟩) :
    PrivilegesExact calls roleOid relOid ↔ OneGrant calls roleOid relOid := by
  classical
  constructor
  · intro hexact
    have hgranted := (hexact (.ofPred fun privilege =>
      decide (Granted calls roleOid relOid privilege))).mpr (by simp)
    obtain ⟨before, privileges, after, hcalls, hafter, hall⟩ :=
      (check_managerAfter_iff hrole).mp hgranted
    refine ⟨before, privileges, after, hcalls, hafter, ?_⟩
    intro privilege hprivilege
    exact hall privilege (by simpa using hprivilege)
  · rintro ⟨before, privileges, after, hcalls, hafter, hall⟩ required
    rw [check_managerAfter_iff hrole]
    constructor
    · rintro ⟨before', privileges', after', hcalls', hafter', hall'⟩ privilege hrequired
      exact ⟨before', privileges', after', hcalls', hall' privilege hrequired,
        fun revoked hmem => absurd hmem (hafter' revoked)⟩
    · intro hgranted
      exact ⟨before, privileges, after, hcalls, hafter,
        fun privilege hrequired => hall privilege (hgranted privilege hrequired)⟩

theorem privilegesExact_iff_read : PrivilegesExact [.grant ⟨1⟩ ⟨100⟩ .read] ⟨1⟩ ⟨100⟩ := by
  refine (privilegesExact_iff _ ⟨100⟩ (by decide)).mpr ⟨[], .read, [], rfl, by simp, ?_⟩
  rintro privilege ⟨before, privileges, after, hcalls, hhas, -⟩
  rcases List.append_eq_singleton_iff.mp hcalls.symm with ⟨-, hgrant⟩ | ⟨-, hgrant⟩
  · cases hgrant
    exact hhas
  · cases hgrant

/-- Who may read and write loses the right to read with the right to insert. -/
theorem revoke_removes_all :
    (managerAfter [.grant ⟨1⟩ ⟨100⟩ .write,
        .revoke ⟨1⟩ ⟨100⟩ { PrivilegeSet.none with insert := true }]).checkPrivilege
      ⟨1⟩ ⟨100⟩ .read = false ∧
    ∀ privilege, PrivilegeSet.read.has privilege = true →
      Granted [.grant ⟨1⟩ ⟨100⟩ .write,
        .revoke ⟨1⟩ ⟨100⟩ { PrivilegeSet.none with insert := true }] ⟨1⟩ ⟨100⟩ privilege := by
  refine ⟨by decide, ?_⟩
  intro privilege hread
  refine ⟨[], .write, [.revoke ⟨1⟩ ⟨100⟩ { PrivilegeSet.none with insert := true }], rfl, ?_, ?_⟩
  · cases privilege <;> first | rfl | cases hread
  · intro revoked hmem
    cases List.mem_singleton.mp hmem
    cases privilege <;> first | rfl | cases hread

end History

end PostgressRs.Security.AccessControl
