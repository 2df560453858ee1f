import PostgressRs.BufferCache.SharedCache

/-!
The catalog (`src/catalog/mod.rs`) together with the cache that is registered with
it.  `next_oid` is an atomic `u32` and wraps.  Relations are listed in the order of
the map's entries.
-/

namespace PostgressRs.RelationCatalog

open PostgressRs.BufferCache.SharedCache
open PostgressRs.Types

structure IndexInfo where
  indexOid : Oid
  relOid : Oid
  columnName : String
  rootPage : PageId
deriving DecidableEq

structure Catalog where
  relations : AList fun _ : Oid => Relation
  indexes : List IndexInfo
  nextOid : UInt32

def Catalog.new : Catalog where
  relations := ∅
  indexes := []
  nextOid := 10000

/-- The catalog and the cache it keeps informed. -/
structure Schema (σ : Type) where
  catalog : Catalog
  cache : SharedBufferCache σ

section

variable {σ : Type}

def allocateOid (self : Catalog) : Oid × Catalog :=
  (⟨self.nextOid⟩, { self with nextOid := self.nextOid + 1 })

def unregisterRelation (self : SharedBufferCache σ) (relOid : Oid) : SharedBufferCache σ :=
  { self with rels := self.rels.erase relOid }

/-- Oid 0 stands for a new one. -/
def createRelation (rel : Relation) (self : Schema σ) : Oid × Schema σ :=
  let (relOid, catalog) :=
    if rel.relOid = ⟨0⟩ then allocateOid self.catalog else (rel.relOid, self.catalog)
  let rel := { rel with relOid := relOid }
  (relOid,
    { catalog := { catalog with relations := catalog.relations.insert relOid rel }
      cache := registerRelation self.cache rel })

def deleteRelation (relOid : Oid) (self : Schema σ) : Schema σ where
  catalog := { self.catalog with relations := self.catalog.relations.erase relOid }
  cache := unregisterRelation self.cache relOid

def listRelations (self : Catalog) : List Relation :=
  self.relations.entries.map fun entry => entry.2

def registerIndex (self : Catalog) (info : IndexInfo) : Catalog :=
  { self with indexes := self.indexes ++ [info] }

end

end PostgressRs.RelationCatalog
